/-
# `Proofs.Report.Escapes` — texts without their escape sequences

Colour is added to a report by escape sequences: the escape byte, a bracket, digits and
semicolons, and the letter m.  `withoutEscapes` takes all of them out of a text.

Two texts side by side can make a sequence that neither has, so taking sequences out does
not go through `++` in general.  `Shows a b` says that it does for `a`: whatever stands
behind it, `b` is left of it.  This goes through `++` (`Shows.append`), holds of a text
without the escape byte and itself (`Plain.shows`), and holds of such a text painted in any
style (`shows_paint`).

The second half says which texts have no escape byte: numerals and names of the library,
and every quotation, whatever is quoted (`plain_quoted`).
-/
import LineLexer.Proofs.Source.Lines
import LineLexer.Proofs.Text.Encoding
import LineLexer.Report.Color
import LineLexer.Report.Name
import LineLexer.Diagnostic.Basic

namespace LineLexer.Report

/-! ## Taking escape sequences out -/

/-- The bytes that may stand between the bracket and the letter. -/
def isParameter (b : UInt8) : Bool := (0x30 ≤ b && b ≤ 0x39) || b == 0x3B

/-- How many bytes the escape sequence has that a text starts with; zero if it starts
with none. -/
def escapeLength (s : Bytes) : Nat :=
  let parameters := (s.drop 2).takeWhile isParameter
  if s.take 2 = [0x1B, 0x5B] ∧ s[parameters.length + 2]? = some 0x6D then parameters.length + 3
  else 0

/-- The text behind its first `skip` bytes, without its escape sequences. -/
def withoutEscapesAfter : Nat → Bytes → Bytes
  | _, [] => []
  | skip + 1, _ :: s => withoutEscapesAfter skip s
  | 0, b :: s =>
      match escapeLength (b :: s) with
      | 0 => b :: withoutEscapesAfter 0 s
      | n + 1 => withoutEscapesAfter n s

/-- The text without its escape sequences. -/
def withoutEscapes (s : Bytes) : Bytes := withoutEscapesAfter 0 s

theorem withoutEscapesAfter_eq (s : Bytes) : ∀ n : Nat,
    withoutEscapesAfter n s = withoutEscapes (s.drop n) := by
  induction s with
  | nil =>
      intro n
      rw [List.drop_nil]
      rfl
  | cons b s ih =>
      intro n
      cases n with
      | zero => rfl
      | succ n => exact ih n

theorem withoutEscapes_cons {b : UInt8} {s : Bytes} (h : escapeLength (b :: s) = 0) :
    withoutEscapes (b :: s) = b :: withoutEscapes s := by
  rw [withoutEscapes, withoutEscapesAfter, h]
  rfl

/-- An escape sequence in front is dropped. -/
theorem withoutEscapes_drop {s : Bytes} (h : escapeLength s ≠ 0) :
    withoutEscapes s = withoutEscapes (s.drop (escapeLength s)) := by
  cases s with
  | nil => rfl
  | cons b s =>
      obtain ⟨n, hn⟩ := Nat.exists_eq_succ_of_ne_zero h
      have hskip : withoutEscapes (b :: s) = withoutEscapesAfter n s := by
        rw [withoutEscapes, withoutEscapesAfter, hn]
      rw [hskip, hn, withoutEscapesAfter_eq]
      rfl

theorem escapeLength_of_ne {b : UInt8} (hb : b ≠ 0x1B) (s : Bytes) :
    escapeLength (b :: s) = 0 := by
  refine if_neg fun h => hb ?_
  have hhead := congrArg List.head? h.1
  exact Option.some.inj hhead

/-- A sequence with its parameters is found whole, whatever follows. -/
theorem escapeLength_sequence {ps : Bytes} (hps : ∀ b ∈ ps, isParameter b = true) (t : Bytes) :
    escapeLength ([0x1B, 0x5B] ++ (ps ++ 0x6D :: t)) = ps.length + 3 := by
  have htake : (([0x1B, 0x5B] ++ (ps ++ 0x6D :: t)).drop 2).takeWhile isParameter = ps := by
    show (ps ++ 0x6D :: t).takeWhile isParameter = ps
    rw [List.takeWhile_append_of_pos hps]
    exact List.append_nil ps
  have hletter : ([0x1B, 0x5B] ++ (ps ++ 0x6D :: t))[ps.length + 2]? = some (0x6D : UInt8) := by
    show (ps ++ 0x6D :: t)[ps.length]? = some 0x6D
    rw [List.getElem?_append_right (Nat.le_refl _), Nat.sub_self]
    rfl
  rw [escapeLength, htake]
  exact if_pos ⟨rfl, hletter⟩

/-! ## Numerals -/

section

variable {b : UInt8}

theorem mem_join {sep : Bytes} {parts : List Bytes} (h : b ∈ Bytes.join sep parts) :
    b ∈ sep ∨ ∃ p ∈ parts, b ∈ p := by
  induction parts with
  | nil => exact absurd h List.not_mem_nil
  | cons p ps ih =>
      by_cases hps : ps = []
      · subst hps
        have hp : b ∈ p := by
          have hone : Bytes.join sep [p] = p := List.intercalate_singleton
          rwa [hone] at h
        exact .inr ⟨p, List.mem_cons_self, hp⟩
      · rw [Bytes.join_cons sep p hps, List.mem_append, List.mem_append] at h
        rcases h with hp | hsep | hrest
        · exact .inr ⟨p, List.mem_cons_self, hp⟩
        · exact .inl hsep
        · exact (ih hrest).imp_right fun ⟨q, hq, hb⟩ => ⟨q, List.mem_cons_of_mem p hq, hb⟩

/-- A part stands in the joined text. -/
theorem subset_join (sep : Bytes) {parts : List Bytes} {p : Bytes} (h : p ∈ parts) :
    p ⊆ Bytes.join sep parts := by
  induction parts with
  | nil => exact absurd h List.not_mem_nil
  | cons q qs ih =>
      by_cases hqs : qs = []
      · subst hqs
        have hone : Bytes.join sep [q] = q := List.intercalate_singleton
        rw [hone, List.mem_singleton.mp h]
        exact List.Subset.refl q
      · rw [Bytes.join_cons sep q hqs]
        rcases List.mem_cons.mp h with rfl | h
        · exact List.subset_append_left p _
        · intro b hb
          exact List.mem_append_right q (List.mem_append_right sep (ih h hb))

theorem exists_digit_of_mem_toDigits {base : Nat} (hbase : 1 < base) {c : Char} (n : Nat) :
    c ∈ Nat.toDigits base n → ∃ m : Nat, c = m.digitChar := by
  induction n using Nat.strongRecOn with
  | ind n ih =>
      intro hc
      rw [Nat.toDigits_eq_if hbase] at hc
      split at hc
      · exact ⟨n, List.mem_singleton.mp hc⟩
      · rename_i hn
        rcases List.mem_append.mp hc with hc | hc
        · exact ih (n / base) (Nat.div_lt_self (by omega) hbase) hc
        · exact ⟨n % base, List.mem_singleton.mp hc⟩

/-- A byte of a decimal numeral is a digit. -/
theorem isParameter_of_mem_decimal {n : Nat} (h : b ∈ Bytes.decimal n) : isParameter b = true := by
  obtain ⟨c, hc, hb⟩ := List.mem_flatMap.mp h
  have hdigit : c.isDigit = true := Nat.isDigit_of_mem_toDigits (by decide) (by decide) hc
  rw [Char.isDigit, Bool.and_eq_true, decide_eq_true_eq, decide_eq_true_eq] at hdigit
  have hcode : 48 ≤ c.toNat ∧ c.toNat ≤ 57 := hdigit
  have hspelled : b ∈ Bytes.ofChar c := hb
  rw [Bytes.ofChar_eq, if_pos (by omega), List.mem_singleton] at hspelled
  subst hspelled
  simp only [isParameter, UInt8.le_iff_toNat_le, UInt8.toNat_ofNat']
  simp
  omega

end

/-! ## Texts that show others -/

/-- A text without the escape byte. -/
abbrev Plain (s : Bytes) : Prop := 0x1B ∉ s

/-- Without its escape sequences `a` is `b`, whatever stands behind it. -/
def Shows (a b : Bytes) : Prop := ∀ t, withoutEscapes (a ++ t) = b ++ withoutEscapes t

namespace Shows

variable {a b a' b' : Bytes}

theorem withoutEscapes_eq (h : Shows a b) : withoutEscapes a = b := by
  have hnil := h []
  rwa [List.append_nil, show withoutEscapes [] = [] from rfl, List.append_nil] at hnil

theorem nil : Shows [] [] := fun _ => rfl

theorem append (h : Shows a b) (h' : Shows a' b') : Shows (a ++ a') (b ++ b') := by
  intro t
  rw [List.append_assoc, h, h', List.append_assoc]

theorem flatMap {α : Type} {f g : α → Bytes} (l : List α) (h : ∀ x ∈ l, Shows (f x) (g x)) :
    Shows (l.flatMap f) (l.flatMap g) := by
  induction l with
  | nil => exact nil
  | cons x l ih =>
      rw [List.flatMap_cons, List.flatMap_cons]
      exact (h x List.mem_cons_self).append (ih fun y hy => h y (List.mem_cons_of_mem x hy))

end Shows

theorem Plain.shows {s : Bytes} (h : Plain s) : Shows s s := by
  intro t
  induction s with
  | nil => rfl
  | cons b s ih =>
      have hb : b ≠ 0x1B := fun hb => h (by rw [hb]; exact List.mem_cons_self)
      rw [List.cons_append, withoutEscapes_cons (escapeLength_of_ne hb _),
        ih fun hs => h (List.mem_cons_of_mem b hs)]
      rfl

/-- A text shows on when a text without the escape byte follows. -/
theorem Shows.text {a b s : Bytes} (h : Shows a b) (hs : Plain s) : Shows (a ++ s) (b ++ s) :=
  h.append hs.shows

/-- Nothing is left of an escape sequence. -/
theorem shows_escape (ns : List Nat) : Shows (escape ns) [] := by
  intro t
  have hps : ∀ b ∈ Bytes.join (utf8 ";") (ns.map Bytes.decimal), isParameter b = true := by
    intro b hb
    rcases mem_join hb with hsep | ⟨p, hp, hb⟩
    · rw [List.mem_singleton.mp hsep]
      rfl
    · obtain ⟨n, -, rfl⟩ := List.mem_map.mp hp
      exact isParameter_of_mem_decimal hb
  have hform : escape ns ++ t =
      [0x1B, 0x5B] ++ (Bytes.join (utf8 ";") (ns.map Bytes.decimal) ++ 0x6D :: t) := by
    rw [escape, List.append_assoc, List.append_assoc]
    rfl
  have hlength := escapeLength_sequence hps t
  have hdrop : ([0x1B, 0x5B] ++ (Bytes.join (utf8 ";") (ns.map Bytes.decimal) ++ 0x6D :: t)).drop
      ((Bytes.join (utf8 ";") (ns.map Bytes.decimal)).length + 3) = t :=
    List.drop_length_add_append (i := 1)
  rw [hform, withoutEscapes_drop (by omega), hlength, hdrop]
  rfl

/-- A text in a style shows the text. -/
theorem shows_paint {s : Bytes} (h : Plain s) (style : Style) :
    Shows (paint true style s) (paint false style s) := by
  have hpainted := ((shows_escape (style.map Attribute.on)).append h.shows).append
    (shows_escape (style.map Attribute.off))
  rwa [List.nil_append, List.append_nil] at hpainted

/-! ## Texts without the escape byte -/

theorem Plain.append {s t : Bytes} (hs : Plain s) (ht : Plain t) : Plain (s ++ t) := by
  intro h
  rcases List.mem_append.mp h with h | h
  · exact hs h
  · exact ht h

theorem Plain.of_subset {s t : Bytes} (ht : Plain t) (h : s ⊆ t) : Plain s := fun hs => ht (h hs)

theorem Plain.flatMap {α : Type} {f : α → Bytes} {l : List α} (h : ∀ x ∈ l, Plain (f x)) :
    Plain (l.flatMap f) := by
  intro hmem
  obtain ⟨x, hx, hmem⟩ := List.mem_flatMap.mp hmem
  exact h x hx hmem

theorem plain_replicate {b : UInt8} (hb : b ≠ 0x1B) (n : Nat) : Plain (List.replicate n b) :=
  fun h => hb (List.eq_of_mem_replicate h).symm

theorem Plain.padLeft {s : Bytes} (hs : Plain s) {b : UInt8} (hb : b ≠ 0x1B) (width : Nat) :
    Plain (Bytes.padLeft width b s) :=
  (plain_replicate hb _).append hs

theorem Plain.padRight {s : Bytes} (hs : Plain s) (width : Nat) : Plain (s.padRight width) :=
  hs.append (plain_replicate (by decide) _)

/-- The escape byte spells one character only. -/
theorem plain_ofChar {c : Char} (hc : c.toNat ≠ 0x1B) : Plain (Bytes.ofChar c) :=
  fun h => hc (Bytes.toNat_of_mem_ofChar (by decide) h)

theorem plain_digits {base : Nat} (hbase : 1 < base) (n : Nat) :
    Plain ((Nat.toDigits base n).flatMap String.utf8EncodeChar) := by
  refine Plain.flatMap fun c hc => plain_ofChar fun hcode => ?_
  obtain ⟨m, rfl⟩ := exists_digit_of_mem_toDigits hbase n hc
  exact Nat.digitChar_ne (Char.ofNat 0x1B) (by decide) (Char.toNat_inj.mp hcode)

theorem plain_decimal (n : Nat) : Plain (Bytes.decimal n) := plain_digits (by decide) n

theorem plain_hex (width n : Nat) : Plain (Bytes.hex width n) :=
  (plain_digits (by decide) n).padLeft (by decide) width

theorem plain_hexPairs (s : Bytes) : Plain s.hexPairs := Plain.flatMap fun _ _ => plain_hex 2 _

theorem plain_numberEscape (n : Nat) : Plain (Text.numberEscape n) := by
  rw [Text.numberEscape]
  split
  · exact Plain.append (by decide) (plain_hex 2 n)
  split
  · exact Plain.append (by decide) (plain_hex 4 n)
  · exact Plain.append (by decide) (plain_hex 8 n)

theorem plain_controlLetter {c : Char} {l : String} (h : Text.controlLetter? c = some l) :
    Plain (utf8 l) := by
  rw [Text.controlLetter?] at h
  split at h <;> cases h <;> decide

/-- The escape character leaves no mark, so that in a quotation it is written by number. -/
theorem plain_escapeChar {quote : Char} (hquote : quote.toNat ≠ 0x1B) (c : Char) :
    Plain (Text.escapeChar quote c) := by
  rw [Text.escapeChar]
  split
  · rename_i h
    refine Plain.append (by decide) (plain_ofChar ?_)
    rcases h with rfl | rfl
    · exact hquote
    · decide
  split
  · rename_i h
    refine plain_ofChar fun hcode => ?_
    rw [Char.toNat_inj.mp (hcode.trans (by rfl : 0x1B = (Char.ofNat 0x1B).toNat))] at h
    exact absurd h (by decide)
  split
  · rename_i h
    exact Plain.append (by decide) (plain_controlLetter h)
  · exact plain_numberEscape c.toNat

/-- A quotation has no escape byte, whatever is quoted. -/
theorem plain_quoted (s : Bytes) : Plain (Text.quoted s) := by
  refine Plain.append (Plain.append (by decide) (Plain.flatMap fun g _ => ?_)) (by decide)
  rw [Text.escapeGlyph]
  split
  · exact Plain.append (by decide) (plain_hexPairs g.bytes)
  · exact plain_escapeChar (by decide) g.char

theorem plain_coord (c : Coord) : Plain c.text :=
  ((plain_decimal c.line).append (by decide)).append (plain_decimal c.column)

theorem plain_kindName (k : Kind) : Plain k.name := by
  cases k with
  | unknown code => exact (Plain.append (by decide) (plain_decimal _)).append (by decide)
  | punctuation => decide
  | keyword => decide
  | identifier => decide
  | intLiteral => decide
  | stringLiteral => decide

theorem plain_severityName (s : Severity) : Plain s.name := by
  rw [Severity.name]
  split
  · decide
  split
  · decide
  split <;> decide

theorem plain_codeId (c : Code) : Plain c.id := by
  rw [Code.id]
  split
  · rename_i letters h
    refine Plain.append ?_ ((plain_decimal _).padLeft (by decide) 4)
    rw [Code.family?] at h
    split at h <;> cases h <;> decide
  · decide

theorem plain_lastPart {path : Bytes} (h : Plain path) : Plain (lastPart path) := by
  rw [lastPart]
  split
  · decide
  · refine h.of_subset fun b hb => ?_
    have hkept := (List.takeWhile_prefix _).subset (List.mem_reverse.mp hb)
    exact List.mem_reverse.mp ((List.dropWhile_suffix _).subset hkept)

theorem plain_baseName {name : Bytes} (h : Plain name) : Plain (baseName name) := by
  rw [baseName]
  split
  · exact h
  · refine plain_lastPart fun hmem => ?_
    obtain ⟨b, hb, heq⟩ := List.mem_map.mp hmem
    split at heq
    · exact absurd heq (by decide)
    · exact h (heq ▸ hb)

theorem plain_displayName (mode : NameMode) {name : Bytes} (h : Plain name) :
    Plain (displayName mode name) := by
  cases mode with
  | full => exact h
  | last => exact plain_baseName h
  | automatic =>
      show Plain (if nameLimit < name.length then baseName name else name)
      split
      · exact plain_baseName h
      · exact h

end LineLexer.Report
