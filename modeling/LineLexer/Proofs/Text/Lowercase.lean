/-
# `Proofs.Text.Lowercase` — names in any letter case

Names are compared in lower case.  Besides the ASCII letters two characters
have a lower-case partner in ASCII: the dotted capital I and the Kelvin
sign.  A name without `i` and `k` is therefore meant exactly by the texts
that become it when their ASCII letters are made small.
-/
import LineLexer.Proofs.Text.Encoding
import LineLexer.Text.Lowercase

namespace LineLexer.Text

/-- The small letter for a capital one of ASCII; any other byte itself. -/
def smallByte (b : UInt8) : UInt8 := if 0x41 ≤ b ∧ b ≤ 0x5A then b + 0x20 else b

/-- A text spells a name, in capital and small letters of ASCII. -/
def Spells (s name : Bytes) : Prop := s.map smallByte = name

instance (s name : Bytes) : Decidable (Spells s name) :=
  inferInstanceAs (Decidable (s.map smallByte = name))

/-- Whether a byte is a character of ASCII that is the lower-case partner of no
character outside ASCII. -/
def asciiCased (b : UInt8) : Bool := b < 0x80 && b != 0x69 && b != 0x6B

theorem asciiCased_iff {b : UInt8} : asciiCased b = true ↔ b < 0x80 ∧ b ≠ 0x69 ∧ b ≠ 0x6B := by
  simp [asciiCased, and_assoc]

theorem lt_of_smallByte {b : UInt8} (h : smallByte b < 0x80) : b < 0x80 := by
  rw [smallByte] at h
  split at h
  · rename_i hcapital
    exact UInt8.lt_of_le_of_lt hcapital.2 (by decide)
  · exact h

/-- A character stands in a run of capital letters and changes by what the run
says, or it stands in none and does not change. -/
theorem lowerChar_cases (c : Char) :
    (∃ r ∈ upperRuns, r.1 ≤ c.toNat ∧ c.toNat ≤ r.2.1 ∧
      lowerChar c = Char.ofNat ((c.toNat : Int) + r.2.2.2).toNat) ∨
    ((∀ r ∈ upperRuns, ¬ (r.1 ≤ c.toNat ∧ c.toNat ≤ r.2.1 ∧ (c.toNat - r.1) % r.2.2.1 = 0)) ∧
      lowerChar c = c) := by
  unfold lowerChar
  split
  · rename_i add hfind
    have hin := List.find?_some hfind
    simp only [Bool.and_eq_true, decide_eq_true_eq] at hin
    exact .inl ⟨_, List.mem_of_find?_eq_some hfind, hin.1.1, hin.1.2, rfl⟩
  · rename_i hfind
    refine .inr ⟨?_, rfl⟩
    rintro r hr ⟨hlo, hhi, hstep⟩
    exact List.find?_eq_none.mp hfind r hr (by simp [hlo, hhi, hstep])

/-- A run of capital letters is that of ASCII, or is the one character whose
partner is `i` or `k`, or has partners that are characters outside ASCII. -/
theorem upperRuns_partners : ∀ r ∈ upperRuns, r = (0x41, 0x5A, 1, 32) ∨ 0x80 ≤ r.1 ∧
    ((r.1 = r.2.1 ∧ (r.1 + r.2.2.2 = 0x69 ∨ r.1 + r.2.2.2 = 0x6B)) ∨
    (0x80 ≤ r.1 + r.2.2.2 ∧
      (r.2.1 + r.2.2.2 < 0xD800 ∨ (0xDFFF < r.1 + r.2.2.2 ∧ r.2.1 + r.2.2.2 < 0x110000)))) := by
  decide +kernel

/-- The partner of a character outside ASCII is outside ASCII too, but for `i`
and `k`. -/
theorem le_lowerChar_toNat {c : Char} (hc : 0x80 ≤ c.toNat)
    (hi : (lowerChar c).toNat ≠ 0x69) (hk : (lowerChar c).toNat ≠ 0x6B) :
    0x80 ≤ (lowerChar c).toNat := by
  rcases lowerChar_cases c with ⟨r, hr, hlo, hhi, hlower⟩ | ⟨-, hsame⟩
  · rw [hlower] at hi hk ⊢
    -- `Char.ofNat` gives zero for a number that is no character, so each case asks for one
    rcases upperRuns_partners r hr with rfl | ⟨-, ⟨hone, hletter⟩ | ⟨hle, hvalid⟩⟩
    · exact absurd (show c.toNat ≤ 0x5A from hhi) (by omega)
    · have hcode : ((c.toNat : Int) + r.2.2.2).toNat.isValidChar := Or.inl (by omega)
      rw [Glyph.toNat_charOfNat hcode] at hi hk
      omega
    · have hcode : ((c.toNat : Int) + r.2.2.2).toNat.isValidChar :=
        Glyph.isValidChar_iff.mpr (by omega)
      rw [Glyph.toNat_charOfNat hcode]
      omega
  · rw [hsame]
    exact hc

/-- The partner of a character of ASCII. -/
theorem lowerChar_toNat_of_lt {c : Char} (hc : c.toNat < 0x80) : (lowerChar c).toNat =
    if 0x41 ≤ c.toNat ∧ c.toNat ≤ 0x5A then c.toNat + 0x20 else c.toNat := by
  rcases lowerChar_cases c with ⟨r, hr, hlo, hhi, hlower⟩ | ⟨hnone, hsame⟩
  · rcases upperRuns_partners r hr with rfl | ⟨hout, -⟩
    · rw [hlower, if_pos ⟨hlo, hhi⟩]
      exact Glyph.toNat_charOfNat (Or.inl (show c.toNat + 32 < 0xD800 by omega))
    · exact absurd (Nat.le_trans hout hlo) (Nat.not_le.mpr hc)
  · have hcapital : ¬ (0x41 ≤ c.toNat ∧ c.toNat ≤ 0x5A) :=
      fun h => hnone _ List.mem_cons_self ⟨h.1, h.2, Nat.mod_one _⟩
    rw [hsame, if_neg hcapital]

theorem ofChar_lowerChar_single {b : UInt8} (hb : b < 0x80) :
    Bytes.ofChar (lowerChar (Glyph.single b).char) = [smallByte b] := by
  have hlt : b.toNat < 0x80 := UInt8.lt_iff_toNat_lt.mp hb
  have hcode := Glyph.single_char_toNat hb
  have hlower := lowerChar_toNat_of_lt (hcode ▸ hlt)
  rw [hcode] at hlower
  by_cases hcapital : 0x41 ≤ b ∧ b ≤ 0x5A
  · have hcodes : 0x41 ≤ b.toNat ∧ b.toNat ≤ 0x5A := hcapital
    rw [Bytes.ofChar_eq, hlower, if_pos hcodes, if_pos (by omega), smallByte, if_pos hcapital,
      UInt8.ofNat_add, UInt8.ofNat_toNat]
    rfl
  · have hcodes : ¬ (0x41 ≤ b.toNat ∧ b.toNat ≤ 0x5A) := hcapital
    rw [Bytes.ofChar_eq, hlower, if_neg hcodes, if_pos (by omega), smallByte, if_neg hcapital,
      UInt8.ofNat_toNat]

/-- In a text of ASCII only its capital letters change. -/
theorem lowercase_ascii : ∀ {s : Bytes}, (∀ b ∈ s, b < 0x80) → lowercase s = s.map smallByte
  | [], _ => rfl
  | b :: s, h => by
      obtain ⟨hb, hs⟩ := List.forall_mem_cons.mp h
      have ih : lowercase s = s.map smallByte := lowercase_ascii hs
      rw [lowercase, glyphs_cons_of_lt hb, List.flatMap_cons, ofChar_lowerChar_single hb,
        ← lowercase, ih]
      rfl

/-- A character of ASCII is read from bytes of ASCII. -/
theorem lt_of_mem_bytes {s : Bytes} {g : Glyph} (hg : g ∈ glyphs s) (hchar : g.char.toNat < 0x80) :
    ∀ b ∈ g.bytes, b < 0x80 := by
  revert hchar
  refine forall_mem_glyphs (P := fun g => g.char.toNat < 0x80 → ∀ b ∈ g.bytes, b < 0x80) ?_ s g hg
  intro a rest hchar b hb
  obtain ⟨ha, hfirst⟩ := Glyph.first_eq_single hchar
  rw [hfirst] at hb
  exact List.mem_singleton.mp hb ▸ ha

/-- The text is empty where its lower case is. -/
theorem lowercase_eq_nil_iff {s : Bytes} : lowercase s = [] ↔ s = [] := by
  cases s with
  | nil => exact iff_of_true rfl rfl
  | cons a s =>
      refine iff_of_false ?_ (List.cons_ne_nil a s)
      rw [lowercase, glyphs_cons, List.flatMap_cons, List.append_eq_nil_iff]
      exact fun h => Bytes.ofChar_ne_nil _ h.1

/-- A text whose lower case is in ASCII and has neither `i` nor `k` is in
ASCII itself. -/
theorem ascii_of_lowercase {s : Bytes}
    (h : ∀ b ∈ lowercase s, asciiCased b = true) : ∀ b ∈ s, b < 0x80 := by
  intro a ha
  rw [← flatMap_bytes_glyphs s] at ha
  obtain ⟨g, hg, hag⟩ := List.mem_flatMap.mp ha
  obtain ⟨b, hb⟩ := List.exists_mem_of_ne_nil _ (Bytes.ofChar_ne_nil (lowerChar g.char))
  obtain ⟨hlt, hi, hk⟩ := asciiCased_iff.mp (h b (List.mem_flatMap.mpr ⟨g, hg, hb⟩))
  have hcode : (lowerChar g.char).toNat = b.toNat := Bytes.toNat_of_mem_ofChar hlt hb
  have hchar : g.char.toNat < 0x80 := by
    refine Nat.lt_of_not_le fun hle => ?_
    have hout := le_lowerChar_toNat hle (fun hi' => hi (UInt8.toNat_inj.mp (hcode ▸ hi')))
      (fun hk' => hk (UInt8.toNat_inj.mp (hcode ▸ hk')))
    exact absurd (UInt8.lt_iff_toNat_lt.mp hlt) (Nat.not_lt.mpr (hcode ▸ hout))
  exact lt_of_mem_bytes hg hchar a hag

/-- A text means a name without `i` and `k` when its letters spell it, whatever
their case, and no character outside ASCII does. -/
theorem lowercase_eq_iff {s name : Bytes} (hname : name.all asciiCased = true) :
    lowercase s = name ↔ Spells s name := by
  have hcased : ∀ b ∈ name, asciiCased b = true := List.all_eq_true.mp hname
  constructor
  · intro h
    have hascii := ascii_of_lowercase (h ▸ hcased)
    rw [Spells, ← lowercase_ascii hascii, h]
  · intro h
    have hascii : ∀ b ∈ s, b < 0x80 := by
      intro b hb
      have hmem : smallByte b ∈ name := h ▸ List.mem_map_of_mem hb
      exact lt_of_smallByte (asciiCased_iff.mp (hcased _ hmem)).1
    rw [lowercase_ascii hascii, h]

end LineLexer.Text
