/-
# `Proofs.Scan.LongestMatch` — the scanner delivers the longest match

The machine of `Scan.Line` sees one character at a time and decides one
character late.  `Line.longestMatch` cuts the line into segments, each decided
by all that follows.  Here the two are shown to deliver the same results for
every line (`Line.scan_eq_longestMatch`).

The argument runs along the segments.  For each state there is one lemma that
says what becomes of the machine in that state over *all* characters ahead:

  * inside a run it reads up to the first character that does not go on with
    it (`run_runState`);
  * inside a string up to the next quote (`run_string`);
  * behind the beginning of a symbol it reads one character more at the most
    (`run_symbol`), because no symbol is longer than two characters.

From a clean state the machine therefore delivers the result of the first
segment and is clean again behind it (`run_clean_cons`).
-/
import LineLexer.Proofs.Scan.Segment

namespace LineLexer

/-! ## Characters as they are read -/

/-- The character is ASCII only if a single byte spells it. -/
def Glyph.Canonical (g : Glyph) : Prop :=
  g.char.toNat < 0x80 → ∃ b : UInt8, b < 0x80 ∧ g = single b

theorem canonical_of_mem_glyphs {s : Bytes} {g : Glyph} (h : g ∈ glyphs s) : g.Canonical := by
  refine forall_mem_glyphs (P := Glyph.Canonical) ?_ s g h
  intro a rest hlt
  obtain ⟨ha, hfirst⟩ := Glyph.first_eq_single hlt
  exact ⟨a, ha, hfirst⟩

@[simp] theorem Glyph.single_bytes (a : UInt8) : (single a).bytes = [a] := rfl

@[simp] theorem Glyph.single_size (a : UInt8) : (single a).size = 1 := rfl

theorem Glyph.single_inj {a b : UInt8} (h : single a = single b) : a = b := by
  have := congrArg Glyph.bytes h
  simpa [single] using this

/-! ## Symbols at the head -/

theorem glyphs_one {a : UInt8} (ha : a < 0x80) : glyphs [a] = [.single a] := by
  rw [glyphs_cons, Glyph.first_of_lt ha]
  rfl

theorem glyphs_two {a b : UInt8} (ha : a < 0x80) (hb : b < 0x80) :
    glyphs [a, b] = [.single a, .single b] := by
  rw [glyphs_cons, Glyph.first_of_lt ha]
  exact congrArg (Glyph.single a :: ·) (glyphs_one hb)

/-- The symbols under a character, in terms of bytes. -/
theorem mem_symbolsFrom {g : Glyph} {s : Bytes} :
    s ∈ symbolsFrom g ↔ s ∈ symbols.entries ∧ ∃ a t, s = a :: t ∧ a < 0x80 ∧ g = .single a := by
  rw [symbolsFrom, List.mem_filter, decide_eq_true_eq]
  refine and_congr_right fun hs => ?_
  rcases symbol_cases hs with ⟨a, rfl, ha⟩ | ⟨a, b, rfl, ha, hb⟩
  · rw [glyphs_one ha]
    constructor
    · exact fun h => ⟨a, [], rfl, ha, (Option.some.inj h).symm⟩
    · rintro ⟨a', t, h, -, rfl⟩
      cases h
      rfl
  · rw [glyphs_two ha hb]
    constructor
    · exact fun h => ⟨a, [b], rfl, ha, (Option.some.inj h).symm⟩
    · rintro ⟨a', t, h, -, rfl⟩
      cases h
      rfl

/-- What the index has under a character are the symbols that begin with it. -/
theorem startingWith_eq_symbolsFrom {g : Glyph} (hg : g.Canonical) :
    symbols.startingWith g.char.toNat = symbolsFrom g := by
  rw [symbols_indexed, symbolsFrom]
  refine List.filter_congr fun s hs => ?_
  obtain ⟨a, t, rfl, ha⟩ : ∃ a t, s = a :: t ∧ a < 0x80 := by
    rcases symbol_cases hs with ⟨a, rfl, ha⟩ | ⟨a, b, rfl, ha, -⟩
    · exact ⟨a, [], rfl, ha⟩
    · exact ⟨a, [b], rfl, ha⟩
  have hcode : Vocabulary.firstCode (a :: t) = a.toNat := by
    rw [Vocabulary.firstCode, Glyph.first_of_lt ha, Glyph.single_char_toNat ha]
  have hhead : (glyphs (a :: t)).head? = some (.single a) := by
    rw [glyphs_cons, Glyph.first_of_lt ha]
    rfl
  rw [hcode, hhead, decide_eq_decide]
  constructor
  · intro h
    have hnat : a.toNat = g.char.toNat := by exact_mod_cast h
    obtain ⟨b, hb, rfl⟩ := hg (by
      rw [← hnat]
      simpa [UInt8.lt_iff_toNat_lt] using ha)
    rw [Glyph.single_char_toNat hb, UInt8.toNat_inj] at hnat
    rw [hnat]
  · intro h
    rw [← Option.some.inj h, Glyph.single_char_toNat ha]

theorem endsWord_eq_endsRun {g : Glyph} (hg : g.Canonical) : endsWord g.char = endsRun g := by
  rw [endsWord, startsSymbol, Vocabulary.startsAny, startingWith_eq_symbolsFrom hg, endsRun]

/-- What can stand at the head behind an ASCII character: the character by
itself, or with the next one. -/
theorem symbol_at_head {a : UInt8} {t : List Glyph} {s : Bytes} (hs : s ∈ symbols.entries)
    (h : glyphs s <+: .single a :: t) :
    s = [a] ∨ ∃ b t', s = [a, b] ∧ b < 0x80 ∧ t = .single b :: t' := by
  rcases symbol_cases hs with ⟨c, rfl, hc⟩ | ⟨c, b, rfl, hc, hb⟩
  · rw [glyphs_one hc, List.cons_prefix_cons] at h
    exact Or.inl (by rw [Glyph.single_inj h.1])
  · rw [glyphs_two hc hb, List.cons_prefix_cons] at h
    obtain ⟨t', ht⟩ := h.2
    exact Or.inr ⟨b, t', by rw [Glyph.single_inj h.1], hb, ht.symm⟩

/-- A symbol that stands at the head and that no other one there is longer than
is the longest one. -/
theorem longestSymbol?_eq_some {gs : List Glyph} {s : Bytes} (hs : s ∈ symbols.entries)
    (hp : glyphs s <+: gs)
    (hmax : ∀ u ∈ symbols.entries, glyphs u <+: gs → u.length ≤ s.length) :
    longestSymbol? gs = some s := by
  have hmem : s ∈ symbols.entries.filter fun s => (glyphs s).isPrefixOf gs :=
    List.mem_filter.mpr ⟨hs, List.isPrefixOf_iff_prefix.mpr hp⟩
  obtain ⟨r, hr⟩ := Option.isSome_iff_exists.mp (List.isSome_maxOn?_of_mem (f := List.length) hmem)
  have hle := List.le_apply_get_maxOn?_of_mem (f := List.length) hmem
  obtain ⟨hr1, hr2⟩ := List.mem_filter.mp (List.maxOn?_mem hr)
  have hrp : glyphs r <+: gs := List.isPrefixOf_iff_prefix.mp hr2
  simp only [hr, Option.get_some] at hle
  have hlen : r.length = s.length := Nat.le_antisymm (hmax r hr1 hrp) hle
  -- two beginnings of one text with the same length are the same
  have hbytes : ∀ u : Bytes, glyphs u <+: gs → u <+: gs.flatMap Glyph.bytes := by
    rintro u ⟨t, rfl⟩
    rw [List.flatMap_append, flatMap_bytes_glyphs]
    exact List.prefix_append u _
  have heq : r = s :=
    (List.prefix_of_prefix_length_le (hbytes r hrp) (hbytes s hp) (Nat.le_of_eq hlen)).eq_of_length
      hlen
  rw [longestSymbol?, hr, heq]

theorem longestSymbol?_eq_none {gs : List Glyph}
    (h : ∀ u ∈ symbols.entries, ¬ glyphs u <+: gs) : longestSymbol? gs = none := by
  have hnil : (symbols.entries.filter fun s => (glyphs s).isPrefixOf gs) = [] := by
    rw [List.filter_eq_nil_iff]
    intro u hu hp
    exact h u hu (List.isPrefixOf_iff_prefix.mp hp)
  rw [longestSymbol?, hnil]
  rfl

/-- Two characters that make a symbol. -/
theorem longestSymbol?_two {a b : UInt8} {t : List Glyph} (hs : [a, b] ∈ symbols.entries) :
    longestSymbol? (.single a :: .single b :: t) = some [a, b] := by
  obtain ⟨-, -, hascii⟩ := symbols_shape _ hs
  refine longestSymbol?_eq_some hs ?_ fun u hu _ => (symbols_shape u hu).2.1
  rw [glyphs_two (hascii a (by simp)) (hascii b (by simp))]
  exact ⟨t, rfl⟩

/-- One character that is a symbol, and does not make one with the next. -/
theorem longestSymbol?_one {a : UInt8} {t : List Glyph} (hs : [a] ∈ symbols.entries)
    (h : ∀ b t', t = .single b :: t' → [a, b] ∉ symbols.entries) :
    longestSymbol? (.single a :: t) = some [a] := by
  obtain ⟨-, -, hascii⟩ := symbols_shape _ hs
  refine longestSymbol?_eq_some hs ?_ ?_
  · rw [glyphs_one (hascii a (by simp))]
    exact ⟨t, rfl⟩
  · intro u hu hp
    rcases symbol_at_head hu hp with rfl | ⟨b, t', rfl, -, ht⟩
    · exact Nat.le_refl _
    · exact absurd hu (h b t' ht)

/-- A character that is no symbol, neither by itself nor with the next. -/
theorem longestSymbol?_orphan {a : UInt8} {t : List Glyph} (hs : [a] ∉ symbols.entries)
    (h : ∀ b t', t = .single b :: t' → [a, b] ∉ symbols.entries) :
    longestSymbol? (.single a :: t) = none := by
  refine longestSymbol?_eq_none fun u hu hp => ?_
  rcases symbol_at_head hu hp with rfl | ⟨b, t', rfl, -, ht⟩
  · exact hs hu
  · exact h b t' ht hu

/-- A character under which there are no symbols. -/
theorem longestSymbol?_stray {g : Glyph} {t : List Glyph} (h : symbolsFrom g = []) :
    longestSymbol? (g :: t) = none := by
  refine longestSymbol?_eq_none fun u hu hp => ?_
  have hmem : u ∈ symbolsFrom g := by
    rw [mem_symbolsFrom]
    refine ⟨hu, ?_⟩
    rcases symbol_cases hu with ⟨a, rfl, ha⟩ | ⟨a, b, rfl, ha, hb⟩
    · rw [glyphs_one ha, List.cons_prefix_cons] at hp
      exact ⟨a, [], rfl, ha, hp.1.symm⟩
    · rw [glyphs_two ha hb, List.cons_prefix_cons] at hp
      exact ⟨a, [b], rfl, ha, hp.1.symm⟩
  rw [h] at hmem
  exact absurd hmem List.not_mem_nil

/-! ## The machine in each of its states -/

namespace Line

theorem run_cons (ln : Line) (st : State) (here : Mark) (g : Glyph) (rest : List Glyph) :
    ln.run st here (g :: rest) =
      (ln.step here g st).2 ++ ln.run (ln.step here g st).1 (here.past g) rest := rfl

/-- Delivering a result and reading the character again is being clean in front
of it. -/
theorem run_of_redispatch {ln : Line} {st : State} {here : Mark} {g : Glyph} {r : Result}
    (h : ln.step here g st = ln.redispatch r here g) (rest : List Glyph) :
    ln.run st here (g :: rest) = r :: ln.run .clean here (g :: rest) := by
  rw [run_cons, h]
  rfl

theorem misplaced_eq (ln : Line) (here : Mark) (g : Glyph) (context : Bytes) :
    ln.misplaced here g context = .error (ln.complainAt here g context) := by
  simp [misplaced, complainAt, coord, span, Nat.add_assoc]

/-- The machine's error at the end of a line, which looks for the last character
from the right, is at the last character read from the left. -/
theorem openAtEnd_eq (ln : Line) (h : glyphs ln.text ≠ []) (context : Bytes) (fixes : List Fix) :
    ln.openAtEnd (Mark.start.after (glyphs ln.text)) context fixes =
      .error (ln.complainAtEnd context fixes) := by
  obtain ⟨gs, g, hg⟩ : ∃ gs g, glyphs ln.text = gs ++ [g] := by
    rcases List.eq_nil_or_concat (glyphs ln.text) with hnil | ⟨gs, g, hg⟩
    · exact absurd hnil h
    · exact ⟨gs, g, by rw [hg, List.concat_eq_append]⟩
  simp [openAtEnd, complainAtEnd, Bytes.charCount, Mark.start, span, hg,
    Bytes.lastLength_eq_size hg]

/-! ### Runs -/

/-- The state inside a run. -/
def runState : RunSort → Mark → Bytes → State
  | .word => .word
  | .number => .number

theorem kind_ofWord (s : Bytes) : Kind.ofWord s = RunSort.word.kind s := by
  simp [Kind.ofWord, isKeyword_iff, RunSort.kind]

theorem step_runState (ln : Line) (here : Mark) (g : Glyph) (sort : RunSort) (start : Mark)
    (read : Bytes) :
    ln.step here g (runState sort start read) =
      if sort.goesOn g.char then (runState sort start (g.bytes.reverse ++ read), [])
      else if endsWord g.char then
        ln.redispatch (ln.emit (sort.kind read.reverse) read.reverse start) here g
      else (.clean, [.error (ln.complainAt here g sort.complaint)]) := by
  cases sort with
  | word =>
      rw [runState, step, kind_ofWord, misplaced_eq]
      rfl
  | number =>
      rw [runState, step, misplaced_eq]
      rfl

theorem finish_runState (ln : Line) (eol : Mark) (sort : RunSort) (start : Mark) (read : Bytes) :
    ln.finish eol (runState sort start read) =
      [ln.emit (sort.kind read.reverse) read.reverse start] := by
  cases sort with
  | word => rw [runState, finish, kind_ofWord]
  | number => rfl

/-- Inside a run the machine reads up to the first character that does not go on
with it; that character decides. -/
theorem run_runState (ln : Line) (sort : RunSort) (start : Mark) :
    ∀ (gs : List Glyph) (here : Mark) (read : Bytes),
      ln.run (runState sort start read) here gs =
        let body := gs.takeWhile fun h => sort.goesOn h.char
        let lexeme := read.reverse ++ body.flatMap Glyph.bytes
        match gs.dropWhile fun h => sort.goesOn h.char with
        | [] => [ln.emit (sort.kind lexeme) lexeme start]
        | next :: t =>
            if endsWord next.char then
              ln.emit (sort.kind lexeme) lexeme start :: ln.run .clean (here.after body) (next :: t)
            else
              .error (ln.complainAt (here.after body) next sort.complaint) ::
                ln.run .clean ((here.after body).past next) t
  | [], here, read => by simp [run, finish_runState]
  | g :: gs, here, read => by
      cases hg : sort.goesOn g.char with
      | true =>
          rw [run_cons, step_runState, if_pos hg, List.nil_append,
            run_runState ln sort start gs (here.past g) (g.bytes.reverse ++ read)]
          simp [hg, Mark.past_eq_after]
      | false =>
          have hstep := step_runState ln here g sort start read
          rw [if_neg (by simp [hg])] at hstep
          simp only [hg, List.takeWhile_cons, List.dropWhile_cons, Bool.false_eq_true, if_false]
          by_cases hends : endsWord g.char
          · rw [if_pos hends] at hstep
            rw [run_of_redispatch hstep, if_pos hends]
            simp
          · rw [if_neg hends] at hstep
            rw [run_cons, hstep, if_neg hends]
            simp

/-- A run that was started comes to the result of its segment. -/
theorem run_ofRun (ln : Line) (sort : RunSort) (here : Mark) (g : Glyph) (rest : List Glyph)
    (hcanon : ∀ h ∈ rest, h.Canonical) :
    ∃ t, g :: rest = (Segment.ofRun sort g rest).glyphs ++ t ∧
      ln.run (runState sort here g.bytes.reverse) (here.past g) rest =
        ((Segment.ofRun sort g rest).result? ln here).toList ++
          ln.run .clean (here.after (Segment.ofRun sort g rest).glyphs) t := by
  have hsplit := List.takeWhile_append_dropWhile (p := fun h => sort.goesOn h.char) (l := rest)
  rw [run_runState]
  unfold Segment.ofRun
  cases hd : rest.dropWhile fun h => sort.goesOn h.char with
  | nil =>
      rw [hd, List.append_nil] at hsplit
      refine ⟨[], by simp [Segment.glyphs, hsplit], ?_⟩
      simp [Segment.result?, run, finish, emit, coord]
  | cons next t =>
      rw [hd] at hsplit
      have hmem : next ∈ rest := by rw [← hsplit]; simp
      simp only [endsWord_eq_endsRun (hcanon next hmem)]
      by_cases hends : endsRun next
      · refine ⟨next :: t, by simp [hends, Segment.glyphs, hsplit], ?_⟩
        simp [hends, Segment.glyphs, Segment.result?, emit, coord, Mark.past_eq_after]
      · refine ⟨t, ?_, ?_⟩
        · conv => lhs; rw [← hsplit]
          simp [hends, Segment.glyphs]
        · simp [hends, Segment.glyphs, Segment.result?, Mark.past_eq_after]

/-! ### Strings -/

/-- Inside a string the machine reads up to the next quote. -/
theorem run_string (ln : Line) (start : Mark) :
    ∀ (gs : List Glyph) (here : Mark) (read : Bytes),
      ln.run (.string start read) here gs =
        let body := gs.takeWhile fun h => h.char != '"'
        match gs.dropWhile fun h => h.char != '"' with
        | [] => ln.finish (here.after gs) (.string start read)
        | close :: t =>
            ln.emit .stringLiteral (read.reverse ++ body.flatMap Glyph.bytes) start ::
              ln.run .clean ((here.after body).past close) t
  | [], here, read => rfl
  | g :: gs, here, read => by
      by_cases hg : g.char = '"'
      · rw [run_cons, step, if_pos hg]
        simp [hg]
      · rw [run_cons, step, if_neg hg, List.nil_append,
          run_string ln start gs (here.past g) (g.bytes.reverse ++ read)]
        simp [hg, Mark.past_eq_after, finish]

/-- A quote comes to the result of its segment.  Only here, and for orphans, does
it matter where the line ends. -/
theorem run_ofQuote {ln : Line} {here : Mark} {g : Glyph} {rest : List Glyph}
    (hend : here.after (g :: rest) = Mark.start.after (glyphs ln.text))
    (hne : glyphs ln.text ≠ []) :
    ∃ t, g :: rest = (Segment.ofQuote g rest).glyphs ++ t ∧
      ln.run (.string here []) (here.past g) rest =
        ((Segment.ofQuote g rest).result? ln here).toList ++
          ln.run .clean (here.after (Segment.ofQuote g rest).glyphs) t := by
  have hsplit := List.takeWhile_append_dropWhile (p := fun h => h.char != '"') (l := rest)
  rw [run_string]
  unfold Segment.ofQuote
  cases hd : rest.dropWhile fun h => h.char != '"' with
  | nil =>
      refine ⟨[], by simp [Segment.glyphs], ?_⟩
      have heol : (here.past g).after rest = Mark.start.after (glyphs ln.text) := by
        rw [Mark.past_eq_after, Mark.after_after, List.singleton_append, hend]
      simp only [heol, finish, openAtEnd_eq ln hne]
      rfl
  | cons close t =>
      rw [hd] at hsplit
      refine ⟨t, ?_, ?_⟩
      · conv => lhs; rw [← hsplit]
        simp [Segment.glyphs]
      · simp [Segment.glyphs, Segment.result?, emit, coord, Mark.past_eq_after]

/-! ### Symbols -/

/-- The next character as the machine compares it: the symbols left are those
that go on with it. -/
theorem narrowed_symbolsFrom {a : UInt8} (ha : a < 0x80) {h : Glyph} (hh : h.Canonical) :
    (∃ b, b < 0x80 ∧ h = .single b ∧ [a, b] ∈ symbols.entries ∧
      narrowed (symbolsFrom (.single a)) 1 h.char = [[a, b]]) ∨
    ((∀ b, h = .single b → [a, b] ∉ symbols.entries) ∧
      narrowed (symbolsFrom (.single a)) 1 h.char = []) := by
  have hmem : ∀ s, s ∈ narrowed (symbolsFrom (.single a)) 1 h.char ↔
      ∃ b, b < 0x80 ∧ h = .single b ∧ [a, b] ∈ symbols.entries ∧ s = [a, b] := by
    intro s
    rw [narrowed, List.mem_filter, mem_symbolsFrom]
    constructor
    · rintro ⟨⟨hs, a', t, rfl, ha', heq⟩, hnext⟩
      obtain rfl := Glyph.single_inj heq
      simp only [Bool.and_eq_true, decide_eq_true_eq, beq_iff_eq] at hnext
      obtain ⟨b, hb, rfl⟩ := hh hnext.1
      rw [Glyph.single_char_toNat hb] at hnext
      rcases symbol_cases hs with ⟨c, hc, -⟩ | ⟨c, d, hc, -, -⟩
      · rw [hc] at hnext
        simp at hnext
      · obtain ⟨rfl, rfl⟩ := List.cons.inj hc
        obtain rfl : d = b := by simpa using hnext.2
        exact ⟨d, hb, rfl, hs, rfl⟩
    · rintro ⟨b, hb, rfl, hs, rfl⟩
      refine ⟨⟨hs, a, [b], rfl, ha, rfl⟩, ?_⟩
      rw [Glyph.single_char_toNat hb]
      have : b.toNat < 128 := by simpa [UInt8.lt_iff_toNat_lt] using hb
      simp [this]
  by_cases hex : ∃ b, b < 0x80 ∧ h = .single b ∧ [a, b] ∈ symbols.entries
  · obtain ⟨b, hb, rfl, hs⟩ := hex
    refine Or.inl ⟨b, hb, rfl, hs, ?_⟩
    -- the table has no symbol twice, so there is exactly one
    have hnodup : (narrowed (symbolsFrom (.single a)) 1 (Glyph.single b).char).Nodup :=
      (symbols_nodup.filter _).filter _
    have hall : ∀ s ∈ narrowed (symbolsFrom (.single a)) 1 (Glyph.single b).char, s = [a, b] := by
      intro s hs'
      obtain ⟨c, -, hc, -, rfl⟩ := (hmem s).mp hs'
      rw [Glyph.single_inj hc]
    have hin := (hmem [a, b]).mpr ⟨b, hb, rfl, hs, rfl⟩
    match hl : narrowed (symbolsFrom (.single a)) 1 (Glyph.single b).char with
    | [] => rw [hl] at hin; exact absurd hin List.not_mem_nil
    | [s] => rw [hall s (by rw [hl]; simp)]
    | s :: s' :: _ =>
        rw [hl] at hall hnodup
        have h1 := hall s (by simp)
        have h2 := hall s' (by simp)
        simp [h1, h2] at hnodup
  · refine Or.inr ⟨fun b hb hs => ?_, ?_⟩
    · obtain ⟨-, -, hascii⟩ := symbols_shape _ hs
      exact hex ⟨b, hascii b (by simp), hb, hs⟩
    · rw [List.eq_nil_iff_forall_not_mem]
      intro s hs
      obtain ⟨b, hb, hh', hs', -⟩ := (hmem s).mp hs
      exact hex ⟨b, hb, hh', hs'⟩

theorem one_mem_symbolsFrom {a : UInt8} (ha : a < 0x80) :
    [a] ∈ symbolsFrom (.single a) ↔ [a] ∈ symbols.entries := by
  rw [mem_symbolsFrom]
  exact ⟨fun h => h.1, fun h => ⟨h, a, [], rfl, ha, rfl⟩⟩

theorem completions_eq (ln : Line) (here : Mark) (a : UInt8) :
    ln.completions here [a] (symbolsFrom (.single a)) = ln.offers here (.single a) := by
  simp [completions, offers, span, Nat.add_assoc]

/-- The result of an orphan in front of `next`, or of the end of the line. -/
theorem badSequence_eq (ln : Line) (here : Mark) {a : UInt8} (ha : a < 0x80) (next : Glyph) :
    some (ln.badSequence here [a] (symbolsFrom (.single a)) (here.past (.single a)) next) =
      (Segment.orphan (.single a) (some next)).result? ln here := by
  have hchar : Vocabulary.firstCode [a] = ((Glyph.single a).char.toNat : Int) := by
    rw [Vocabulary.firstCode, Glyph.first_of_lt ha]
  simp [badSequence, Segment.result?, completions_eq, hchar, coord, span, Mark.past,
    Nat.add_assoc]

/-- The step behind the beginning of a symbol, if the next character completes a
symbol. -/
theorem step_symbol_two {ln : Line} {here m : Mark} {a b : UInt8}
    (hn : narrowed (symbolsFrom (.single a)) 1 (Glyph.single b).char = [[a, b]]) :
    ln.step m (.single b) (.symbol here [a] (symbolsFrom (.single a))) =
      (.clean, [ln.emit .punctuation [a, b] here]) := by
  rw [step, narrow, List.length_singleton, hn]
  simp [settle]

/-- The step behind the beginning of a symbol, if the next character does not. -/
theorem step_symbol_other {ln : Line} {here m : Mark} {a : UInt8} {h : Glyph} (ha : a < 0x80)
    (hn : narrowed (symbolsFrom (.single a)) 1 h.char = []) :
    ln.step m h (.symbol here [a] (symbolsFrom (.single a))) =
      ln.redispatch (if [a] ∈ symbols.entries then ln.emit .punctuation [a] here
        else ln.badSequence here [a] (symbolsFrom (.single a)) m h) m h := by
  rw [step, narrow, List.length_singleton, hn]
  by_cases hs : [a] ∈ symbols.entries
  · simp [one_mem_symbolsFrom ha, hs]
  · simp [one_mem_symbolsFrom ha, hs]

theorem ofSymbol_some {g : Glyph} {rest : List Glyph} {s : Bytes}
    (h : longestSymbol? (g :: rest) = some s) : Segment.ofSymbol g rest = .symbol s := by
  simp [Segment.ofSymbol, h]

theorem ofSymbol_none {g : Glyph} {rest : List Glyph} (h : longestSymbol? (g :: rest) = none)
    (hleft : symbolsFrom g ≠ []) : Segment.ofSymbol g rest = .orphan g rest.head? := by
  simp [Segment.ofSymbol, h, hleft]

/-- Behind the beginning of a symbol the machine comes to the result of its
segment. -/
theorem run_symbol {ln : Line} {here : Mark} {a : UInt8} {rest : List Glyph} (ha : a < 0x80)
    (hleft : symbolsFrom (.single a) ≠ []) (hcanon : ∀ h ∈ rest, h.Canonical)
    (hend : here.after (.single a :: rest) = Mark.start.after (glyphs ln.text))
    (hne : glyphs ln.text ≠ []) :
    ∃ t, .single a :: rest = (Segment.ofSymbol (.single a) rest).glyphs ++ t ∧
      ln.run (.symbol here [a] (symbolsFrom (.single a))) (here.past (.single a)) rest =
        ((Segment.ofSymbol (.single a) rest).result? ln here).toList ++
          ln.run .clean (here.after (Segment.ofSymbol (.single a) rest).glyphs) t := by
  cases rest with
  | nil =>
      have heol : here.past (.single a) = Mark.start.after (glyphs ln.text) := by
        rw [← hend, Mark.past_eq_after]
      rw [run, finish, heol]
      by_cases hs : [a] ∈ symbols.entries
      · rw [ofSymbol_some (longestSymbol?_one hs (by simp))]
        refine ⟨[], by simp [Segment.glyphs, glyphs_one ha], ?_⟩
        simp [one_mem_symbolsFrom ha, hs, Segment.result?, emit, coord, run, finish]
      · rw [ofSymbol_none (longestSymbol?_orphan hs (by simp)) hleft]
        refine ⟨[], rfl, ?_⟩
        simp [one_mem_symbolsFrom ha, hs, Segment.result?, completions_eq, openAtEnd_eq ln hne, run,
          finish]
  | cons h rest =>
      rcases narrowed_symbolsFrom ha (hcanon h (by simp)) with ⟨b, hb, rfl, hs, hn⟩ | ⟨hno, hn⟩
      · rw [ofSymbol_some (longestSymbol?_two hs), run_cons, step_symbol_two hn]
        refine ⟨rest, by simp [Segment.glyphs, glyphs_two ha hb], ?_⟩
        simp [Segment.result?, Segment.glyphs, glyphs_two ha hb, emit, coord, Mark.past_eq_after]
      · have hnext : ∀ b t', h :: rest = .single b :: t' → [a, b] ∉ symbols.entries :=
          fun b t' heq => hno b (List.cons.inj heq).1
        rw [run_of_redispatch (step_symbol_other ha hn)]
        by_cases hs : [a] ∈ symbols.entries
        · rw [ofSymbol_some (longestSymbol?_one hs hnext), if_pos hs]
          refine ⟨h :: rest, by simp [Segment.glyphs, glyphs_one ha], ?_⟩
          simp [Segment.result?, Segment.glyphs, glyphs_one ha, emit, coord, Mark.past_eq_after]
        · rw [ofSymbol_none (longestSymbol?_orphan hs hnext) hleft, if_neg hs, List.head?_cons,
            ← badSequence_eq ln here ha h]
          exact ⟨h :: rest, rfl, by simp [Segment.glyphs, Mark.past_eq_after]⟩

/-! ## The machine from a clean state -/

/-- At the beginning of a symbol the machine waits, unless no longer symbol is
left. -/
theorem settle_symbolsFrom (ln : Line) (here : Mark) (a : UInt8) :
    (symbolsFrom (.single a) = [[a]] ∧
      ln.settle here [a] (symbolsFrom (.single a)) = (.clean, [ln.emit .punctuation [a] here])) ∨
    ln.settle here [a] (symbolsFrom (.single a)) =
      (.symbol here [a] (symbolsFrom (.single a)), []) := by
  unfold settle
  split
  · rename_i s hs
    have hmem : s ∈ symbolsFrom (.single a) := by rw [hs]; simp
    obtain ⟨-, a', t, rfl, -, heq⟩ := mem_symbolsFrom.mp hmem
    obtain rfl := Glyph.single_inj heq
    by_cases hlen : (a :: t).length = [a].length
    · have ht : t = [] := by simpa using hlen
      subst ht
      exact Or.inl ⟨hs, by simp⟩
    · exact Or.inr (by rw [if_neg hlen, hs])
  · exact Or.inr rfl

/-- A character that is no run, string or space comes to the result of its
segment. -/
theorem run_ofSymbol {ln : Line} {here : Mark} {g : Glyph} {rest : List Glyph}
    (hcanon : ∀ h ∈ g :: rest, h.Canonical)
    (hend : here.after (g :: rest) = Mark.start.after (glyphs ln.text))
    (hne : glyphs ln.text ≠ []) (hspace : ¬ isSpace g.char = true) (hquote : ¬ g.char = '"')
    (hdigit : ¬ g.char.isDigit = true) (hword : ¬ isWordStart g.char = true) :
    ∃ t, g :: rest = (Segment.ofSymbol g rest).glyphs ++ t ∧
      ln.run .clean here (g :: rest) =
        ((Segment.ofSymbol g rest).result? ln here).toList ++
          ln.run .clean (here.after (Segment.ofSymbol g rest).glyphs) t := by
  rw [run_cons, step, dispatch, if_neg hquote, if_neg hdigit, if_neg hword, if_neg hspace,
    startingWith_eq_symbolsFrom (hcanon g (by simp))]
  cases hfrom : symbolsFrom g with
  | nil =>
      refine ⟨rest, ?_, ?_⟩
      · simp [Segment.ofSymbol, longestSymbol?_stray hfrom, hfrom, Segment.glyphs]
      · simp [Segment.ofSymbol, longestSymbol?_stray hfrom, hfrom, Segment.glyphs,
          Segment.result?, misplaced_eq, Mark.past_eq_after]
  | cons s left =>
      -- some symbol begins with the character, so it is an ASCII one
      obtain ⟨-, a, t, -, ha, rfl⟩ := mem_symbolsFrom.mp (hfrom ▸ List.mem_cons_self)
      have hleft : symbolsFrom (.single a) ≠ [] := by simp [hfrom]
      simp only [← hfrom, Glyph.single_bytes, List.reverse_singleton]
      rcases settle_symbolsFrom ln here a with ⟨honly, hsettle⟩ | hsettle
      · have hs : [a] ∈ symbols.entries := (one_mem_symbolsFrom ha).mp (by simp [honly])
        have hno : ∀ b t', rest = .single b :: t' → [a, b] ∉ symbols.entries := by
          intro b t' _ hb
          have hmem : [a, b] ∈ symbolsFrom (.single a) :=
            mem_symbolsFrom.mpr ⟨hb, a, [b], rfl, ha, rfl⟩
          simp [honly] at hmem
        rw [hsettle, ofSymbol_some (longestSymbol?_one hs hno)]
        refine ⟨rest, by simp [Segment.glyphs, glyphs_one ha], ?_⟩
        simp [Segment.result?, Segment.glyphs, glyphs_one ha, emit, coord, Mark.past_eq_after]
      · rw [hsettle, List.nil_append]
        exact run_symbol ha hleft (fun h hh => hcanon h (List.mem_cons_of_mem _ hh)) hend hne

/-- White space starts nothing else. -/
theorem isSpace_disjoint {c : Char} (h : isSpace c = true) :
    c ≠ '"' ∧ c.isDigit = false ∧ isWordStart c = false := by
  simp only [isSpace, Bool.or_eq_true, decide_eq_true_eq] at h
  rcases h with (((rfl | rfl) | rfl) | rfl) | rfl <;> decide

/-- From a clean state the machine delivers the result of the first segment, and
is clean again behind it. -/
theorem run_clean_cons {ln : Line} (here : Mark) {g : Glyph} {rest : List Glyph}
    (hcanon : ∀ h ∈ g :: rest, h.Canonical)
    (hend : here.after (g :: rest) = Mark.start.after (glyphs ln.text))
    (hne : glyphs ln.text ≠ []) :
    ∃ t, g :: rest = (Segment.first g rest).glyphs ++ t ∧
      ln.run .clean here (g :: rest) =
        ((Segment.first g rest).result? ln here).toList ++
          ln.run .clean (here.after (Segment.first g rest).glyphs) t := by
  have hrest : ∀ h ∈ rest, h.Canonical := fun h hh => hcanon h (List.mem_cons_of_mem _ hh)
  unfold Segment.first
  by_cases hspace : isSpace g.char = true
  · obtain ⟨hquote, hdigit, hword⟩ := isSpace_disjoint hspace
    rw [if_pos hspace, run_cons, step]
    exact ⟨rest, rfl, by
      simp [dispatch, hquote, hdigit, hword, hspace, Segment.result?, Segment.glyphs,
        Mark.past_eq_after]⟩
  rw [if_neg hspace]
  by_cases hquote : g.char = '"'
  · rw [if_pos hquote, run_cons, step, dispatch, if_pos hquote]
    exact run_ofQuote hend hne
  rw [if_neg hquote]
  by_cases hdigit : g.char.isDigit = true
  · rw [if_pos hdigit, run_cons, step, dispatch, if_neg hquote, if_pos hdigit]
    exact run_ofRun ln .number here g rest hrest
  rw [if_neg hdigit]
  by_cases hword : isWordStart g.char = true
  · rw [if_pos hword, run_cons, step, dispatch, if_neg hquote, if_neg hdigit, if_pos hword]
    exact run_ofRun ln .word here g rest hrest
  rw [if_neg hword]
  exact run_ofSymbol hcanon hend hne hspace hquote hdigit hword

/-- From a clean state the machine delivers the results of the segments ahead.
The characters behind it only say where the line ends. -/
theorem run_clean (ln : Line) (gs : List Glyph) : ∀ (behind : List Glyph),
    glyphs ln.text = behind ++ gs →
    ln.run .clean (Mark.start.after behind) gs =
      ln.resultsFrom (Mark.start.after behind) (segments gs) := by
  induction gs using segments_induction with
  | nil =>
      intro behind _
      simp [segments, resultsFrom, run, finish]
  | cons g rest t hcut hfits ih =>
      intro behind hsplit
      have hcanon : ∀ h ∈ g :: rest, h.Canonical := fun h hh =>
        canonical_of_mem_glyphs (s := ln.text) (by
          rw [hsplit]
          exact List.mem_append_right _ hh)
      obtain ⟨t', hcut', hrun⟩ := run_clean_cons (Mark.start.after behind) hcanon
        (by rw [Mark.after_after, hsplit]) (by rw [hsplit]; simp)
      obtain rfl : t' = t := List.append_cancel_left (hcut'.symm.trans hcut)
      rw [hrun, segments_cons hcut, resultsFrom, Mark.after_after]
      rw [ih (behind ++ (Segment.first g rest).glyphs) (by rw [hsplit, hcut, List.append_assoc])]

/-- The machine, started on a line, delivers the results of its segments. -/
theorem scan_eq_resultsFrom (ln : Line) :
    ln.scan = ln.resultsFrom .start (segments (glyphs ln.text)) :=
  ln.run_clean (glyphs ln.text) [] rfl

/-- **The scanner delivers the longest match**: the results of a line, whatever
bytes it has, are those of its segments. -/
theorem scan_eq_longestMatch (ln : Line) : ln.scan = ln.longestMatch := ln.scan_eq_resultsFrom

end Line

end LineLexer
