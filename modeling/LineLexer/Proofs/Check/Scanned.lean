/-
# `Proofs.Check.Scanned` — scanned tokens pass the checks

The two checks walk over a buffer on their own: `Check.violation?` looks each
token up at its coordinate, and `Check.coverage` marks the cells of each line.
Both are satisfied by what a scanner delivers (`Check.scanned_tokens_pass`).

A token that is spelled by characters of its line (`Token.SpelledBy`) is found
where it says, and marks exactly these characters.  Together with the order of
the results this is the first check.  For the second one, a character of a line
without errors is in a segment that is white or has a token.
-/
import LineLexer.Check.Coverage
import LineLexer.Proofs.Scan.Endless
import LineLexer.Proofs.Scan.Place

namespace LineLexer.Check

/-! ## One token -/

section

variable {f : File} {l : Line} {t : Token} {before body behind : List Glyph}

/-- The check finds a token where it is spelled. -/
theorem textAt?_spelled (h : t.SpelledBy l before body behind) :
    textAt? (glyphs l.text) t.coord.column t.source.length = some t.source := by
  have hsize : ∀ g ∈ body, 0 < g.size := fun g hg =>
    size_pos_of_mem_glyphs (s := l.text) (by
      rw [h.split]
      exact List.mem_append_right _ (List.mem_append_left _ hg))
  have hle := length_le_flatMap_bytes hsize
  have hdrop : (glyphs l.text).drop (t.coord.column - 1) = body ++ behind := by
    rw [h.split, h.coord_eq, Nat.add_sub_cancel, List.drop_left]
  have htake : (((body ++ behind).take t.source.length).flatMap Glyph.bytes).take t.source.length
      = t.source := by
    rw [h.source_eq, List.take_append, List.take_of_length_le hle, List.flatMap_append,
      List.take_left]
  rw [textAt?, hdrop]
  split
  · rename_i hnil
    exact absurd (List.append_eq_nil_iff.mp hnil).1 h.body_ne
  · rw [htake]

theorem kindViolation?_classified (h : t.Classified) (index : Nat) :
    kindViolation? index t = none := by
  unfold kindViolation?
  split
  · rename_i hkind
    have hword := h.word (Or.inr hkind)
    rw [hkind, Kind.ofWord] at hword
    split at hword
    · cases hword
    · rename_i hkey
      rw [if_neg hkey]
  · rename_i hkind
    have hword := h.word (Or.inl hkind)
    rw [hkind, Kind.ofWord] at hword
    split at hword
    · rename_i hkey
      rw [if_pos hkey]
    · cases hword
  · rename_i hkind
    rw [if_pos (contains_symbols_iff.mpr (h.punctuation hkind))]
  · rfl

theorem getElem?_linesOf (hl : l ∈ f.lines) :
    (Lines.of f)[l.num - 1]?.getD [] = glyphs l.text := by
  rw [Lines.of, List.getElem?_toArray, List.getElem?_map, File.getElem?_lines hl]
  rfl

/-- A token of a line, with its coordinate behind the previous one, passes. -/
theorem tokenViolation?_spelled (hl : l ∈ f.lines) (h : t.SpelledBy l before body behind)
    (hclass : t.Classified) (index : Nat) {prev : Option Coord}
    (hprev : ∀ c, prev = some c → c.before t.coord = true) :
    tokenViolation? (.of f) index prev t = none := by
  obtain ⟨-, pre, post, hstands⟩ := File.standsIn_of_mem_lines hl
  have hpos := hstands.num_pos
  have hle := hstands.num_le_lineCount
  have hsize : (Lines.of f).size = f.lineCount := by simp [Lines.of, f.length_lines]
  have hlexeme : ¬ (t.lexeme.isEmpty && t.kind != .stringLiteral) = true := by
    intro hbad
    simp only [Bool.and_eq_true, List.isEmpty_iff, bne_iff_ne] at hbad
    exact hclass.lexeme_ne hbad.2 hbad.1
  have hrange : ¬ (t.coord.line == 0 || t.coord.column == 0 ||
      decide ((Lines.of f).size < t.coord.line)) = true := by
    rw [h.coord_eq, hsize]
    simp only [Bool.or_eq_true, beq_iff_eq, decide_eq_true_eq]
    omega
  have hplace : placeViolation? ((Lines.of f)[t.coord.line - 1]?.getD []) index t = none := by
    have hline : t.coord.line = l.num := by rw [h.coord_eq]
    rw [placeViolation?, hline, getElem?_linesOf hl, textAt?_spelled h]
    simp only [if_true]
    exact kindViolation?_classified hclass index
  unfold tokenViolation?
  dsimp only
  rw [if_neg (by simp [hclass.valid]), if_neg hlexeme, if_neg hrange]
  cases prev with
  | none => exact hplace
  | some c =>
      dsimp only
      rw [if_pos (hprev c rfl), hplace]

/-- A token marks the cells of the characters that spell it. -/
theorem ofToken_spelled (h : t.SpelledBy l before body behind) :
    Cells.ofToken t = ⟨before.length, body.length⟩ := by
  have hbody := glyphs_between (h.split.trans (List.append_assoc _ _ _).symm)
  rw [Cells.ofToken, h.coord_eq, h.source_eq, Bytes.charCount, hbody, Nat.add_sub_cancel]

end

/-! ## All tokens -/

/-- Every token of a buffer is spelled by characters of one of its lines. -/
theorem exists_spelled {f : File} {t : Token} (h : .token t ∈ f.results) :
    ∃ l ∈ f.lines, .token t ∈ l.scan ∧ t.Classified ∧
      ∃ before body behind, t.SpelledBy l before body behind := by
  obtain ⟨l, hl, before, s, behind, hcut, hr⟩ := File.exists_cut h
  obtain ⟨hspelled, hclass⟩ := hcut.spelledBy hr
  exact ⟨l, hl, Line.mem_scan.mpr ⟨before, s, behind, hcut, hr⟩, hclass, before, s.glyphs, behind,
    hspelled⟩

theorem tokens_ordered (f : File) :
    f.tokens.Pairwise fun a b => a.coord.before b.coord = true := by
  refine List.Pairwise.filterMap _ ?_ f.results_ordered
  intro r r' hbefore t ht t' ht'
  cases r <;> cases ht
  cases r' <;> cases ht'
  exact hbefore

/-- Tokens in order that all come from the buffer pass, one after the other. -/
theorem violationFrom?_eq_none {f : File} : ∀ (ts : List Token) (index : Nat)
    (prev : Option Coord), (∀ t ∈ ts, .token t ∈ f.results) →
    ts.Pairwise (fun a b => a.coord.before b.coord = true) →
    (∀ c, prev = some c → ∀ t ∈ ts, c.before t.coord = true) →
    violationFrom? (.of f) index prev ts = none
  | [], _, _, _, _, _ => rfl
  | t :: ts, index, prev, hmem, hpair, hprev => by
      obtain ⟨l, hl, -, hclass, before, body, behind, hspelled⟩ :=
        exists_spelled (hmem t List.mem_cons_self)
      have htoken := tokenViolation?_spelled hl hspelled hclass index
        fun c hc => hprev c hc t List.mem_cons_self
      obtain ⟨hhead, htail⟩ := List.pairwise_cons.mp hpair
      rw [violationFrom?, htoken]
      refine violationFrom?_eq_none ts (index + 1) (some t.coord)
        (fun t' ht' => hmem t' (List.mem_cons_of_mem t ht')) htail ?_
      intro c hc t' ht'
      cases hc
      exact hhead t' ht'

theorem violation?_eq_none {f : File} {ts : List Token} : violation? (some f) ts = none ↔
    f.lineCount < wordLimit ∧ violationFrom? (.of f) 0 none ts = none := by
  rw [violation?]
  split
  · exact (and_iff_right ‹_›).symm
  · rename_i hmany
    exact ⟨fun h => absurd h (Option.some_ne_none _), fun h => absurd h.1 hmany⟩

/-- The tokens of a buffer pass the first check. -/
theorem violation?_tokens {f : File} (h : f.Scannable) : violation? (some f) f.tokens = none := by
  have hlimit : wordLimit = 0x100000000 := rfl
  have hcount := h.2
  refine violation?_eq_none.mpr ⟨by omega, ?_⟩
  exact violationFrom?_eq_none f.tokens 0 none (fun _ => File.mem_tokens.mp) (tokens_ordered f)
    (fun _ hc => absurd hc (by simp))

/-! ## Coverage -/

/-- There is no gap if every cell is white or marked. -/
theorem gap?_eq_none {marked : List Cells} : ∀ {gs : List Glyph} {cell : Nat},
    (∀ i g, gs[i]? = some g →
      isSpace g.char = true ∨ ∃ r ∈ marked, r.contains (cell + i) = true) →
    gap? marked cell gs = none
  | [], _, _ => rfl
  | g :: gs, cell, h => by
      have hhead : (marked.any (·.contains cell) || isSpace g.char) = true := by
        rcases h 0 g rfl with hspace | ⟨r, hr, hcell⟩
        · rw [hspace, Bool.or_true]
        · rw [List.any_eq_true.mpr ⟨r, hr, hcell⟩, Bool.true_or]
      rw [gap?, if_pos hhead]
      refine gap?_eq_none fun i g' hg' => ?_
      have := h (i + 1) g' hg'
      rwa [Nat.add_assoc, Nat.add_comm 1 i]

/-- A character of a line without errors is white or belongs to a token. -/
theorem white_or_marked {l : Line} (hclean : ∀ e, .error e ∉ l.scan) {i : Nat} {g : Glyph}
    (h : (glyphs l.text)[i]? = some g) :
    isSpace g.char = true ∨ ∃ t, .token t ∈ l.scan ∧ (Cells.ofToken t).contains i = true := by
  obtain ⟨hi, -⟩ := List.getElem?_eq_some_iff.mp h
  obtain ⟨before, s, behind, hcut, hle, hlt⟩ := Line.exists_cut hi
  cases hr : s.result? l (Mark.start.after before) with
  | none =>
      obtain ⟨b, rfl⟩ := Segment.result?_eq_none hr
      obtain rfl : i = before.length := by
        simp only [Segment.glyphs, List.length_singleton] at hlt
        omega
      have hb : (glyphs l.text)[before.length]? = some b := by
        rw [hcut.split, List.getElem?_append_right (Nat.le_refl _), Nat.sub_self]
        rfl
      obtain rfl : b = g := Option.some.inj (hb.symm.trans h)
      exact Or.inl hcut.fits
  | some r =>
      have hmem : r ∈ l.scan := Line.mem_scan.mpr ⟨before, s, behind, hcut, hr⟩
      cases r with
      | token t =>
          refine Or.inr ⟨t, hmem, ?_⟩
          rw [ofToken_spelled (hcut.spelledBy hr).1, Cells.contains]
          simp [hle, hlt]
      | error e => exact absurd hmem (hclean e)

/-- The tokens of a line are those of the buffer with its number. -/
theorem mem_tokens_line {f : File} {l : Line} (hl : l ∈ f.lines) {t : Token} :
    (t ∈ f.tokens ∧ t.coord.line = l.num) ↔ .token t ∈ l.scan := by
  rw [File.mem_tokens]
  constructor
  · rintro ⟨hmem, hline⟩
    obtain ⟨l', hl', hscan, -, before, body, behind, hspelled⟩ := exists_spelled hmem
    obtain rfl : l' = l := File.eq_of_num_eq hl' hl (by rw [← hline, hspelled.coord_eq])
    exact hscan
  · exact fun h => ⟨List.mem_flatMap.mpr ⟨l, hl, h⟩, Line.coord_line_of_mem_scan h⟩

theorem lineCoverage_eq_complete {f : File} {l : Line} (hl : l ∈ f.lines)
    (hclean : ∀ e, .error e ∉ l.scan) : lineCoverage f.tokens l = .complete := by
  have hmarked : ∀ r, r ∈ (f.tokens.filter fun t => t.coord.line = l.num).map Cells.ofToken ↔
      ∃ t, .token t ∈ l.scan ∧ Cells.ofToken t = r := by
    intro r
    simp only [List.mem_map, List.mem_filter, decide_eq_true_eq, mem_tokens_line hl]
  have hinside : ∀ r ∈ (f.tokens.filter fun t => t.coord.line = l.num).map Cells.ofToken,
      r.stayInside (glyphs l.text).length = true := by
    intro r hr
    obtain ⟨t, ht, rfl⟩ := (hmarked r).mp hr
    obtain ⟨before, s, behind, hcut, hres⟩ := Line.mem_scan.mp ht
    have hlen := congrArg List.length hcut.split
    simp only [List.length_append] at hlen
    rw [ofToken_spelled (hcut.spelledBy hres).1, Cells.stayInside]
    simp only [Bool.or_eq_true, beq_iff_eq, decide_eq_true_eq]
    omega
  have hgap : gap? ((f.tokens.filter fun t => t.coord.line = l.num).map Cells.ofToken) 0
      (glyphs l.text) = none := by
    refine gap?_eq_none fun i g hg => (white_or_marked hclean hg).imp id ?_
    rintro ⟨t, ht, hcell⟩
    exact ⟨_, (hmarked _).mpr ⟨t, ht, rfl⟩, by rwa [Nat.zero_add]⟩
  unfold lineCoverage
  dsimp only
  rw [List.all_eq_true.mpr hinside, hgap]
  rfl

theorem linesCoverage_eq_complete {ts : List Token} : ∀ {ls : List Line},
    (∀ l ∈ ls, lineCoverage ts l = .complete) → linesCoverage ts ls = .complete
  | [], _ => rfl
  | l :: ls, h => by
      rw [linesCoverage, h l List.mem_cons_self]
      exact linesCoverage_eq_complete fun l' hl' => h l' (List.mem_cons_of_mem l hl')

theorem coverage_tokens {f : File} (h : f.Scannable) (hclean : f.errors = []) :
    coverage (some f) f.tokens = .complete := by
  unfold coverage
  rw [violation?_tokens h]
  dsimp only
  refine linesCoverage_eq_complete fun l hl => lineCoverage_eq_complete hl fun e he => ?_
  have hmem : e ∈ f.errors := File.mem_errors.mpr (List.mem_flatMap.mpr ⟨l, hl, he⟩)
  rw [hclean] at hmem
  exact List.not_mem_nil hmem

/-- **Scanned tokens pass the checks**: for every content, under whatever name it
is added to whatever set of buffers, the tokens of a drained scanner fit the
buffer, and if the scan had no errors they leave nothing but white space.  A
scanner can be drained if the lines of its buffer can be counted, and not
otherwise. -/
theorem scanned_tokens_pass (fs fs' : FileSet) (name content : Bytes) (flags : UInt8)
    (hadd : fs.add? name content flags = some fs') (level : Trace.Level) :
    ∃ f, fs'.get? fs.nextId = some f ∧
      ((∃ drained, (Scanner.new f level).drain = some drained) ↔ f.Scannable) ∧
      ∀ results s signals, (Scanner.new f level).drain = some (results, s, signals) →
        let tokens := results.filterMap Result.token?
        violation? (some f) tokens = none ∧
          (results.filterMap Result.error? = [] → coverage (some f) tokens = .complete) := by
  obtain ⟨rfl, -⟩ := FileSet.add?_eq_some.mp hadd
  refine ⟨_, fs.get?_add name content flags, Scanner.exists_drain_iff _ level, ?_⟩
  intro results s signals hdrain tokens
  obtain ⟨hscannable, rfl, -⟩ := Scanner.drain_eq_some hdrain
  exact ⟨violation?_tokens hscannable, coverage_tokens hscannable⟩

theorem scanned_tokens_pass_comparison :
    let f := File.store 0 (utf8 "a") (utf8 "i<= 1\n") 0
    ∃ results s signals, (Scanner.new f .off).drain = some (results, s, signals) ∧
      results.filterMap Result.error? = [] ∧
      coverage (some f) (results.filterMap Result.token?) = .complete := by
  intro f
  have hadd : FileSet.empty.add? (utf8 "a") (utf8 "i<= 1\n") 0 = some ⟨#[f]⟩ :=
    FileSet.add?_eq_some.mpr ⟨rfl, by decide, by decide⟩
  obtain ⟨f', hf', hends, hpass⟩ := scanned_tokens_pass .empty _ _ _ _ hadd .off
  obtain rfl : f = f' := Option.some.inj hf'
  obtain ⟨⟨results, s, signals⟩, hdrain⟩ := hends.mpr (by decide)
  obtain ⟨-, hresults, -⟩ := Scanner.drain_eq_some hdrain
  have hclean : results.filterMap Result.error? = [] := by
    rw [hresults]
    decide
  exact ⟨results, s, signals, hdrain, hclean, (hpass results s signals hdrain).2 hclean⟩

end LineLexer.Check
