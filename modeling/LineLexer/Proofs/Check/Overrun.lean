/-
# `Proofs.Check.Overrun` — tokens that take more cells than there are

The check of the tokens looks for the text of a token byte by byte, the check of the
coverage marks a cell for each of its characters.  The two do not always count alike: a
text that ends inside a character is found in the line, and each byte of the cut-off
character is then counted as a character of its own.

So the second check is left without a cell if such a text ends `n` bytes behind the
beginning of a character and the line has fewer than `n` characters from there on
(`Token.CutsOff`), and in no other case (`Check.coverage_overrun_iff`).  Tokens of words
and numbers may do this, because nothing is asked of their lexemes but that they are
found; no token with a well-formed lexeme does.
-/
import LineLexer.Proofs.Check.Scanned
import LineLexer.Proofs.Text.Encoding

namespace LineLexer

/-! ## Where a text ends -/

/-- A beginning of a text ends inside one of its characters, perhaps at its very
beginning, or at the end of the text. -/
theorem exists_cut_of_prefix {gs : List Glyph} {s : Bytes} (h : s <+: gs.flatMap Glyph.bytes) :
    s = gs.flatMap Glyph.bytes ∨
      ∃ body g behind n, gs = body ++ g :: behind ∧ n < g.size ∧
        s = body.flatMap Glyph.bytes ++ g.bytes.take n := by
  by_cases hlt : s.length < (gs.flatMap Glyph.bytes).length
  · obtain ⟨body, g, behind, rfl, hle, hinside⟩ := exists_piece_of_lt_length_flatMap hlt
    have hn : s.length - (body.flatMap Glyph.bytes).length < g.bytes.length := by omega
    refine Or.inr ⟨body, g, behind, s.length - (body.flatMap Glyph.bytes).length, rfl, hn, ?_⟩
    conv => lhs; rw [List.prefix_iff_eq_take.mp h]
    rw [List.flatMap_append, List.flatMap_cons, List.take_append, List.take_of_length_le hle,
      List.take_append_of_le_length (Nat.le_of_lt hn)]
  · exact Or.inl (h.eq_of_length (Nat.le_antisymm h.length_le (Nat.le_of_not_lt hlt)))

/-- A text that ends inside a character of a longer one is not well-formed. -/
theorem isUtf8_cut {s : Bytes} {body behind : List Glyph} {g : Glyph} {n : Nat}
    (h : glyphs s = body ++ g :: behind) (hpos : 0 < n) (hn : n < g.size) :
    Bytes.isUtf8 (body.flatMap Glyph.bytes ++ g.bytes.take n) = false := by
  have hg : g ∈ glyphs s := by
    rw [h]
    simp
  refine Bool.eq_false_iff.mpr ?_
  intro hutf8
  -- read by itself it has at least one character more than stand before the cut-off one
  have hcount := Bytes.charCount_append_take (p := body.flatMap Glyph.bytes) hg hn
  rw [Bytes.charCount, Bytes.charCount, glyphs_before h] at hcount
  -- and these are the next characters of the longer text
  have hapart := Bytes.readApart_of_isUtf8 hutf8 (g.bytes.drop n ++ behind.flatMap Glyph.bytes)
  have hwhole : body.flatMap Glyph.bytes ++ g.bytes.take n ++
      (g.bytes.drop n ++ behind.flatMap Glyph.bytes) = s := by
    conv => rhs; rw [Bytes.eq_append_of_glyphs h, List.flatMap_cons]
    rw [List.append_assoc, ← List.append_assoc (g.bytes.take n), List.take_append_drop]
  rw [Bytes.ReadApart, hwhole, h] at hapart
  have hfront : body ++ [g] <+: glyphs (body.flatMap Glyph.bytes ++ g.bytes.take n) := by
    have hnext : body ++ [g] <+: body ++ g :: behind := ⟨behind, by simp⟩
    refine List.prefix_of_prefix_length_le hnext ⟨_, hapart.symm⟩ ?_
    rw [List.length_append, List.length_singleton, hcount]
    omega
  obtain ⟨more, hmore⟩ := hfront
  have hlen := congrArg (fun gs => (gs.flatMap Glyph.bytes).length) hmore
  simp only [flatMap_bytes_glyphs, List.flatMap_append, List.flatMap_singleton, List.length_append,
    List.length_take] at hlen
  have hsize : g.bytes.length = g.size := rfl
  omega

/-- The text of the token stands in the line at its column, and ends inside a character,
`n` bytes behind its beginning, with fewer than `n` characters from there to the end of
the line. -/
def Token.CutsOff (t : Token) (l : Line) : Prop :=
  ∃ before body g behind n,
    glyphs l.text = before ++ body ++ g :: behind ∧ t.coord.column = before.length + 1 ∧
      t.source = body.flatMap Glyph.bytes ++ g.bytes.take n ∧ n < g.size ∧ behind.length + 1 < n

namespace Check

/-! ## Tokens that pass the first check -/

theorem keywords_ascii : ∀ s ∈ keywords.entries, ∀ b ∈ s, b < 0x80 := by
  decide +kernel

/-- What the first check has seen of a token in the line with its number. -/
structure Passed (f : File) (t : Token) (l : Line) : Prop where
  mem : l ∈ f.lines
  num_eq : l.num = t.coord.line
  column_pos : 0 < t.coord.column
  valid : t.kind.isValid = true
  text_eq : textAt? (glyphs l.text) t.coord.column t.source.length = some t.source
  kind_eq : ∃ index, kindViolation? index t = none

theorem passed_of_tokenViolation? {f : File} {index : Nat} {before : Option Coord} {t : Token}
    (h : tokenViolation? (.of f) index before t = none) : ∃ l, Passed f t l := by
  have hsize : (Lines.of f).size = f.lineCount := by simp [Lines.of, f.length_lines]
  unfold tokenViolation? at h
  dsimp only at h
  split at h
  · cases h
  rename_i hvalid
  split at h
  · cases h
  split at h
  · cases h
  rename_i hrange
  simp only [hsize, Bool.or_eq_true, beq_iff_eq, decide_eq_true_eq, not_or, Nat.not_lt] at hrange
  obtain ⟨⟨hline, hcolumn⟩, hcount⟩ := hrange
  have hmem : f.lineAt t.coord.line ∈ f.lines := by
    rw [File.lines_eq_map]
    refine List.mem_map_of_mem (List.mem_range'_1.mpr ?_)
    omega
  have hplace : placeViolation? (glyphs (f.lineAt t.coord.line).text) index t = none := by
    rw [← getElem?_linesOf hmem]
    split at h
    · split at h
      · exact h
      · cases h
    · exact h
  unfold placeViolation? at hplace
  split at hplace
  · cases hplace
  rename_i found hfound
  split at hplace
  · rename_i heq
    rw [heq] at hfound
    exact ⟨_, hmem, rfl, Nat.pos_of_ne_zero hcolumn, by simpa using hvalid, hfound, index, hplace⟩
  · cases hplace

theorem passed_of_violationFrom? {f : File} (ts : List Token) : ∀ (index : Nat)
    (before : Option Coord), violationFrom? (.of f) index before ts = none →
      ∀ t ∈ ts, ∃ l, Passed f t l := by
  induction ts with
  | nil =>
      intro index before _ t ht
      exact absurd ht List.not_mem_nil
  | cons t ts ih =>
      intro index before h t' ht'
      rw [violationFrom?] at h
      split at h
      · cases h
      · rename_i hfirst
        rcases List.mem_cons.mp ht' with rfl | ht'
        · exact passed_of_tokenViolation? hfirst
        · exact ih (index + 1) (some t.coord) h t' ht'

/-- A text that is found in a line begins with a character of it. -/
theorem textAt?_eq_some {gs : List Glyph} {column : Nat} {s : Bytes}
    (h : textAt? gs column s.length = some s) :
    ∃ before ms, gs = before ++ ms ∧ before.length = column - 1 ∧ s <+: ms.flatMap Glyph.bytes := by
  unfold textAt? at h
  split at h
  · cases h
  · rename_i hsome
    have hlt : column - 1 < gs.length :=
      Nat.lt_of_not_le fun hle => hsome (List.drop_of_length_le hle)
    refine ⟨gs.take (column - 1), gs.drop (column - 1), (List.take_append_drop ..).symm,
      List.length_take_of_le (Nat.le_of_lt hlt), ?_⟩
    have hfront : s <+: ((gs.drop (column - 1)).take s.length).flatMap Glyph.bytes := by
      conv => lhs; rw [← Option.some.inj h]
      exact List.take_prefix ..
    obtain ⟨rest, hrest⟩ := List.take_prefix s.length (gs.drop (column - 1))
    refine hfront.trans ⟨rest.flatMap Glyph.bytes, ?_⟩
    rw [← List.flatMap_append, hrest]

section Cells

variable {f : File} {l : Line} {t : Token} {before body behind : List Glyph} {g : Glyph} {n : Nat}

/-- A text that ends inside a character takes a cell for each byte of it. -/
theorem stayInside_cut (hsplit : glyphs l.text = before ++ body ++ g :: behind)
    (hcolumn : t.coord.column = before.length + 1)
    (hsource : t.source = body.flatMap Glyph.bytes ++ g.bytes.take n) (hn : n < g.size) :
    (Cells.ofToken t).stayInside l.text.charCount = true ↔ n ≤ behind.length + 1 := by
  have hg : g ∈ glyphs l.text := by
    rw [hsplit]
    simp
  have hcount : t.source.charCount = body.length + n := by
    rw [hsource, Bytes.charCount_append_take hg hn, Bytes.charCount, glyphs_between hsplit]
  have hline := congrArg List.length hsplit
  simp only [List.length_append, List.length_cons] at hline
  rw [Cells.ofToken, Cells.stayInside, hcount, hcolumn, Bytes.charCount, hline]
  simp only [Bool.or_eq_true, beq_iff_eq, decide_eq_true_eq]
  omega

theorem stayInside_whole (hsplit : glyphs l.text = before ++ body)
    (hcolumn : t.coord.column = before.length + 1)
    (hsource : t.source = body.flatMap Glyph.bytes) :
    (Cells.ofToken t).stayInside l.text.charCount = true := by
  have hcount : t.source.charCount = body.length := by
    rw [hsource, Bytes.charCount, glyphs_behind hsplit]
  have hline := congrArg List.length hsplit
  simp only [List.length_append] at hline
  rw [Cells.ofToken, Cells.stayInside, hcount, hcolumn, Bytes.charCount, hline]
  simp only [Bool.or_eq_true, beq_iff_eq, decide_eq_true_eq]
  omega

/-- A token that passed the first check takes cells of its line only, unless it is cut
off. -/
theorem Passed.stayInside_iff (h : Passed f t l) :
    (Cells.ofToken t).stayInside l.text.charCount = true ↔ ¬ t.CutsOff l := by
  constructor
  · rintro hinside ⟨before, body, g, behind, n, hsplit, hcolumn, hsource, hn, hfew⟩
    have hle := (stayInside_cut hsplit hcolumn hsource hn).mp hinside
    omega
  · intro hcut
    obtain ⟨before, ms, hsplit, hlen, hprefix⟩ := textAt?_eq_some h.text_eq
    have hpos := h.column_pos
    have hcolumn : t.coord.column = before.length + 1 := by omega
    rcases exists_cut_of_prefix hprefix with hwhole | ⟨body, g, behind, n, rfl, hn, hsource⟩
    · exact stayInside_whole hsplit hcolumn hwhole
    · rw [← List.append_assoc] at hsplit
      refine (stayInside_cut hsplit hcolumn hsource hn).mpr (Nat.le_of_not_lt ?_)
      intro hfew
      exact hcut ⟨before, body, g, behind, n, hsplit, hcolumn, hsource, hn, hfew⟩

/-- The last byte of a text that is cut off is inside a character, so it is not ASCII. -/
theorem exists_last_of_cutsOff (hcut : t.CutsOff l) : ∃ p b, t.source = p ++ [b] ∧ ¬ b < 0x80 := by
  obtain ⟨before, body, g, behind, n, hsplit, -, hsource, hn, hfew⟩ := hcut
  have hg : g ∈ glyphs l.text := by
    rw [hsplit]
    simp
  have hne : g.bytes.take n ≠ [] := by
    have hlen : (g.bytes.take n).length = n := List.length_take_of_le (Nat.le_of_lt hn)
    exact List.ne_nil_of_length_pos (by omega)
  refine ⟨body.flatMap Glyph.bytes ++ (g.bytes.take n).dropLast, (g.bytes.take n).getLast hne,
    ?_, ?_⟩
  · rw [hsource, List.append_assoc, List.dropLast_concat_getLast]
  · refine (Glyph.bytes_of_one_lt_size hg (by omega)).2 _ ?_
    exact List.mem_of_mem_take (List.getLast_mem hne)

/-- Keywords, symbols and strings end in ASCII. -/
theorem Passed.kind_of_last (h : Passed f t l) {p : Bytes} {b : UInt8}
    (hlast : t.source = p ++ [b]) (hb : ¬ b < 0x80) :
    t.kind = .identifier ∨ t.kind = .intLiteral := by
  obtain ⟨index, hfits⟩ := h.kind_eq
  have hvalid := h.valid
  have hmem : t.kind ≠ .stringLiteral → b ∈ t.lexeme := by
    intro hkind
    rw [Token.source, if_neg hkind] at hlast
    rw [hlast]
    simp
  cases hk : t.kind with
  | identifier => exact Or.inl rfl
  | intLiteral => exact Or.inr rfl
  | unknown code =>
      rw [hk] at hvalid
      cases hvalid
  | stringLiteral =>
      rw [Token.source, if_pos hk] at hlast
      obtain rfl : (0x22 : UInt8) = b := (List.cons.inj (List.append_inj_right' hlast rfl)).1
      exact absurd (by decide) hb
  | keyword =>
      have hword : t.lexeme ∈ keywords.entries := by
        simpa [kindViolation?, hk, isKeyword_iff] using hfits
      exact absurd (keywords_ascii t.lexeme hword b (hmem (by simp [hk]))) hb
  | punctuation =>
      have hsymbol : t.lexeme ∈ symbols.entries := by
        simpa [kindViolation?, hk, contains_symbols_iff] using hfits
      exact absurd ((symbols_shape t.lexeme hsymbol).2.2 b (hmem (by simp [hk]))) hb

/-- Only words and numbers are cut off, and only if their lexemes are broken. -/
theorem Passed.kind_of_cutsOff (h : Passed f t l) (hcut : t.CutsOff l) :
    (t.kind = .identifier ∨ t.kind = .intLiteral) ∧ t.lexeme.isUtf8 = false := by
  obtain ⟨p, b, hlast, hb⟩ := exists_last_of_cutsOff hcut
  have hkind := h.kind_of_last hlast hb
  have hlexeme : t.source = t.lexeme := by
    rw [Token.source, if_neg]
    rcases hkind with hk | hk <;> rw [hk] <;> decide
  obtain ⟨before, body, g, behind, n, hsplit, -, hsource, hn, hfew⟩ := hcut
  refine ⟨hkind, ?_⟩
  rw [← hlexeme, hsource]
  exact isUtf8_cut (glyphs_behind (hsplit.trans (List.append_assoc ..))) (by omega) hn

end Cells

/-! ## The check of a line and of all lines -/

theorem lineCoverage_eq_overrun {ts : List Token} {l : Line} {n : Nat} :
    lineCoverage ts l = .overrun n ↔
      l.num = n ∧ ∃ t ∈ ts, t.coord.line = n ∧
        (Cells.ofToken t).stayInside l.text.charCount = false := by
  unfold lineCoverage
  dsimp only
  split
  · rename_i hover
    obtain ⟨t, ht, hline, hout⟩ : ∃ t, t ∈ ts ∧ t.coord.line = l.num ∧
        (Cells.ofToken t).stayInside (glyphs l.text).length = false := by
      simpa using hover
    constructor
    · intro h
      cases h
      exact ⟨rfl, t, ht, hline, hout⟩
    · rintro ⟨rfl, -⟩
      rfl
  · rename_i hinside
    have hall : ∀ t ∈ ts, t.coord.line = l.num →
        (Cells.ofToken t).stayInside (glyphs l.text).length = true := by
      simpa using hinside
    constructor
    · intro h
      split at h <;> cases h
    · rintro ⟨rfl, t, ht, hline, hout⟩
      have hin := hall t ht hline
      rw [Bytes.charCount, hin] at hout
      cases hout

/-- The first line that is not complete decides. -/
theorem linesCoverage_eq_overrun {ts : List Token} {n : Nat} (ls : List Line) :
    ls.Pairwise (·.num < ·.num) →
      (linesCoverage ts ls = .overrun n ↔
        ∃ l ∈ ls, (∀ l' ∈ ls, l'.num < l.num → lineCoverage ts l' = .complete) ∧
          lineCoverage ts l = .overrun n) := by
  induction ls with
  | nil =>
      intro _
      simp [linesCoverage]
  | cons l ls ih =>
      intro hnums
      obtain ⟨hfirst, hrest⟩ := List.pairwise_cons.mp hnums
      rw [linesCoverage]
      split
      · rename_i hcomplete
        rw [ih hrest]
        constructor
        · rintro ⟨m, hm, hbefore, hover⟩
          refine ⟨m, List.mem_cons_of_mem l hm, ?_, hover⟩
          intro l' hl' hlt
          rcases List.mem_cons.mp hl' with rfl | hl'
          · exact hcomplete
          · exact hbefore l' hl' hlt
        · rintro ⟨m, hm, hbefore, hover⟩
          rcases List.mem_cons.mp hm with rfl | hm
          · rw [hcomplete] at hover
            cases hover
          · exact ⟨m, hm, fun l' hl' => hbefore l' (List.mem_cons_of_mem l hl'), hover⟩
      · rename_i hincomplete
        constructor
        · intro hover
          refine ⟨l, List.mem_cons_self, ?_, hover⟩
          intro l' hl' hlt
          rcases List.mem_cons.mp hl' with rfl | hl'
          · exact absurd hlt (Nat.lt_irrefl _)
          · exact absurd (hfirst l' hl') (Nat.lt_asymm hlt)
        · rintro ⟨m, hm, hbefore, hover⟩
          rcases List.mem_cons.mp hm with rfl | hm
          · exact hover
          · exact absurd (hbefore l List.mem_cons_self (hfirst m hm)) hincomplete

theorem lines_ordered (f : File) : f.lines.Pairwise (·.num < ·.num) := by
  rw [← List.pairwise_map (f := Line.num) (R := (· < ·)), File.lines_num]
  exact List.pairwise_lt_range'

/-- Among tokens that pass the first check, those that need more cells are cut off. -/
theorem cutsOff_iff {f : File} {ts : List Token} (hpass : violation? (some f) ts = none) {l : Line}
    (hl : l ∈ f.lines) {t : Token} (ht : t ∈ ts) (hline : t.coord.line = l.num) :
    t.CutsOff l ↔ (Cells.ofToken t).stayInside l.text.charCount = false := by
  obtain ⟨l', h⟩ := passed_of_violationFrom? ts 0 none (violation?_eq_none.mp hpass).2 t ht
  obtain rfl : l' = l := File.eq_of_num_eq h.mem hl (h.num_eq.trans hline)
  rw [← Bool.not_eq_true, h.stayInside_iff]
  exact Classical.not_not.symm

/-- **When the check of the coverage runs out of cells.**  That is so exactly if the tokens
pass the first check, no earlier line leaves a gap, and a token of the line is cut off
(`Token.CutsOff`).  A token that passes the first check takes cells of its line only unless
it is cut off, and then it is a word or a number with a broken lexeme. -/
theorem coverage_overrun_iff (f : File) (ts : List Token) :
    (∀ n, coverage (some f) ts = .overrun n ↔
      violation? (some f) ts = none ∧ ∃ l ∈ f.lines, l.num = n ∧
        (∀ l' ∈ f.lines, l'.num < n → lineCoverage ts l' = .complete) ∧
        ∃ t ∈ ts, t.coord.line = n ∧ t.CutsOff l) ∧
    (violation? (some f) ts = none → ∀ t ∈ ts, ∃ l ∈ f.lines, l.num = t.coord.line ∧
      ((Cells.ofToken t).stayInside l.text.charCount = true ↔ ¬ t.CutsOff l) ∧
      (t.CutsOff l → (t.kind = .identifier ∨ t.kind = .intLiteral) ∧ t.lexeme.isUtf8 = false)) := by
  constructor
  · intro n
    cases hpass : violation? (some f) ts with
    | some v => simp [coverage, hpass]
    | none =>
        have hlines : coverage (some f) ts = linesCoverage ts f.lines := by simp [coverage, hpass]
        rw [hlines, linesCoverage_eq_overrun _ (lines_ordered f), and_iff_right rfl]
        refine exists_congr fun l => and_congr_right fun hl => ?_
        rw [lineCoverage_eq_overrun]
        constructor
        · rintro ⟨hbefore, rfl, t, ht, hline, hout⟩
          exact ⟨rfl, hbefore, t, ht, hline, (cutsOff_iff hpass hl ht hline).mpr hout⟩
        · rintro ⟨rfl, hbefore, t, ht, hline, hcut⟩
          exact ⟨hbefore, rfl, t, ht, hline, (cutsOff_iff hpass hl ht hline).mp hcut⟩
  · intro hpass t ht
    obtain ⟨l, hl⟩ := passed_of_violationFrom? ts 0 none (violation?_eq_none.mp hpass).2 t ht
    exact ⟨l, hl.mem, hl.num_eq, hl.stayInside_iff, hl.kind_of_cutsOff⟩

/-- A word of whole characters takes as many cells as it has, also in front of a character
of three bytes. -/
theorem coverage_overrun_iff_whole :
    let f := File.store 0 (utf8 "a") (utf8 "é日") 0
    let ts : List Token := [⟨.identifier, utf8 "é", ⟨1, 1⟩⟩]
    violation? (some f) ts = none ∧ ∀ n, coverage (some f) ts ≠ .overrun n := by
  intro f ts
  have hpass : violation? (some f) ts = none := by decide
  obtain ⟨hover, htokens⟩ := coverage_overrun_iff f ts
  refine ⟨hpass, ?_⟩
  intro n hn
  obtain ⟨-, l, hl, hnum, -, t, ht, hline, hcut⟩ := (hover n).mp hn
  obtain ⟨l', hl', hnum', -, hkind⟩ := htokens hpass t ht
  obtain rfl : l' = l := File.eq_of_num_eq hl' hl (by rw [hnum', hline, hnum])
  obtain rfl := List.mem_singleton.mp ht
  exact absurd (hkind hcut).2 (by decide)

/-- A number of which the first check has found the two bytes: they are the beginning of the
only character of the line, and count as two. -/
theorem coverage_overruns :
    let f := File.store 0 (utf8 "a") [0xE6, 0x97, 0xA5] 0
    let ts : List Token := [⟨.intLiteral, [0xE6, 0x97], ⟨1, 1⟩⟩]
    violation? (some f) ts = none ∧ coverage (some f) ts = .overrun 1 := by
  decide

end Check

end LineLexer
