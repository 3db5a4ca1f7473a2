/-
# `Proofs.Report.Snippet` — a snippet is read inside of its buffer

A finding is shown with lines of its buffer and a mark below the last one.  The span of
the finding comes from outside and may lie anywhere, so every piece of the buffer is read
with its bounds checked (`Bytes.slice?`), and a snippet that reads out of bounds is none.

That never happens (`snippet?_eq`) as long as the buffer is short enough for its numbers to
be words.  A line starts and stops in the buffer (`File.lineStart_add_length_le`), and the two
ends of the mark are pulled into the line before anything is read (`partIn_bounds`).  What is
left to fail is that spaces have no room in the place of a tab (`TabTooWide`), and this can be
read off the lines that are shown: all that is measured for the mark is the beginning of one.
-/
import LineLexer.Proofs.Source.Lines
import LineLexer.Proofs.Text.Encoding
import LineLexer.Report.Pretty

namespace LineLexer

/-! ## Lists of answers -/

section

variable {α β : Type}

/-- Answers under a condition on the members. -/
theorem mapM_guard (p : α → Bool) (g : α → β) (l : List α) :
    l.mapM (fun a => if p a then some (g a) else none) =
      if l.all p then some (l.map g) else none := by
  induction l with
  | nil => rfl
  | cons a l ih =>
      rw [List.mapM_cons, ih, List.all_cons, List.map_cons]
      cases p a with
      | false => rfl
      | true => cases l.all p <;> rfl

theorem zip_map_append (f : α → β) (l : List α) (m : List β) :
    l.zip (l.map f ++ m) = l.map fun a => (a, f a) := by
  induction l with
  | nil => rfl
  | cons a l ih => exact congrArg ((a, f a) :: ·) ih

end

/-! ## Lines inside of the buffer -/

theorem Bytes.slice_append_slice (s : Bytes) {a b c : Nat} (hab : a ≤ b) (hbc : b ≤ c) :
    s.slice a b ++ s.slice b c = s.slice a c := by
  have hdrop : s.drop b = (s.drop a).drop (b - a) := by
    rw [List.drop_drop, Nat.add_sub_cancel' hab]
  have hlen : c - a = (b - a) + (c - b) := by omega
  rw [slice, slice, slice, hdrop, hlen, List.take_add]

namespace File

/-- A line starts and stops in the buffer.  Here an empty buffer has an empty line. -/
theorem lineStart_add_length_le (f : File) {n : Nat} (hn : n ≠ 0) (hle : n ≤ max f.lineCount 1) :
    f.lineStart n + (f.line n).length ≤ f.content.length ∧
      f.content.slice (f.lineStart n) (f.lineStart n + (f.line n).length) = f.line n := by
  rcases Nat.lt_or_ge f.lineCount n with hlt | hge
  · obtain rfl : n = 1 := by omega
    have hline : f.line 1 = [] := if_pos (Or.inr hlt)
    rw [hline]
    exact ⟨Nat.zero_le _, rfl⟩
  · obtain ⟨pre, post, h⟩ := f.standsIn_lineAt (Nat.pos_of_ne_zero hn) hge
    exact ⟨h.end_le, h.slice_eq⟩

/-- The texts of the lines, with an empty one behind them, are found by their numbers. -/
theorem lines_text_append (f : File) :
    f.lines.map Line.text ++ [[]] = (List.range' 1 (f.lineCount + 1)).map f.line := by
  have hlast : f.line (1 + 1 * f.lineCount) = [] := if_pos (Or.inr (by omega))
  rw [lines_eq_map, List.map_map, List.range'_concat, List.map_append, List.map_singleton, hlast]
  rfl

end File

namespace Report

/-- The number of the first line that is shown for a finding in a line. -/
def firstShown (o : PrettyOptions) (line : Nat) : Nat :=
  if o.context.toNat < line then line - o.context.toNat else 1

theorem firstShown_bounds (o : PrettyOptions) {line : Nat} (h : line ≠ 0) :
    1 ≤ firstShown o line ∧ firstShown o line ≤ line := by
  rw [firstShown]
  split <;> omega

/-- The lines up to the finding, under their numbers. -/
def shownLines (o : PrettyOptions) (f : File) (line : Nat) : List (Nat × Bytes) :=
  (List.range' (firstShown o line) (line + 1 - firstShown o line)).map fun n => (n, f.line n)

/-- They are the lines that are shown, if a buffer is short enough to read and count them. -/
theorem shownLines?_eq (o : PrettyOptions) {f : File} (hlength : f.content.length < 0x100000000)
    {line : Nat} (hline : line < 0xFFFFFFFF) (hpos : line ≠ 0) (hle : line ≤ max f.lineCount 1) :
    shownLines? o f line = some (shownLines o f line) := by
  have hlimit : wordLimit = 0x100000000 := rfl
  obtain ⟨hfirst, hlast⟩ := firstShown_bounds o hpos
  have hshown : shownLines? o f line = some
      ((List.range' (firstShown o line) (line + 1 - firstShown o line)).zip
        ((f.lines.map Line.text ++ [[]]).drop (firstShown o line - 1))) := by
    rw [shownLines?, File.lines?_eq hlength]
    exact if_pos (by omega)
  -- behind the first line shown there are as many lines as are shown, and maybe more
  have hsplit : (List.range' 1 (f.lineCount + 1)).drop (firstShown o line - 1) =
      List.range' (firstShown o line) (line + 1 - firstShown o line) ++
        List.range' (line + 1) (f.lineCount + 1 - line) := by
    have hnext : line + 1 = firstShown o line + (line + 1 - firstShown o line) := by omega
    have hstart : 1 + (firstShown o line - 1) * 1 = firstShown o line := by omega
    have hsum : f.lineCount + 1 - (firstShown o line - 1) =
        line + 1 - firstShown o line + (f.lineCount + 1 - line) := by omega
    rw [List.drop_range', hstart, hsum, ← List.range'_append_1, ← hnext]
  rw [hshown, f.lines_text_append, ← List.map_drop, hsplit, List.map_append]
  exact congrArg some (zip_map_append f.line _ _)

/-- The line of the finding is one of them. -/
theorem mem_shownLines (o : PrettyOptions) (f : File) {line : Nat} (hpos : line ≠ 0) :
    (line, f.line line) ∈ shownLines o f line := by
  obtain ⟨-, hlast⟩ := firstShown_bounds o hpos
  exact List.mem_map_of_mem (List.mem_range'_1.mpr ⟨hlast, by omega⟩)

/-! ## Tabs -/

/-- Characters from column `col` on, with spaces for the tabs however many they take. -/
def expandFrom (cells : Char → Nat) (tab : Nat) (col : Nat) : List Glyph → Bytes
  | [] => []
  | g :: gs =>
      if g.char = '\t' then
        spaces (tab - col % tab) ++ expandFrom cells tab (col + (tab - col % tab)) gs
      else Bytes.ofChar g.char ++ expandFrom cells tab (col + cells g.char) gs

/-- A text with spaces for its tabs, however many they take. -/
def expandTabs (cells : Char → Nat) (tab : Nat) (s : Bytes) : Bytes :=
  if s.contains 0x09 then expandFrom cells tab 0 (glyphs s) else s

/-- The column behind characters that start in column `col`. -/
def columnAfter (cells : Char → Nat) (tab : Nat) (col : Nat) : List Glyph → Nat
  | [] => col
  | g :: gs =>
      columnAfter cells tab (col + if g.char = '\t' then tab - col % tab else cells g.char) gs

/-- A tab among characters from column `col` on asks for more spaces than a text can have. -/
def AsksTooMuch (cells : Char → Nat) (tab col : Nat) (gs : List Glyph) : Prop :=
  ∃ ps g qs, gs = ps ++ g :: qs ∧ g.char = '\t' ∧
    longestText < tab - columnAfter cells tab col ps % tab

/-- A tab in a text asks for more spaces than a text can have. -/
def TabTooWide (cells : Char → Nat) (tab : Nat) (s : Bytes) : Prop :=
  ∃ p t, s = p ++ 0x09 :: t ∧ longestText < tab - columnAfter cells tab 0 (glyphs p) % tab

section

variable {cells : Char → Nat} {tab : Nat}

theorem expandFrom_tab {g : Glyph} (h : g.char = '\t') (col : Nat) (gs : List Glyph) :
    expandFrom cells tab col (g :: gs) =
      spaces (tab - col % tab) ++ expandFrom cells tab (col + (tab - col % tab)) gs :=
  if_pos h

theorem expandFrom_char {g : Glyph} (h : g.char ≠ '\t') (col : Nat) (gs : List Glyph) :
    expandFrom cells tab col (g :: gs) =
      Bytes.ofChar g.char ++ expandFrom cells tab (col + cells g.char) gs :=
  if_neg h

/-- The tab that asks too much is the first character, or comes behind it. -/
theorem asksTooMuch_cons {g : Glyph} {gs : List Glyph} {col : Nat} :
    AsksTooMuch cells tab col (g :: gs) ↔
      (g.char = '\t' ∧ longestText < tab - col % tab) ∨
        AsksTooMuch cells tab (col + if g.char = '\t' then tab - col % tab else cells g.char) gs := by
  constructor
  · rintro ⟨ps, g', qs, hsplit, hchar, hwide⟩
    cases ps with
    | nil =>
        cases hsplit
        exact .inl ⟨hchar, hwide⟩
    | cons p ps =>
        cases hsplit
        exact .inr ⟨ps, g', qs, rfl, hchar, hwide⟩
  · rintro (⟨hchar, hwide⟩ | ⟨ps, g', qs, rfl, hchar, hwide⟩)
    · exact ⟨[], g, gs, rfl, hchar, hwide⟩
    · exact ⟨g :: ps, g', qs, rfl, hchar, hwide⟩

/-- Characters are expanded unless a tab among them asks too much. -/
theorem expandFrom?_cases (gs : List Glyph) : ∀ col : Nat,
    (AsksTooMuch cells tab col gs ∧ expandFrom? cells tab col gs = none) ∨
      (¬ AsksTooMuch cells tab col gs ∧
        expandFrom? cells tab col gs = some (expandFrom cells tab col gs)) := by
  induction gs with
  | nil =>
      intro col
      refine .inr ⟨?_, rfl⟩
      rintro ⟨ps, g, qs, hsplit, -⟩
      cases ps <;> cases hsplit
  | cons g gs ih =>
      intro col
      rw [asksTooMuch_cons, expandFrom?]
      by_cases hg : g.char = '\t'
      · rw [if_pos hg, if_pos hg, expandFrom_tab hg]
        dsimp only
        by_cases hwide : tab - col % tab ≤ longestText
        · have hnot : ¬ (g.char = '\t' ∧ longestText < tab - col % tab) := by omega
          rw [if_pos hwide, or_iff_right hnot]
          rcases ih (col + (tab - col % tab)) with ⟨hasks, hrest⟩ | ⟨hasks, hrest⟩
          · exact .inl ⟨hasks, by rw [hrest]; rfl⟩
          · exact .inr ⟨hasks, by rw [hrest]; rfl⟩
        · exact .inl ⟨.inl ⟨hg, by omega⟩, if_neg hwide⟩
      · have hnot : ¬ (g.char = '\t' ∧ longestText < tab - col % tab) := fun h => hg h.1
        rw [if_neg hg, if_neg hg, expandFrom_char hg, or_iff_right hnot]
        rcases ih (col + cells g.char) with ⟨hasks, hrest⟩ | ⟨hasks, hrest⟩
        · exact .inl ⟨hasks, by rw [hrest]; rfl⟩
        · exact .inr ⟨hasks, by rw [hrest]; rfl⟩

/-- The tabs of a text are the tabs among its characters. -/
theorem tabTooWide_iff {s : Bytes} :
    TabTooWide cells tab s ↔ AsksTooMuch cells tab 0 (glyphs s) := by
  constructor
  · rintro ⟨p, t, rfl, hwide⟩
    exact ⟨glyphs p, .single 0x09, glyphs t, glyphs_append_of_lt (by decide) p t, rfl, hwide⟩
  · rintro ⟨ps, g, qs, hsplit, hchar, hwide⟩
    have hg : g ∈ glyphs s := by
      rw [hsplit]
      exact List.mem_append_right ps List.mem_cons_self
    have hbytes : g.bytes = [0x09] := Glyph.bytes_of_ascii hg (by decide) (by rw [hchar]; rfl)
    refine ⟨ps.flatMap Glyph.bytes, qs.flatMap Glyph.bytes, ?_, ?_⟩
    · have hwhole := Bytes.eq_append_of_glyphs hsplit
      rw [List.flatMap_cons, hbytes] at hwhole
      exact hwhole
    · rw [glyphs_before hsplit]
      exact hwide

/-- A text is expanded unless a tab in it asks too much. -/
theorem expandTabs?_cases (cells : Char → Nat) (tab : Nat) (s : Bytes) :
    (TabTooWide cells tab s ∧ expandTabs? cells tab s = none) ∨
      (¬ TabTooWide cells tab s ∧ expandTabs? cells tab s = some (expandTabs cells tab s)) := by
  rw [expandTabs?, expandTabs]
  split
  · rw [tabTooWide_iff]
    exact expandFrom?_cases (glyphs s) 0
  · rename_i hcontains
    refine .inr ⟨?_, rfl⟩
    rintro ⟨p, t, rfl, -⟩
    exact hcontains (List.contains_iff_mem.mpr (List.mem_append_right p List.mem_cons_self))

theorem expandTabs?_eq_none_iff {s : Bytes} :
    expandTabs? cells tab s = none ↔ TabTooWide cells tab s := by
  rcases expandTabs?_cases cells tab s with ⟨hwide, hnone⟩ | ⟨hfits, hsome⟩
  · exact iff_of_true hnone hwide
  · exact iff_of_false (by rw [hsome]; exact Option.some_ne_none _) hfits

theorem eq_expandTabs {s t : Bytes} (h : expandTabs? cells tab s = some t) :
    t = expandTabs cells tab s := by
  rcases expandTabs?_cases cells tab s with ⟨-, hnone⟩ | ⟨-, hsome⟩
  · rw [hnone] at h
    cases h
  · rw [hsome] at h
    exact (Option.some.inj h).symm

/-- What a tab asks for depends on what is before it only. -/
theorem TabTooWide.append {s : Bytes} (h : TabTooWide cells tab s) (u : Bytes) :
    TabTooWide cells tab (s ++ u) := by
  obtain ⟨p, t, rfl, hwide⟩ := h
  exact ⟨p, t ++ u, by rw [List.append_assoc, List.cons_append], hwide⟩

end

/-- Whether there is room for the spaces that the tabs of a text ask for. -/
def tabsFit (o : PrettyOptions) (s : Bytes) : Bool := (printed? o s).isSome

/-- A text as it is printed where there is room. -/
def printed (o : PrettyOptions) (s : Bytes) : Bytes := expandTabs Text.charWidth o.tabStop s

theorem tabsFit_iff {o : PrettyOptions} {s : Bytes} :
    tabsFit o s = true ↔ ¬ TabTooWide Text.charWidth o.tabStop s := by
  rw [tabsFit, printed?, Option.isSome_iff_ne_none, Ne, expandTabs?_eq_none_iff]

/-- Where the tabs of a text fit, so do those of its beginning. -/
theorem tabsFit_of_append {o : PrettyOptions} {s t : Bytes} (h : tabsFit o (s ++ t) = true) :
    tabsFit o s = true :=
  tabsFit_iff.mpr fun hwide => tabsFit_iff.mp h (hwide.append t)

theorem printed?_eq (o : PrettyOptions) {s : Bytes} (h : tabsFit o s = true) :
    printed? o s = some (printed o s) := by
  obtain ⟨t, ht⟩ := Option.isSome_iff_exists.mp h
  rw [ht, eq_expandTabs ht, printed]

/-! ## The mark -/

/-- Wherever a span lies, its part of a line lies in the line. -/
theorem partIn_bounds (s : Span) {lo hi : Nat} (h : lo ≤ hi) :
    lo ≤ (partIn s lo hi).1 ∧ (partIn s lo hi).1 ≤ (partIn s lo hi).2 ∧
      (partIn s lo hi).2 ≤ hi := by
  show lo ≤ min (max s.start lo) hi ∧
    min (max s.start lo) hi ≤ min (max s.stop (min (max s.start lo) hi)) hi ∧
    min (max s.stop (min (max s.start lo) hi)) hi ≤ hi
  omega

/-- The mark below a line, from the text before it and the text that it marks. -/
def markLine (o : PrettyOptions) (width : Nat) (before inside : Bytes) : Bytes :=
  let pad := Text.width (printed o before)
  let under := Text.width (printed o (before ++ inside)) - pad
  margin o width [] ++ spaces pad ++ paint o.color [.red, .bold] (marker under) ++ utf8 "\n"

/-- Below a line of the buffer whose tabs fit there is a mark. -/
theorem markLine?_eq (o : PrettyOptions) (f : File) (s : Span) (width : Nat) {lo hi : Nat}
    (hlo : lo ≤ hi) (hhi : hi ≤ f.content.length)
    (hfit : tabsFit o (f.content.slice lo hi) = true) :
    markLine? o f s width lo hi = some (markLine o width (f.content.slice lo (partIn s lo hi).1)
      (f.content.slice (partIn s lo hi).1 (partIn s lo hi).2)) := by
  obtain ⟨hstart, hstop, hend⟩ := partIn_bounds s hlo
  -- both texts that are measured are beginnings of the line
  have hbefore : tabsFit o (f.content.slice lo (partIn s lo hi).1) = true := by
    rw [← f.content.slice_append_slice hstart (Nat.le_trans hstop hend)] at hfit
    exact tabsFit_of_append hfit
  have hwhole : tabsFit o (f.content.slice lo (partIn s lo hi).1 ++
      f.content.slice (partIn s lo hi).1 (partIn s lo hi).2) = true := by
    rw [← f.content.slice_append_slice (Nat.le_trans hstart hstop) hend] at hfit
    rw [f.content.slice_append_slice hstart hstop]
    exact tabsFit_of_append hfit
  rw [markLine?]
  dsimp only
  rw [Bytes.slice?_of_le hstart (by omega), Bytes.slice?_of_le hstop (by omega)]
  show ((printed? o _).bind fun front => (printed? o _).bind _) = _
  rw [printed?_eq o hbefore, printed?_eq o hwhole]
  rfl

/-! ## The snippet -/

/-- A line as it is printed behind its number. -/
def numberedLine (o : PrettyOptions) (width : Nat) (l : Nat × Bytes) : Bytes :=
  margin o width (Bytes.decimal l.1) ++ printed o l.2 ++ utf8 "\n"

theorem numberedLine?_eq (o : PrettyOptions) (width : Nat) :
    numberedLine? o width = fun l =>
      if tabsFit o l.2 then some (numberedLine o width l) else none := by
  funext l
  rw [numberedLine?]
  split
  · rename_i hfit
    rw [printed?_eq o hfit]
    rfl
  · rename_i hfit
    rw [tabsFit, Option.not_isSome_iff_eq_none] at hfit
    rw [hfit]
    rfl

/-- The lines that are shown for a span in a line of the buffer, and the mark. -/
def snippet (o : PrettyOptions) (f : File) (s : Span) (line : Nat) : Bytes :=
  let width := (Bytes.decimal line).length
  let lo := f.lineStart line
  let part := partIn s lo (lo + (f.line line).length)
  (shownLines o f line).flatMap (numberedLine o width) ++
    markLine o width (f.content.slice lo part.1) (f.content.slice part.1 part.2)

/-- A line that there is not has no snippet. -/
theorem snippet?_beyond (o : PrettyOptions) (f : File) (s : Span) {line : Nat}
    (h : line = 0 ∨ max f.lineCount 1 < line) : snippet? o f s line = some [] :=
  if_pos h

/-- Nothing is read out of bounds: in a buffer that is short enough for words there is a
snippet if the tabs of the lines shown fit. -/
theorem snippet?_eq (o : PrettyOptions) {f : File} (hlength : f.content.length < 0x100000000)
    (s : Span) {line : Nat} (hline : line < 0xFFFFFFFF) (hpos : line ≠ 0)
    (hle : line ≤ max f.lineCount 1) :
    snippet? o f s line =
      if (shownLines o f line).all (fun l => tabsFit o l.2) then some (snippet o f s line)
      else none := by
  obtain ⟨hstop, hslice⟩ := f.lineStart_add_length_le hpos hle
  rw [snippet?, if_neg (by omega)]
  dsimp only
  rw [shownLines?_eq o hlength hline hpos hle, File.startWord_eq hlength, File.line?_eq hlength]
  show ((texts? _ (shownLines o f line)).bind fun shown => (markLine? o f s _ _ _).bind _) = _
  rw [numberedLine?_eq, texts?, mapM_guard]
  cases hall : (shownLines o f line).all (fun l => tabsFit o l.2) with
  | false => rfl
  | true =>
      have hfit := List.all_eq_true.mp hall _ (mem_shownLines o f hpos)
      have hmark := markLine?_eq o f s (Bytes.decimal line).length (Nat.le_add_right _ _) hstop
        (by rw [hslice]; exact hfit)
      show ((markLine? o f s _ _ _).bind _) = _
      rw [hmark, snippet, List.flatMap_def]
      rfl

/-- Otherwise there is none. -/
theorem snippet?_eq_none (o : PrettyOptions) {f : File} (s : Span) {line : Nat}
    (h : ¬ (f.content.length < 0x100000000 ∧ line < 0xFFFFFFFF)) (hpos : line ≠ 0)
    (hle : line ≤ max f.lineCount 1) : snippet? o f s line = none := by
  have hnone : shownLines? o f line = none := by
    have hlimit : wordLimit = 0x100000000 := rfl
    rw [shownLines?]
    by_cases hlength : f.content.length < 0x100000000
    · rw [File.lines?_eq hlength]
      exact if_neg fun hline => h ⟨hlength, by omega⟩
    · rw [File.lines?, File.length?_eq_none hlength]
      rfl
  rw [snippet?, if_neg (by omega), hnone]
  rfl

end Report

end LineLexer
