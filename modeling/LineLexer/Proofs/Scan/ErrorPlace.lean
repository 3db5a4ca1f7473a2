/-
# `Proofs.Scan.ErrorPlace` — errors point where they say they do

An error has a coordinate, counted while the line is read, and a span, made of
byte offsets or, at the end of a line, of the size of its last character read
from the right.  A set of buffers resolves a span by counting line feeds and
characters anew.  All of them agree (`LexError.delivered_wellPlaced`).

`Proofs.Scan.Place` says which characters of its line an error speaks of; what
is left is to carry that over to the buffer the line stands in.
-/
import LineLexer.Proofs.Scan.Endless
import LineLexer.Proofs.Scan.Place
import LineLexer.Proofs.Text.Boundaries

namespace LineLexer

/-! ## Errors in their buffer -/

/-- What makes the place of an error trustworthy, in terms of the buffer `f` and
of the set of buffers that resolves its span. -/
structure LexError.WellPlaced (e : LexError) (fs : FileSet) (f : File) : Prop where
  /-- The coordinate names a line of the buffer. -/
  line_mem : 1 ≤ e.coord.line ∧ e.coord.line ≤ f.lineCount
  file_eq : e.span.file = f.id
  nonempty : e.span.start < e.span.stop
  /-- The span lies in the line, and so has no line feed. -/
  inside : f.lineStart e.coord.line ≤ e.span.start ∧
    e.span.stop ≤ f.lineStart e.coord.line + (f.line e.coord.line).length
  unbroken : File.feed ∉ f.text e.span
  /-- Both ends of the span are boundaries of characters of the line. -/
  start_mem : e.span.start - f.lineStart e.coord.line ∈ (f.line e.coord.line).boundaries
  stop_mem : e.span.stop - f.lineStart e.coord.line ∈ (f.line e.coord.line).boundaries
  /-- The span resolves to the coordinate of the error, and ends in the same line; only
  behind the last character of the longest line is the column zero. -/
  resolves : ∃ column, e.coord.column < column ∧
    fs.resolve? e.span = some (e.coord, ⟨e.coord.line, column % wordLimit⟩)
  /-- At the end of a line the error is at the last character, as counted from the
  left as well as found from the right. -/
  atEnd : e.kind = .unexpectedLineEnd →
    e.coord.column = (f.line e.coord.line).charCount ∧
      e.span.stop = f.lineStart e.coord.line + (f.line e.coord.line).length ∧
      e.span.length = (f.line e.coord.line).lastLength
  fixes_inside : ∀ fix ∈ e.fixes, ∀ edit ∈ fix.edits, edit.span.file = f.id ∧
    f.lineStart e.coord.line ≤ edit.span.start ∧ edit.span.start ≤ edit.span.stop ∧
    edit.span.stop ≤ f.lineStart e.coord.line + (f.line e.coord.line).length

/-- The bytes of a span inside a line are bytes of the line. -/
theorem Line.StandsIn.mem_of_mem_text {f : File} {l : Line} {pre post : Bytes}
    (h : l.StandsIn f.content pre post) {sp : Span} (hin : sp.Inside l) {b : UInt8}
    (hb : b ∈ f.text sp) : b ∈ l.text := by
  obtain ⟨k, hk⟩ := Nat.exists_eq_add_of_le hin.le_start
  have hle := hin.start_le
  have hstop := hin.stop_le
  have hdrop : f.content.drop sp.start = l.text.drop k ++ post := by
    rw [h.split, hk, h.start_eq, List.drop_length_add_append,
      List.drop_append_of_le_length (by omega)]
  rw [File.text] at hb
  split at hb
  · rw [Bytes.slice, hdrop, List.take_append_of_le_length (by rw [List.length_drop]; omega)] at hb
    exact List.mem_of_mem_drop (List.mem_of_mem_take hb)
  · exact absurd hb List.not_mem_nil

namespace LexError.PointsAt

variable {e : LexError} {fs : FileSet} {f : File} {l : Line} {before bad behind : List Glyph}

theorem bad_bytes_pos (h : e.PointsAt l before bad behind) :
    0 < (bad.flatMap Glyph.bytes).length :=
  List.length_pos_iff.mpr (flatMap_bytes_ne_nil h.split h.bad_ne)

/-- Both ends of the span resolve to places of the line, the start to the
coordinate of the error. -/
theorem resolves (h : e.PointsAt l before bad behind) {pre post : Bytes}
    (hstands : l.StandsIn f.content pre post) (hf : fs.get? l.file = some f)
    (hlength : f.content.length < 0x100000000) :
    fs.resolve? e.span =
      some (e.coord, ⟨l.num, ((before ++ bad).length + 1) % wordLimit⟩) := by
  have hlen := Line.length_text h.split
  have hlen' := Line.length_text h.split_behind
  have hend := hstands.end_le
  have hinside := h.span_inside
  have hpos := h.bad_bytes_pos
  have hlimit : wordLimit = 0x100000000 := rfl
  have hstart : f.position e.span.start = e.coord := by
    rw [h.span_eq, h.coord_eq, hstands.position_eq (by omega), Bytes.charCount_take h.split]
  have hstop : f.position e.span.stop = ⟨l.num, (before ++ bad).length + 1⟩ := by
    rw [h.span_eq, hstands.position_eq (by omega), Bytes.charCount_take h.split_behind]
  have hlt : e.span.start < e.span.stop := by
    rw [h.span_eq]
    simp only [List.flatMap_append, List.length_append]
    omega
  have hstop_le := hinside.stop_le
  -- the start is in front of a byte, so neither of its numbers is too high
  obtain ⟨-, hline, -⟩ := f.position_le e.span.start
  obtain ⟨-, -, hcolumn⟩ := f.position_le e.span.stop
  have hnum : (f.position e.span.start).line = l.num := by rw [hstart, h.coord_eq]
  refine FileSet.resolve?_eq (hinside.file_eq ▸ hf) ?_ ?_
  · rw [File.position?_eq (by omega), hstart]
  · rw [hstop] at hcolumn
    dsimp only at hcolumn
    rw [File.position?_eq_ite, hstop, if_pos ⟨by dsimp only; omega, by dsimp only; omega⟩]

/-- At the end of a line the last character is meant. -/
theorem last_character (h : e.PointsAt l before bad behind) (hkind : e.kind = .unexpectedLineEnd) :
    e.coord.column = l.text.charCount ∧ e.span.stop = l.start + l.text.length ∧
      e.span.length = l.text.lastLength := by
  obtain ⟨hone, rfl⟩ := h.atEnd hkind
  obtain ⟨g, rfl⟩ := List.length_eq_one_iff.mp hone
  have hsplit : glyphs l.text = before ++ [g] := by simpa using h.split
  have hlen := Line.length_text hsplit
  refine ⟨?_, ?_, ?_⟩
  · rw [h.coord_eq, Bytes.charCount, hsplit, List.length_append, List.length_singleton]
  · rw [h.span_eq, hlen, List.flatMap_append, List.length_append]
  · rw [Bytes.lastLength_eq_size hsplit, h.span_eq, Span.length, List.flatMap_append,
      List.length_append, ← Nat.add_assoc, Nat.add_sub_cancel_left, List.flatMap_singleton]
    rfl

/-- An error that points at characters of a line is well placed in the buffer the
line stands in. -/
theorem wellPlaced (h : e.PointsAt l before bad behind) (hl : l ∈ f.lines)
    (hf : fs.get? f.id = some f) (hlength : f.content.length < 0x100000000) :
    e.WellPlaced fs f := by
  obtain ⟨hfile, pre, post, hstands⟩ := File.standsIn_of_mem_lines hl
  have hinside := h.span_inside
  have hpos := h.bad_bytes_pos
  have hline : e.coord.line = l.num := by rw [h.coord_eq]
  have htext : f.line e.coord.line = l.text := by rw [hline, hstands.line_eq]
  have hstart : f.lineStart e.coord.line = l.start := by rw [hline, hstands.lineStart_eq]
  constructor
  case line_mem =>
    rw [hline]
    exact ⟨hstands.num_pos, hstands.num_le_lineCount⟩
  case file_eq => rw [hinside.file_eq, hfile]
  case nonempty =>
    rw [h.span_eq]
    simp only [List.flatMap_append, List.length_append]
    omega
  case inside =>
    rw [hstart, htext]
    exact ⟨hinside.le_start, hinside.stop_le⟩
  case unbroken => exact fun hfeed => hstands.unbroken (hstands.mem_of_mem_text hinside hfeed)
  case start_mem =>
    rw [hstart, htext, h.span_eq, Nat.add_sub_cancel_left]
    exact Bytes.mem_boundaries h.split
  case stop_mem =>
    rw [hstart, htext, h.span_eq, Nat.add_sub_cancel_left]
    exact Bytes.mem_boundaries h.split_behind
  case resolves =>
    have hbad := List.length_pos_iff.mpr h.bad_ne
    refine ⟨(before ++ bad).length + 1, ?_, ?_⟩
    · rw [h.coord_eq, List.length_append]
      simp only
      omega
    · rw [hline]
      exact h.resolves hstands (by rw [hfile, hf]) hlength
  case atEnd =>
    rw [hstart, htext]
    exact h.last_character
  case fixes_inside =>
    rw [hstart, htext]
    intro fix hfix edit hedit
    obtain ⟨hfile', hle, hle', hstop⟩ := h.fixes_inside fix hfix edit hedit
    exact ⟨hfile'.trans hfile, hle, hle', hstop⟩

end LexError.PointsAt

/-- **Errors point where they say they do**: every error that a scanner delivers,
whether it is drained or stopped before its end, is well placed in its buffer.  If
the lines can be counted, these are all errors of the buffer. -/
theorem LexError.delivered_wellPlaced (fs : FileSet) (f : File) (hf : fs.get? f.id = some f)
    (level : Trace.Level) :
    (f.Scannable → ∃ s signals, (Scanner.new f level).drain = some (f.results, s, signals)) ∧
      ∀ stop rs s signals e, (Scanner.new f level).all stop = some (rs, s, signals) →
        .error e ∈ rs → e.WellPlaced fs f := by
  constructor
  · intro hscannable
    obtain ⟨s, signals, hdrain, -⟩ := Scanner.drain_new hscannable level
    exact ⟨s, signals, hdrain⟩
  · intro stop rs s signals e hall he
    obtain ⟨hlength, hresult⟩ := Scanner.mem_results_of_all hall he
    obtain ⟨l, hl, before, state, behind, hcut, hr⟩ := File.exists_cut hresult
    obtain ⟨mid, bad, rest, -, hpoints⟩ := hcut.pointsAt hr
    exact hpoints.wellPlaced hl hf hlength

/-- A string left open in the second line, behind the first two bytes of a
character of three. -/
theorem LexError.delivered_wellPlaced_truncated :
    let f := File.store 0 [] (utf8 "x\n\"a" ++ [0xE2, 0x82]) 0
    let e : LexError := ⟨.unexpectedLineEnd, 0, ⟨2, 4⟩, utf8 "unterminated string literal",
      ⟨0, 5, 6⟩, [⟨utf8 "close the string literal", [⟨⟨0, 6, 6⟩, utf8 "\""⟩]⟩]⟩
    (∃ rs s signals, (Scanner.new f .off).drain = some (rs, s, signals) ∧ .error e ∈ rs) ∧
      e.WellPlaced ⟨#[f]⟩ f := by
  intro f e
  obtain ⟨hdrain, hplaced⟩ := delivered_wellPlaced ⟨#[f]⟩ f rfl .off
  obtain ⟨s, signals, hs⟩ := hdrain (by decide)
  have he : .error e ∈ f.results := by decide
  exact ⟨⟨f.results, s, signals, hs, he⟩, hplaced none f.results s signals e hs he⟩

end LineLexer
