/-
# `Proofs.Scan.Shift` — results that are moved

A result says where it is by its line, its column and the offsets of its spans;
nothing else of it depends on the place.  So the same segments, found at another
place or in another line, have the same results, moved
(`Line.resultsFrom_shift`).

Where a line ends too early, its end matters as well: such a result is moved as
far as the end is (`Line.EndShifted`).
-/
import LineLexer.Proofs.Scan.LongestMatch

namespace LineLexer

/-- How far something is moved: down by lines, to the right by columns, and by
bytes of the buffer. -/
structure Shift where
  lines : Nat
  columns : Nat
  bytes : Nat
deriving DecidableEq, Repr

def Coord.shift (d : Shift) (c : Coord) : Coord := ⟨c.line + d.lines, c.column + d.columns⟩

def Span.shift (d : Shift) (s : Span) : Span :=
  { s with start := s.start + d.bytes, stop := s.stop + d.bytes }

/-- The fix with the places of its edits moved. -/
def Fix.shift (d : Shift) (f : Fix) : Fix :=
  { f with edits := f.edits.map fun e => { e with span := e.span.shift d } }

def LexError.shift (d : Shift) (e : LexError) : LexError :=
  { e with coord := e.coord.shift d, span := e.span.shift d, fixes := e.fixes.map (Fix.shift d) }

/-- The result with its places moved. -/
def Result.shift (d : Shift) : Result → Result
  | token t => token { t with coord := t.coord.shift d }
  | error e => error (e.shift d)

theorem Fix.shift_zero (f : Fix) : f.shift ⟨0, 0, 0⟩ = f := by
  have hid : (fun e : Edit => { e with span := e.span.shift ⟨0, 0, 0⟩ }) = id := rfl
  rw [shift, hid, List.map_id]

theorem Result.shift_zero (r : Result) : r.shift ⟨0, 0, 0⟩ = r := by
  cases r with
  | token t => rfl
  | error e =>
      have hid : Fix.shift ⟨0, 0, 0⟩ = id := funext Fix.shift_zero
      rw [shift, LexError.shift, hid, List.map_id]
      rfl

/-! ## Places and ends of lines -/

namespace Line

variable {d : Shift} {ln ln' : Line} {here here' : Mark}

/-- The place `here'` of the line `ln'` is the place `here` of the line `ln`, moved. -/
structure Shifted (d : Shift) (ln ln' : Line) (here here' : Mark) : Prop where
  file_eq : ln'.file = ln.file
  num_eq : ln'.num = ln.num + d.lines
  col_eq : here'.col = here.col + d.columns
  off_eq : ln'.start + here'.off = ln.start + here.off + d.bytes

/-- The end of the line `ln'` is that of the line `ln`, moved, with the same last
character. -/
structure EndShifted (d : Shift) (ln ln' : Line) : Prop where
  charCount_eq : ln'.text.charCount = ln.text.charCount + d.columns
  stop_eq : ln'.start + ln'.text.length = ln.start + ln.text.length + d.bytes
  last_eq : (glyphs ln'.text).getLast? = (glyphs ln.text).getLast?

/-- Behind the same characters the places are moved as far. -/
theorem Shifted.after (h : Shifted d ln ln' here here') (gs : List Glyph) :
    Shifted d ln ln' (here.after gs) (here'.after gs) := by
  refine ⟨h.file_eq, h.num_eq, ?_, ?_⟩
  · rw [Mark.after_col, Mark.after_col, h.col_eq]
    omega
  · have := h.off_eq
    rw [Mark.after_off, Mark.after_off]
    omega

theorem Shifted.coord_eq (h : Shifted d ln ln' here here') :
    (⟨ln'.num, here'.col⟩ : Coord) = Coord.shift d ⟨ln.num, here.col⟩ := by
  rw [h.num_eq, h.col_eq]
  rfl

/-- The span of some bytes from here on. -/
theorem Shifted.span_eq (h : Shifted d ln ln' here here') (n : Nat) :
    (⟨ln'.file, ln'.start + here'.off, ln'.start + here'.off + n⟩ : Span) =
      Span.shift d ⟨ln.file, ln.start + here.off, ln.start + here.off + n⟩ := by
  simp only [Span.shift, h.file_eq, h.off_eq, Nat.add_right_comm _ d.bytes n]

theorem Shifted.complainAt_eq (h : Shifted d ln ln' here here') (g : Glyph) (context : Bytes) :
    ln'.complainAt here' g context = (ln.complainAt here g context).shift d := by
  rw [complainAt, h.coord_eq, h.span_eq]
  rfl

theorem Shifted.offers_eq (h : Shifted d ln ln' here here') (g : Glyph) :
    ln'.offers here' g = (ln.offers here g).map (Fix.shift d) := by
  rw [offers, offers, List.map_map]
  refine List.map_congr_left fun s _ => ?_
  rw [h.span_eq]
  rfl

/-- The last character is no longer than the line. -/
theorem last_le_length (ln : Line) :
    (glyphs ln.text).getLast?.elim 0 Glyph.size ≤ ln.text.length := by
  rcases List.eq_nil_or_concat (glyphs ln.text) with hnil | ⟨gs, g, hg⟩
  · simp [hnil]
  · have hlen := congrArg List.length (flatMap_bytes_glyphs ln.text)
    rw [hg] at hlen ⊢
    simp only [List.concat_eq_append, List.flatMap_append, List.flatMap_singleton,
      List.length_append] at hlen
    simp [Glyph.size]
    omega

theorem EndShifted.complainAtEnd_eq (hend : EndShifted d ln ln')
    (h : Shifted d ln ln' here here') (context : Bytes) (fixes : List Fix) :
    ln'.complainAtEnd context (fixes.map (Fix.shift d)) =
      (ln.complainAtEnd context fixes).shift d := by
  have hstop := hend.stop_eq
  have hlast := last_le_length ln
  have hlast' := last_le_length ln'
  rw [hend.last_eq] at hlast'
  have hstart : ln'.start + (ln'.text.length - (glyphs ln.text).getLast?.elim 0 Glyph.size) =
      ln.start + (ln.text.length - (glyphs ln.text).getLast?.elim 0 Glyph.size) + d.bytes := by
    omega
  simp only [complainAtEnd, LexError.shift, Coord.shift, Span.shift, hend.last_eq,
    hend.charCount_eq, h.file_eq, h.num_eq, hstart, hstop]

end Line

/-! ## Results -/

/-- Whether the result of a segment is about the end of the line. -/
def Segment.reachesEnd : Segment → Bool
  | openString _ _ => true
  | orphan _ none => true
  | _ => false

/-- Where something follows, a segment does not reach the end. -/
theorem Segment.Fits.reachesEnd_eq_false {s : Segment} {rest : List Glyph} (h : s.Fits rest)
    (hne : rest ≠ []) : s.reachesEnd = false := by
  cases s with
  | openString quote body => exact absurd h.2.2 hne
  | orphan g next =>
      obtain ⟨n, t, rfl⟩ := List.exists_cons_of_ne_nil hne
      obtain rfl : next = some n := h.1
      rfl
  | blank g => rfl
  | string quote body close => rfl
  | run sort gs => rfl
  | brokenRun sort gs bad => rfl
  | symbol sym => rfl
  | stray g => rfl

/-- A result is moved as far as its place, and as the end of the line if that
matters. -/
theorem Segment.result?_shift {d : Shift} {ln ln' : Line} {here here' : Mark} {s : Segment}
    (h : Line.Shifted d ln ln' here here')
    (hend : s.reachesEnd = true → Line.EndShifted d ln ln') :
    s.result? ln' here' = (s.result? ln here).map (Result.shift d) := by
  cases s with
  | blank g => rfl
  | string quote body close =>
      rw [result?, h.coord_eq]
      rfl
  | run sort gs =>
      rw [result?, h.coord_eq]
      rfl
  | symbol sym =>
      rw [result?, h.coord_eq]
      rfl
  | brokenRun sort gs bad =>
      rw [result?, (h.after gs).complainAt_eq]
      rfl
  | stray g =>
      rw [result?, h.complainAt_eq]
      rfl
  | openString quote body =>
      have hstop := (hend rfl).stop_eq
      rw [result?, result?, Option.map_some, Result.shift, ← (hend rfl).complainAtEnd_eq h]
      simp only [List.map_cons, List.map_nil, Fix.shift, Span.shift, h.file_eq, hstop]
  | orphan g next =>
      cases next with
      | none =>
          rw [result?, h.offers_eq, (hend rfl).complainAtEnd_eq h]
          rfl
      | some n =>
          rw [result?, h.coord_eq, h.offers_eq, Nat.add_assoc, h.span_eq, ← Nat.add_assoc]
          rfl

/-- **The same segments at another place** have the same results, moved. -/
theorem Line.resultsFrom_shift {d : Shift} {ln ln' : Line} : ∀ {ss : List Segment}
    {here here' : Mark}, Shifted d ln ln' here here' →
    (∀ s ∈ ss, s.reachesEnd = true → EndShifted d ln ln') →
    ln'.resultsFrom here' ss = (ln.resultsFrom here ss).map (Result.shift d)
  | [], _, _, _, _ => rfl
  | s :: ss, here, here', h, hend => by
      rw [resultsFrom, resultsFrom, List.map_append,
        resultsFrom_shift (h.after s.glyphs) fun s' hs' => hend s' (List.mem_cons_of_mem s hs'),
        Segment.result?_shift h (hend s List.mem_cons_self)]
      cases s.result? ln here <;> rfl

end LineLexer
