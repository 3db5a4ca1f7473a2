/-
# `Proofs.Scan.Independence` — lines do not know each other

A content may be cut behind any of its line feeds.  The lines of the second
part are then the lines that the part has by itself, with larger numbers and
further on in the buffer (`File.lines_join`), and a line that stands further
on has the same results, moved (`Line.scan_shift`).  What is in the first
part, an open string at its end included, has no say in it: the results of the
whole are those of the parts (`File.results_join`).
-/
import LineLexer.Proofs.Scan.Endless
import LineLexer.Proofs.Scan.Shift

namespace LineLexer

/-! ## Lines that are moved -/

namespace Line

/-- The line, so many lines and bytes further on. -/
def shift (d : Shift) (ln : Line) : Line :=
  { ln with num := ln.num + d.lines, start := ln.start + d.bytes }

end Line

/-! ## The lines of a content in two parts -/

namespace File

theorem numberLines_shift (d : Shift) (file : Nat) : ∀ (ts : List Bytes) (num start : Nat),
    numberLines file (num + d.lines) (start + d.bytes) ts =
      (numberLines file num start ts).map (Line.shift d) := by
  intro ts
  induction ts with
  | nil => exact fun _ _ => rfl
  | cons t ts ih =>
      intro num start
      have hnum : num + d.lines + 1 = num + 1 + d.lines := by omega
      have hstart : start + d.bytes + t.length + 1 = start + t.length + 1 + d.bytes := by omega
      rw [numberLines, numberLines, hnum, hstart, ih, List.map_cons]
      rfl

/-- The lines of the second part are counted on from the first. -/
theorem numberLines_join (file : Nat) (a b : Bytes) : ∀ num start : Nat,
    numberLines file num start (splitLines (a ++ feed :: b)) =
      numberLines file num start (splitLines (a ++ [feed])) ++
        numberLines file (num + (splitLines (a ++ [feed])).length) (start + (a.length + 1))
          (splitLines b) := by
  -- along the lines of the first part: each stands in front of both sides
  induction a using feed_induction with
  | last a ha =>
      intro num start
      have hone : splitLines (a ++ [feed]) = [a] := splitLines_append [] ha
      rw [splitLines_append b ha, hone]
      rfl
  | cons l a hl ih =>
      intro num start
      have hwhole : l ++ feed :: a ++ feed :: b = l ++ feed :: (a ++ feed :: b) := by simp
      have hfirst : l ++ feed :: a ++ [feed] = l ++ feed :: (a ++ [feed]) := by simp
      have hnum : num + 1 + (splitLines (a ++ [feed])).length =
          num + (l :: splitLines (a ++ [feed])).length := by
        rw [List.length_cons]
        omega
      have hstart : start + l.length + 1 + (a.length + 1) =
          start + ((l ++ feed :: a).length + 1) := by
        rw [List.length_append, List.length_cons]
        omega
      rw [hwhole, hfirst, splitLines_append _ hl, splitLines_append _ hl, numberLines, numberLines,
        ih, hnum, hstart, List.cons_append]

section

variable (f : File) (a b : Bytes)

/-- The lines of a content that is cut behind a line feed. -/
theorem lines_join :
    { f with content := a ++ feed :: b }.lines =
      { f with content := a ++ [feed] }.lines ++ { f with content := b }.lines.map
        (Line.shift ⟨{ f with content := a ++ [feed] }.lineCount, 0, a.length + 1⟩) := by
  have hcount := lineCount_eq { f with content := a ++ [feed] }
  rw [lines, lines, lines, numberLines_join, ← numberLines_shift, hcount]

/-- If the lines of the whole can be counted, so can those of its parts. -/
theorem Scannable.parts (h : { f with content := a ++ feed :: b }.Scannable) :
    { f with content := a ++ [feed] }.Scannable ∧ { f with content := b }.Scannable := by
  obtain ⟨hlength, hcount⟩ := h
  have hlines := congrArg List.length (f.lines_join a b)
  rw [List.length_append, List.length_map, length_lines, length_lines, length_lines] at hlines
  rw [hlines] at hcount
  rw [List.length_append, List.length_cons] at hlength
  refine ⟨⟨?_, by omega⟩, ⟨?_, by omega⟩⟩
  · show (a ++ [feed]).length < _
    rw [List.length_append, List.length_singleton]
    omega
  · show b.length < _
    omega

end

end File

end LineLexer
