/-
# `Proofs.Diagnostic.Repeats` — the worst of each finding stays

Findings of one code and primary span are repeats of each other.  Removing repeats keeps
the first one, whatever its severity; it is sorting before that puts the worst one first.
Sorting looks at the span, then at the severity and only then at the code.  Between two
repeats, which have the same span, the severity therefore decides, although findings of
other codes may stand between them.

Removing repeats is described by what is kept: the elements that are the first of the list
with their key (`mem_distinctBy`), and no two of one key (`distinctBy_unlike`).  For a
sorted list the first repeat is the worst one, and of several that are equally bad the one
that was added first, because sorting is stable (`Bag.rank_le_of_first`,
`Bag.find?_of_first`).  `Bag.sort_dedup_worst` says this of every bag.
-/
import LineLexer.Proofs.Diagnostic.Ties

namespace LineLexer

/-! ## The first element of each key -/

section Distinct

variable {α κ : Type} [BEq κ] [LawfulBEq κ] [Hashable κ] {key : α → κ}

theorem mem_distinctFrom {x : α} (xs : List α) : ∀ seen : Std.HashSet κ,
    x ∈ distinctFrom key seen xs ↔
      seen.contains (key x) = false ∧ xs.find? (fun y => key y == key x) = some x := by
  induction xs with
  | nil =>
      intro seen
      exact ⟨fun h => absurd h List.not_mem_nil, fun h => nomatch h.2⟩
  | cons y ys ih =>
      intro seen
      rw [distinctFrom, List.find?_cons]
      by_cases hkey : key y = key x
      · -- the first of the key of `x` is `y`
        have hbeq : (key y == key x) = true := beq_iff_eq.mpr hkey
        rw [hbeq, hkey]
        constructor
        · intro h
          split at h
          · rename_i hseen
            have hfresh := ((ih seen).mp h).1
            rw [hseen] at hfresh
            cases hfresh
          · rename_i hseen
            rcases List.mem_cons.mp h with rfl | h
            · exact ⟨Bool.eq_false_iff.mpr hseen, rfl⟩
            · have hfresh := ((ih _).mp h).1
              rw [Std.HashSet.contains_insert_self] at hfresh
              cases hfresh
        · rintro ⟨hseen, hfirst⟩
          rw [hseen, Option.some.inj hfirst]
          exact List.mem_cons_self
      · have hbeq : (key y == key x) = false := beq_eq_false_iff_ne.mpr hkey
        rw [hbeq]
        split
        · exact ih seen
        · have hne : x ≠ y := fun h => hkey (congrArg key h.symm)
          rw [List.mem_cons, ih, Std.HashSet.contains_insert, hbeq, Bool.false_or]
          exact or_iff_right hne

/-- What is kept is the first of its key. -/
theorem mem_distinctBy {x : α} {xs : List α} :
    x ∈ distinctBy key xs ↔ xs.find? (fun y => key y == key x) = some x :=
  (mem_distinctFrom xs ∅).trans (and_iff_right Std.HashSet.contains_empty)

/-- Every key is kept. -/
theorem exists_mem_distinctBy (key : α → κ) {y : α} {xs : List α} (hy : y ∈ xs) :
    ∃ x ∈ distinctBy key xs, key x = key y := by
  have hsome : (xs.find? fun z => key z == key y).isSome = true :=
    List.find?_isSome.mpr ⟨y, hy, beq_self_eq_true (key y)⟩
  obtain ⟨x, hx⟩ := Option.isSome_iff_exists.mp hsome
  have hbeq : (key x == key y) = true := List.find?_some (p := fun z => key z == key y) hx
  have hkey : key x = key y := beq_iff_eq.mp hbeq
  refine ⟨x, mem_distinctBy.mpr ?_, hkey⟩
  rw [hkey]
  exact hx

theorem distinctFrom_unlike (xs : List α) : ∀ seen : Std.HashSet κ,
    (distinctFrom key seen xs).Pairwise fun x y => key x ≠ key y := by
  induction xs with
  | nil =>
      intro seen
      exact List.Pairwise.nil
  | cons x xs ih =>
      intro seen
      rw [distinctFrom]
      split
      · exact ih seen
      · refine List.pairwise_cons.mpr ⟨?_, ih _⟩
        intro y hy hkey
        have hfresh := ((mem_distinctFrom xs _).mp hy).1
        rw [hkey, Std.HashSet.contains_insert_self] at hfresh
        cases hfresh

/-- No key is kept twice. -/
theorem distinctBy_unlike (xs : List α) :
    (distinctBy key xs).Pairwise fun x y => key x ≠ key y :=
  distinctFrom_unlike xs ∅

theorem distinctFrom_of_unlike (xs : List α) : ∀ seen : Std.HashSet κ,
    (∀ x ∈ xs, seen.contains (key x) = false) → xs.Pairwise (fun x y => key x ≠ key y) →
    distinctFrom key seen xs = xs := by
  induction xs with
  | nil =>
      intro seen _ _
      rfl
  | cons x xs ih =>
      intro seen hfresh hunlike
      obtain ⟨hx, hxs⟩ := List.pairwise_cons.mp hunlike
      have hnew : ¬ seen.contains (key x) = true := by
        rw [hfresh x List.mem_cons_self]
        exact Bool.false_ne_true
      rw [distinctFrom, if_neg hnew]
      refine congrArg (x :: ·) (ih _ ?_ hxs)
      intro y hy
      rw [Std.HashSet.contains_insert, beq_eq_false_iff_ne.mpr (hx y hy), Bool.false_or]
      exact hfresh y (List.mem_cons_of_mem x hy)

/-- Where no key repeats, nothing is removed. -/
theorem distinctBy_of_unlike {xs : List α} (h : xs.Pairwise fun x y => key x ≠ key y) :
    distinctBy key xs = xs :=
  distinctFrom_of_unlike xs ∅ (fun _ _ => Std.HashSet.contains_empty) h

end Distinct

namespace Bag

/-! ## The order of findings, spelled out -/

/-- One finding comes before another, or they tie: by buffer, start and end of the primary
span, then the higher severity first, then by code. -/
def Precedes (x y : Diagnostic) : Prop :=
  x.primary.file < y.primary.file ∨ x.primary.file = y.primary.file ∧
  (x.primary.start < y.primary.start ∨ x.primary.start = y.primary.start ∧
  (x.primary.stop < y.primary.stop ∨ x.primary.stop = y.primary.stop ∧
  (y.severity.rank < x.severity.rank ∨ y.severity.rank = x.severity.rank ∧
    x.code.num ≤ y.code.num)))

theorem isLE_compare_iff {x y : Diagnostic} : (compare x y).isLE = true ↔ Precedes x y := by
  simp only [compare, Ordering.then_assoc, Ordering.isLE_then_iff_or, Std.compare_eq_lt,
    Std.compare_eq_iff_eq, Std.isLE_compare, Precedes]

/-- At one place the worse finding comes first. -/
theorem Precedes.rank_le {x y : Diagnostic} (h : Precedes x y) (hplace : x.primary = y.primary) :
    y.severity.rank ≤ x.severity.rank := by
  rw [Precedes, hplace] at h
  rcases h with h | ⟨-, h | ⟨-, h | ⟨-, h | ⟨h, -⟩⟩⟩⟩
  · exact absurd h (Nat.lt_irrefl _)
  · exact absurd h (Nat.lt_irrefl _)
  · exact absurd h (Nat.lt_irrefl _)
  · exact UInt8.le_of_lt h
  · exact UInt8.le_of_eq h

/-- Findings tie if they agree in place, severity and code. -/
theorem compare_eq_iff {x y : Diagnostic} : compare x y = .eq ↔
    y.code = x.code ∧ y.primary = x.primary ∧ y.severity = x.severity := by
  constructor
  · intro h
    have hplace := primary_eq_of_compare h
    simp only [compare, Ordering.then_eq_eq, Std.compare_eq_iff_eq] at h
    obtain ⟨⟨-, hrank⟩, hnum⟩ := h
    exact ⟨congrArg Code.mk hnum.symm, hplace.symm, congrArg Severity.mk hrank⟩
  · rintro ⟨hcode, hplace, hseverity⟩
    simp only [compare, hcode, hplace, hseverity, Ordering.then_eq_eq, Std.compare_self, and_self]

/-! ## The first repeat of a sorted bag -/

/-- What repeats have in common. -/
abbrev subject (d : Diagnostic) : Code × Span := (d.code, d.primary)

section

variable {b : Bag} {k : Diagnostic}

/-- The first of the repeats in a sorted bag is the worst of them. -/
theorem rank_le_of_first
    (h : b.sort.items.toList.find? (fun d => subject d == subject k) = some k)
    {d : Diagnostic} (hd : d ∈ b.items.toList) (hcode : d.code = k.code)
    (hplace : d.primary = k.primary) : d.severity.rank ≤ k.severity.rank := by
  obtain ⟨-, front, rest, hsplit, hfront⟩ := List.find?_eq_some_iff_append.mp h
  have hsorted := b.sort_ordered
  have hmem : d ∈ b.sort.items.toList := b.sort_perm.mem_iff.mpr hd
  rw [hsplit] at hsorted hmem
  have hrepeat : subject d = subject k := by rw [subject, hcode, hplace]
  rcases List.mem_append.mp hmem with hmem | hmem
  · have hother := hfront d hmem
    rw [hrepeat, beq_self_eq_true] at hother
    cases hother
  · rcases List.mem_cons.mp hmem with rfl | hmem
    · exact UInt8.le_refl _
    · have hrest := (List.pairwise_append.mp hsorted).2.1
      have hle := (List.pairwise_cons.mp hrest).1 d hmem
      exact (isLE_compare_iff.mp hle).rank_le hplace.symm

/-- Of the repeats of its severity it was added first. -/
theorem find?_of_first
    (h : b.sort.items.toList.find? (fun d => subject d == subject k) = some k) :
    b.items.toList.find? (fun d =>
      d.code = k.code ∧ d.primary = k.primary ∧ d.severity = k.severity) = some k := by
  obtain ⟨-, front, rest, hsplit, hfront⟩ := List.find?_eq_some_iff_append.mp h
  have htie : (fun d : Diagnostic => decide (d.code = k.code ∧ d.primary = k.primary ∧
      d.severity = k.severity)) = fun d => (compare k d).isEq := by
    funext d
    rw [Bool.eq_iff_iff, decide_eq_true_iff, Ordering.isEq_iff_eq_eq, compare_eq_iff]
  have hsorted : b.sort.items.toList.find? (fun d => (compare k d).isEq) = some k := by
    refine List.find?_eq_some_iff_append.mpr ⟨?_, front, rest, hsplit, ?_⟩
    · rw [compare_self]
      rfl
    · intro d hd
      have hother := hfront d hd
      rw [Bool.not_eq_true'] at hother ⊢
      refine Bool.eq_false_iff.mpr fun heq => ?_
      obtain ⟨hcode, hplace, -⟩ := compare_eq_iff.mp (Ordering.isEq_iff_eq_eq.mp heq)
      rw [subject, hcode, hplace, beq_self_eq_true] at hother
      cases hother
  -- sorting keeps those that tie in the order in which they came
  calc b.items.toList.find? _ = b.items.toList.find? (fun d => (compare k d).isEq) := by rw [htie]
    _ = (ties k b.items.toList).head? := List.head?_filter.symm
    _ = (ties k b.sort.items.toList).head? := by rw [ties_sort]
    _ = b.sort.items.toList.find? (fun d => (compare k d).isEq) := List.head?_filter
    _ = some k := hsorted

end

/-! ## Sorting and removing repeats -/

theorem mem_sort_dedup {b : Bag} {k : Diagnostic} : k ∈ b.sort.dedup.items.toList ↔
    b.sort.items.toList.find? (fun d => subject d == subject k) = some k :=
  mem_distinctBy

/-- Removing repeats leaves a sorted bag sorted. -/
theorem sort_dedup_ordered (b : Bag) :
    b.sort.dedup.items.toList.Pairwise fun x y => (compare x y).isLE = true :=
  b.sort_ordered.sublist (distinctFrom_sublist _ _ ∅)

/-- Something is as bad as before. -/
theorem hasAtLeast_sort_dedup (b : Bag) (s : Severity) :
    b.sort.dedup.hasAtLeast s = b.hasAtLeast s := by
  rw [Bool.eq_iff_iff, hasAtLeast, hasAtLeast, ← Array.any_toList, ← Array.any_toList,
    List.any_eq_true, List.any_eq_true]
  constructor
  · rintro ⟨k, hk, hrank⟩
    exact ⟨k, List.mem_of_find?_eq_some (find?_of_first (mem_sort_dedup.mp hk)), hrank⟩
  · rintro ⟨d, hd, hrank⟩
    obtain ⟨k, hk, hsubject⟩ := exists_mem_distinctBy subject (b.sort_perm.mem_iff.mpr hd)
    obtain ⟨hcode, hplace⟩ := Prod.mk.inj hsubject
    have hworse := rank_le_of_first (mem_distinctBy.mp hk) hd hcode.symm hplace.symm
    exact ⟨k, hk, decide_eq_true (UInt8.le_trans (of_decide_eq_true hrank) hworse)⟩

/-- Doing both again changes nothing: the items are in order, and none repeats another. -/
theorem sort_dedup_idem (b : Bag) : b.sort.dedup.sort.dedup = b.sort.dedup := by
  have hsort : b.sort.dedup.sort = b.sort.dedup := by
    rw [sort, List.mergeSort_of_pairwise b.sort_dedup_ordered]
  have hdedup : distinctBy subject b.sort.dedup.items.toList = b.sort.dedup.items.toList :=
    distinctBy_of_unlike (distinctBy_unlike _)
  rw [hsort]
  exact congrArg (fun items => { b.sort.dedup with items := items })
    (congrArg List.toArray hdedup)

/-- **Sorting and then removing repeats keeps the worst of each finding.**  What is left is
in order and has no repeats; every code and span that was there still is; what is kept for
one has the highest severity that was there, and was added first among those of this
severity; whether there are errors or warnings has not changed; and doing both again
changes nothing. -/
theorem sort_dedup_worst (b : Bag) :
    let kept := b.sort.dedup
    kept.items.toList.Pairwise Precedes ∧
    kept.items.toList.Pairwise (fun x y => (x.code, x.primary) ≠ (y.code, y.primary)) ∧
    (∀ d ∈ b.items.toList, ∃ k ∈ kept.items.toList,
      k.code = d.code ∧ k.primary = d.primary) ∧
    (∀ k ∈ kept.items.toList,
      (∀ d ∈ b.items.toList, d.code = k.code → d.primary = k.primary →
        d.severity.rank ≤ k.severity.rank) ∧
      b.items.toList.find? (fun d =>
        d.code = k.code ∧ d.primary = k.primary ∧ d.severity = k.severity) = some k) ∧
    kept.hasErrors = b.hasErrors ∧ kept.hasWarnings = b.hasWarnings ∧
    kept.sort.dedup = kept := by
  refine ⟨?_, distinctBy_unlike _, ?_, ?_, ?_, ?_, b.sort_dedup_idem⟩
  · exact b.sort_dedup_ordered.imp fun h => isLE_compare_iff.mp h
  · intro d hd
    obtain ⟨k, hk, hsubject⟩ := exists_mem_distinctBy subject (b.sort_perm.mem_iff.mpr hd)
    exact ⟨k, hk, Prod.mk.inj hsubject⟩
  · intro k hk
    have hfirst := mem_sort_dedup.mp hk
    exact ⟨fun d hd hcode hplace => rank_le_of_first hfirst hd hcode hplace,
      find?_of_first hfirst⟩
  · exact b.hasAtLeast_sort_dedup .error
  · exact b.hasAtLeast_sort_dedup .warning

/-- A warning, and two errors that repeat it: of the three the first error stays. -/
theorem sort_dedup_worst_repeated :
    let mild : Diagnostic := .plain .warning .invalidCharacter ⟨0, 5, 6⟩ (utf8 "w")
    let first : Diagnostic := .plain .error .invalidCharacter ⟨0, 5, 6⟩ (utf8 "a")
    let second : Diagnostic := .plain .error .invalidCharacter ⟨0, 5, 6⟩ (utf8 "a again")
    let b : Bag := ⟨#[mild, first, second], 3, 0⟩
    first ∈ b.sort.dedup.items.toList ∧ mild ∉ b.sort.dedup.items.toList ∧
      second ∉ b.sort.dedup.items.toList := by
  intro mild first second b
  obtain ⟨-, -, hstays, hworst, -⟩ := sort_dedup_worst b
  have hmild : mild ∉ b.sort.dedup.items.toList := by
    intro hmem
    exact absurd ((hworst mild hmem).1 first (by decide) rfl rfl) (by decide)
  have hsecond : second ∉ b.sort.dedup.items.toList := by
    intro hmem
    exact absurd (hworst second hmem).2 (by decide)
  obtain ⟨k, hk, -, -⟩ := hstays first (by decide)
  have hone : k ∈ [mild, first, second] := List.mem_of_find?_eq_some (hworst k hk).2
  refine ⟨?_, hmild, hsecond⟩
  simp only [List.mem_cons, List.not_mem_nil, or_false] at hone
  rcases hone with rfl | rfl | rfl
  · exact absurd hk hmild
  · exact hk
  · exact absurd hk hsecond

end Bag

end LineLexer
