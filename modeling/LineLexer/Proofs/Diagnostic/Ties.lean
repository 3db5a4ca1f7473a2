/-
# `Proofs.Diagnostic.Ties` — what sorting does not settle

Two findings of one place, severity and code tie, though their messages, notes
and fixes may differ.  Sorting leaves those that tie with a finding in the order
in which they came (`Bag.ties_sort`), and of a sorted list nothing but that order
is open (`Bag.eq_of_ties_eq`).

So reporting findings in another order leaves the same list after sorting if and
only if those that tie came in the same order both times
(`Bag.sort_addAll_eq_iff`).  Where two that differ tie, exchanging them shows
(`Bag.sort_shows_exchange`).
-/
import LineLexer.Proofs.Diagnostic.Sorting

namespace LineLexer.Bag

/-- The findings that tie with `d`, in order. -/
def ties (d : Diagnostic) (ds : List Diagnostic) : List Diagnostic :=
  ds.filter fun x => (compare d x).isEq

/-- The findings are in order. -/
abbrev Sorted (ds : List Diagnostic) : Prop := ds.Pairwise fun x y => (compare x y).isLE = true

section

variable {d x y : Diagnostic} {ds ds' : List Diagnostic}

theorem mem_ties : x ∈ ties d ds ↔ x ∈ ds ∧ compare d x = .eq := by
  rw [ties, List.mem_filter, Ordering.isEq_iff_eq_eq]

theorem ties_cons_of_eq (h : compare d x = .eq) : ties d (x :: ds) = x :: ties d ds :=
  List.filter_cons_of_pos (Ordering.isEq_iff_eq_eq.mpr h)

theorem ties_cons_of_ne (h : compare d x ≠ .eq) : ties d (x :: ds) = ties d ds :=
  List.filter_cons_of_neg fun heq => h (Ordering.isEq_iff_eq_eq.mp heq)

/-- A finding ties with itself. -/
theorem compare_self (d : Diagnostic) : compare d d = .eq := Std.ReflCmp.compare_self

/-- Findings that tie with the same one tie. -/
theorem compare_eq_of_ties (hx : compare d x = .eq) (hy : compare d y = .eq) :
    compare x y = .eq := by
  rw [← Std.TransCmp.congr_left hx]
  exact hy

/-- Findings that tie have the same ties. -/
theorem ties_congr (h : compare d x = .eq) : ties d ds = ties x ds := by
  refine List.filter_congr ?_
  intro y _
  rw [Std.TransCmp.congr_left h]

/-! ## Sorting keeps ties in order -/

/-- Findings that tie with the same one are in order, whatever order they have. -/
theorem sorted_ties (d : Diagnostic) (ds : List Diagnostic) : Sorted (ties d ds) := by
  refine List.pairwise_iff_forall_sublist.mpr ?_
  intro x y hpair
  have hx : x ∈ ties d ds := hpair.subset List.mem_cons_self
  have hy : y ∈ ties d ds := hpair.subset (List.mem_cons_of_mem x List.mem_cons_self)
  rw [compare_eq_of_ties (mem_ties.mp hx).2 (mem_ties.mp hy).2]
  rfl

/-- **Sorting is stable**: findings that tie stay in the order in which they came. -/
theorem ties_sort (d : Diagnostic) (b : Bag) :
    ties d b.sort.items.toList = ties d b.items.toList := by
  have hsublist : (ties d b.items.toList).Sublist b.sort.items.toList := by
    refine List.sublist_mergeSort ?_ isLE_total (sorted_ties d _) List.filter_sublist
    intro x y z hxy hyz
    exact Std.TransCmp.isLE_trans hxy hyz
  have hties : (ties d b.items.toList).Sublist (ties d b.sort.items.toList) := by
    have hself : ties d (ties d b.items.toList) = ties d b.items.toList :=
      List.filter_eq_self.mpr fun x hx => (List.mem_filter.mp hx).2
    rw [← hself]
    exact hsublist.filter _
  have hlength : (ties d b.items.toList).length = (ties d b.sort.items.toList).length :=
    (b.sort_perm.filter _).length_eq.symm
  exact (hties.eq_of_length hlength).symm

/-! ## Sorted lists that agree on ties -/

/-- The first of two sorted lists that agree on ties are the same. -/
theorem head_eq_of_ties_eq (hx : Sorted (x :: ds)) (hy : Sorted (y :: ds'))
    (h : ∀ d, ties d (x :: ds) = ties d (y :: ds')) : x = y := by
  have hle : ∀ {a b : Diagnostic} {as bs : List Diagnostic}, Sorted (a :: as) →
      (∀ d, ties d (a :: as) = ties d (b :: bs)) → (compare a b).isLE = true := by
    intro a b as bs hsorted hties
    have hb : b ∈ ties b (a :: as) := by
      rw [hties b, ties_cons_of_eq (compare_self b)]
      exact List.mem_cons_self
    rcases List.mem_cons.mp (mem_ties.mp hb).1 with rfl | hmem
    · rw [compare_self]
      rfl
    · exact (List.pairwise_cons.mp hsorted).1 b hmem
  -- each comes first in its list, so neither comes behind the other: they tie
  have htie : compare x y = .eq :=
    Std.OrientedCmp.isLE_antisymm (hle hx h) (hle hy fun d => (h d).symm)
  have hfirst := h x
  rw [ties_cons_of_eq (compare_self x), ties_cons_of_eq htie] at hfirst
  exact (List.cons.inj hfirst).1

/-- **Sorted lists that agree on ties are equal.** -/
theorem eq_of_ties_eq : ∀ {ds ds' : List Diagnostic}, Sorted ds → Sorted ds' →
    (∀ d, ties d ds = ties d ds') → ds = ds' := by
  intro ds
  induction ds with
  | nil =>
      intro ds' _ _ h
      cases ds' with
      | nil => rfl
      | cons y ds' =>
          have hy := h y
          rw [ties_cons_of_eq (compare_self y)] at hy
          cases hy
  | cons x ds ih =>
      intro ds' hds hds' h
      cases ds' with
      | nil =>
          have hx := h x
          rw [ties_cons_of_eq (compare_self x)] at hx
          cases hx
      | cons y ds' =>
          obtain rfl := head_eq_of_ties_eq hds hds' h
          have htail : ∀ d, ties d ds = ties d ds' := by
            intro d
            have hd := h d
            by_cases htie : compare d x = .eq
            · rw [ties_cons_of_eq htie, ties_cons_of_eq htie] at hd
              exact (List.cons.inj hd).2
            · rwa [ties_cons_of_ne htie, ties_cons_of_ne htie] at hd
          rw [ih (List.pairwise_cons.mp hds).2 (List.pairwise_cons.mp hds').2 htail]

end

/-! ## Reporting in another order -/

/-- Two bags have the same list after sorting just when they agree on ties. -/
theorem sort_eq_iff (b b' : Bag) : b'.sort.items.toList = b.sort.items.toList ↔
    ∀ d, ties d b'.items.toList = ties d b.items.toList := by
  constructor
  · intro hsorted d
    rw [← ties_sort d b', hsorted, ties_sort]
  · intro hties
    refine eq_of_ties_eq b'.sort_ordered b.sort_ordered ?_
    intro d
    rw [ties_sort, ties_sort, hties]

/-- Lists of the same findings agree on ties if they do so for those findings. -/
theorem ties_eq_of_perm {ds ds' : List Diagnostic} (hperm : ds'.Perm ds)
    (h : ∀ d ∈ ds, ties d ds' = ties d ds) (d : Diagnostic) : ties d ds' = ties d ds := by
  by_cases hd : ties d ds = []
  · have hnone : (ties d ds').Perm (ties d ds) := hperm.filter _
    rw [hd] at hnone ⊢
    exact hnone.eq_nil
  · obtain ⟨x, hx⟩ := List.exists_mem_of_ne_nil _ hd
    obtain ⟨hmem, htie⟩ := mem_ties.mp hx
    rw [ties_congr htie, ties_congr htie, h x hmem]

/-- An empty bag with room takes all findings. -/
theorem toList_addAll_withLimit {limit : Int} {ds : List Diagnostic}
    (hfits : ds.length ≤ (withLimit limit).limit) :
    ((withLimit limit).addAll ds).items.toList = ds := by
  rw [withLimit_addAll]
  exact List.take_of_length_le hfits

/-- **Exactly when the order of reporting does not show**: findings that fit in a
bag, reported in one order or in another, are in the same list after sorting if
and only if those that tie came in the same order both times. -/
theorem sort_addAll_eq_iff (limit : Int) (ds ds' : List Diagnostic)
    (hfits : ds.length ≤ (withLimit limit).limit) (hperm : ds'.Perm ds) :
    ((withLimit limit).addAll ds').sort.items.toList =
        ((withLimit limit).addAll ds).sort.items.toList ↔
      ∀ d ∈ ds, ties d ds' = ties d ds := by
  have hfits' : ds'.length ≤ (withLimit limit).limit := by
    rw [hperm.length_eq]
    exact hfits
  rw [sort_eq_iff, toList_addAll_withLimit hfits, toList_addAll_withLimit hfits']
  constructor
  · intro h d _
    exact h d
  · exact ties_eq_of_perm hperm

/-- Two findings that tie come in the same order both times, and one of another
place comes before them or between them. -/
theorem sort_addAll_eq_iff_unnoticed :
    let first : Diagnostic := .plain .error .invalidCharacter ⟨0, 4, 5⟩ (utf8 "a")
    let second : Diagnostic := .plain .error .invalidCharacter ⟨0, 4, 5⟩ (utf8 "b")
    let apart : Diagnostic := .plain .error .invalidCharacter ⟨0, 1, 2⟩ (utf8 "c")
    compare first second = .eq ∧ [apart, first, second].Perm [first, apart, second] ∧
      ((withLimit 3).addAll [apart, first, second]).sort.items.toList =
        ((withLimit 3).addAll [first, apart, second]).sort.items.toList := by
  intro first second apart
  have hperm : [apart, first, second].Perm [first, apart, second] := List.Perm.swap _ _ _
  exact ⟨by decide, hperm, (sort_addAll_eq_iff 3 _ _ (by decide) hperm).mpr (by decide)⟩

/-- Two findings of one place, severity and code with different messages stay as
they were reported, so reporting them the other way round shows after sorting. -/
theorem sort_shows_exchange :
    let first : Diagnostic := .plain .error .invalidCharacter ⟨0, 0, 1⟩ (utf8 "a")
    let second : Diagnostic := .plain .error .invalidCharacter ⟨0, 0, 1⟩ (utf8 "b")
    [first, second].Perm [second, first] ∧ [first, second].length ≤ (withLimit 2).limit ∧
      ((withLimit 2).addAll [first, second]).sort.items.toList = [first, second] ∧
      ((withLimit 2).addAll [second, first]).sort.items.toList = [second, first] ∧
      ((withLimit 2).addAll [first, second]).sort.items.toList ≠
        ((withLimit 2).addAll [second, first]).sort.items.toList := by
  intro first second
  have hsorted : ((withLimit 2).addAll [first, second]).sort.items.toList = [first, second] :=
    List.mergeSort_of_pairwise (by decide)
  have hsorted' : ((withLimit 2).addAll [second, first]).sort.items.toList = [second, first] :=
    List.mergeSort_of_pairwise (by decide)
  refine ⟨List.Perm.swap _ _ _, by decide, hsorted, hsorted', ?_⟩
  rw [hsorted, hsorted']
  decide

end LineLexer.Bag
