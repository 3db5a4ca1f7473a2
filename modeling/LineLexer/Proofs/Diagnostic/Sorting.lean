/-
# `Proofs.Diagnostic.Sorting` — sorting forgets in which order bags were merged

Findings are ordered by the place they speak of, their severity and their code;
their message, notes and fixes have no say, so two findings may tie, and a tie
is left as it was before sorting.  Only where there are no ties (`Bag.Untied`)
is the sorted list determined by what the bag holds (`Bag.sort_eq_of_perm`).

The findings of scans do not tie: in one buffer their spans start at different
offsets, and those of two buffers of a set name different buffers
(`ScanJob.findings_untied`).  Bags that took them, and had room for all, can
therefore be merged in any order (`ScanJob.sort_mergeAll`).
-/
import LineLexer.Proofs.Diagnostic.Collecting

namespace LineLexer

/-! ## Sorting by a comparison -/

section

variable {α : Type} {cmp : α → α → Ordering} [Std.TransCmp cmp]

theorem isLE_total (x y : α) : ((cmp x y).isLE || (cmp y x).isLE) = true := by
  have hswap : cmp y x = (cmp x y).swap := Std.OrientedCmp.eq_swap
  rw [hswap]
  cases cmp x y <;> rfl

/-- After sorting no element comes behind a later one. -/
theorem mergeSort_ordered (xs : List α) :
    (xs.mergeSort fun x y => (cmp x y).isLE).Pairwise fun x y => (cmp x y).isLE = true := by
  refine List.pairwise_mergeSort ?_ isLE_total xs
  intro x y z hxy hyz
  exact Std.TransCmp.isLE_trans hxy hyz

end

namespace Bag

/-! ## The order of findings -/

instance : Std.TransCmp Bag.compare :=
  inferInstanceAs (Std.TransCmp (compareLex (compareLex (compareLex (compareLex
    (compareOn fun d : Diagnostic => d.primary.file)
    (compareOn fun d : Diagnostic => d.primary.start))
    (compareOn fun d : Diagnostic => d.primary.stop))
    (fun x y => compareOn (fun d : Diagnostic => d.severity.rank) y x))
    (compareOn fun d : Diagnostic => d.code.num)))

theorem compare_swap (x y : Diagnostic) : compare y x = (compare x y).swap :=
  Std.OrientedCmp.eq_swap

/-- Findings that tie speak of the same place. -/
theorem primary_eq_of_compare {x y : Diagnostic} (h : compare x y = .eq) :
    x.primary = y.primary := by
  simp only [compare, Ordering.then_eq_eq, Nat.compare_eq_eq] at h
  obtain ⟨⟨⟨⟨hfile, hstart⟩, hstop⟩, -⟩, -⟩ := h
  calc x.primary = ⟨x.primary.file, x.primary.start, x.primary.stop⟩ := rfl
    _ = ⟨y.primary.file, y.primary.start, y.primary.stop⟩ := by rw [hfile, hstart, hstop]
    _ = y.primary := rfl

/-- No two of the findings tie. -/
def Untied (ds : List Diagnostic) : Prop := ds.Pairwise fun x y => compare x y ≠ .eq

theorem Untied.perm {ds ds' : List Diagnostic} (h : Untied ds) (hperm : ds.Perm ds') :
    Untied ds' := by
  refine (hperm.pairwise_iff ?_).mp h
  intro x y hne heq
  rw [compare_swap] at heq
  exact hne (Ordering.swap_eq_eq.mp heq)

/-! ## Sorting -/

/-- Sorting loses nothing and adds nothing. -/
theorem sort_perm (b : Bag) : b.sort.items.toList.Perm b.items.toList :=
  List.mergeSort_perm _ _

/-- After sorting no finding comes behind a later one. -/
theorem sort_ordered (b : Bag) :
    b.sort.items.toList.Pairwise fun x y => (compare x y).isLE = true :=
  mergeSort_ordered b.items.toList

/-- Findings that do not tie come one before the other. -/
theorem sort_strictly_ordered {b : Bag} (h : Untied b.items.toList) :
    b.sort.items.toList.Pairwise fun x y => compare x y = .lt := by
  refine (b.sort_ordered.and (h.perm b.sort_perm.symm)).imp ?_
  rintro x y ⟨hle, hne⟩
  cases hxy : compare x y with
  | lt => rfl
  | eq => exact absurd hxy hne
  | gt =>
      rw [hxy] at hle
      cases hle

/-- Without ties the sorted list is determined by what the bag holds. -/
theorem sort_eq_of_perm {b b' : Bag} (hperm : b.items.toList.Perm b'.items.toList)
    (h : Untied b'.items.toList) : b.sort.items.toList = b'.sort.items.toList := by
  have hsorted : b.sort.items.toList.Perm b'.sort.items.toList :=
    (b.sort_perm.trans hperm).trans b'.sort_perm.symm
  refine hsorted.eq_of_pairwise ?_ (sort_strictly_ordered (h.perm hperm.symm))
    (sort_strictly_ordered h)
  intro x y _ _ hxy hyx
  rw [compare_swap x y, hxy] at hyx
  cases hyx

/-! ## Merging many bags -/

/-- The bag after others have been merged into it, one after the other. -/
def mergeAll (b : Bag) (others : List Bag) : Bag := others.foldl merge b

/-- Below the ceiling nothing is lost in any number of merges. -/
theorem toList_mergeAll (others : List Bag) : ∀ b : Bag,
    b.size + (others.flatMap fun o => o.items.toList).length ≤ bagCeiling →
    (b.mergeAll others).items.toList =
      b.items.toList ++ others.flatMap fun o => o.items.toList := by
  induction others with
  | nil =>
      intro b h
      exact (List.append_nil _).symm
  | cons o others ih =>
      intro b h
      rw [List.flatMap_cons, List.length_append, Array.length_toList] at h
      have hfits : b.size + o.size ≤ bagCeiling := by
        show b.size + o.items.size ≤ bagCeiling
        omega
      have hmerge := b.toList_merge_of_le o hfits
      have hsize : (b.merge o).size = b.size + o.items.size := by
        rw [size, ← Array.length_toList, hmerge, List.length_append, Array.length_toList,
          Array.length_toList]
        rfl
      show ((b.merge o).mergeAll others).items.toList = _
      rw [ih _ (by omega), hmerge, List.flatMap_cons, List.append_assoc]

end Bag

/-! ## Bags of scans -/

/-- A buffer that is scanned into a bag of its own, with a filter or without. -/
structure ScanJob where
  file : File
  level : Trace.Level
  limit : Int
  dedup : Bool

namespace ScanJob

/-- The bag, after the scanner has been drained; none if it cannot be. -/
def bag? (j : ScanJob) : Option Bag := do
  let (_, _, signals) ← (Scanner.new j.file j.level).drain
  return ((Collector.new j.limit j.dedup).follow signals).bag

theorem bag?_eq_some {j : ScanJob} {b : Bag} : j.bag? = some b ↔
    j.file.Scannable ∧ (Bag.withLimit j.limit).addAll j.file.findings = b := by
  constructor
  · intro h
    obtain ⟨drained, hdrain, hb⟩ := Option.bind_eq_some_iff.mp h
    cases hb
    exact ⟨(Scanner.drain_eq_some hdrain).1, (Scanner.bag_follow_drain hdrain _ _).symm⟩
  · rintro ⟨hscannable, rfl⟩
    obtain ⟨s, signals, hdrain, -⟩ := Scanner.drain_new hscannable j.level
    rw [bag?, hdrain]
    exact congrArg some (Scanner.bag_follow_drain hdrain _ _)

/-- A bag that dropped nothing holds all findings of its buffer. -/
theorem toList_bag {j : ScanJob} {b : Bag} (h : j.bag? = some b) (hdropped : b.dropped = 0) :
    b.items.toList = j.file.findings := by
  obtain ⟨hscannable, rfl⟩ := bag?_eq_some.mp h
  rw [Bag.withLimit_addAll] at hdropped ⊢
  have hlost := File.toInt_lost hscannable (min j.limit.toNat bagCeiling)
  have hzero : (Int64.ofNat (j.file.findings.length - min j.limit.toNat bagCeiling)).toInt = 0 :=
    congrArg Int64.toInt hdropped
  have hroom : j.file.findings.length ≤ min j.limit.toNat bagCeiling := by omega
  rw [List.take_of_length_le hroom]

/-- The findings of different buffers of a set do not tie, nor do those of one. -/
theorem findings_untied {fs : FileSet} {jobs : List ScanJob}
    (hfiles : ∀ j ∈ jobs, fs.get? j.file.id = some j.file)
    (hdistinct : (jobs.map file).Nodup) :
    Bag.Untied (jobs.flatMap fun j => j.file.findings) := by
  refine List.pairwise_flatMap.mpr ⟨?_, ?_⟩
  · intro j _
    refine j.file.findings_apart.imp ?_
    intro x y hne htie
    exact hne (Bag.primary_eq_of_compare htie)
  · refine (List.pairwise_map.mp hdistinct).imp_of_mem ?_
    intro j j' hj hj' hne x hx y hy htie
    -- findings that tie name one number, and a number belongs to one buffer
    have hid : j.file.id = j'.file.id := by
      rw [← File.primary_file hx, Bag.primary_eq_of_compare htie, File.primary_file hy]
    have hsame : some j.file = some j'.file := by rw [← hfiles j hj, hid, hfiles j' hj']
    exact hne (Option.some.inj hsame)

/-- Bags that dropped nothing hold the findings of their buffers, one after the other. -/
theorem flatMap_toList_bags : ∀ {jobs : List ScanJob},
    (∀ j ∈ jobs, ∃ b, j.bag? = some b ∧ b.dropped = 0) →
    ((jobs.filterMap bag?).flatMap fun b => b.items.toList) =
      jobs.flatMap fun j => j.file.findings := by
  intro jobs
  induction jobs with
  | nil => exact fun _ => rfl
  | cons j jobs ih =>
      intro h
      obtain ⟨b, hb, hdropped⟩ := h j List.mem_cons_self
      rw [List.filterMap_cons_some hb, List.flatMap_cons, List.flatMap_cons,
        toList_bag hb hdropped, ih fun j' hj' => h j' (List.mem_cons_of_mem j hj')]

/-- Bags with room for all findings hold them all after being merged, in whatever
order. -/
theorem perm_mergeAll {jobs order : List ScanJob}
    (hbags : ∀ j ∈ jobs, ∃ b, j.bag? = some b ∧ b.dropped = 0)
    (htotal : ((jobs.filterMap bag?).flatMap fun b => b.items.toList).length ≤ bagCeiling)
    (horder : order.Perm jobs) {start : Bag} (hstart : start.items = #[]) :
    (start.mergeAll (order.filterMap bag?)).items.toList.Perm
      (jobs.flatMap fun j => j.file.findings) := by
  have hperm := (horder.filterMap bag?).flatMap_right fun b => b.items.toList
  have hempty : start.size = 0 := by
    rw [Bag.size, hstart]
    rfl
  rw [Bag.toList_mergeAll, hstart]
  · rw [flatMap_toList_bags hbags] at hperm
    exact hperm
  · rw [hempty, Nat.zero_add, hperm.length_eq]
    exact htotal

/-- **Sorting forgets the order of merging**: if different buffers of a set are
each scanned into a bag that drops nothing, and there are not too many findings
for one bag, then the bags can be merged into an empty one in any order, and
after sorting the findings of all buffers stand in the same list. -/
theorem sort_mergeAll (fs : FileSet) (jobs : List ScanJob)
    (hfiles : ∀ j ∈ jobs, fs.get? j.file.id = some j.file)
    (hdistinct : (jobs.map file).Nodup)
    (hbags : ∀ j ∈ jobs, ∃ b, j.bag? = some b ∧ b.dropped = 0)
    (htotal : ((jobs.filterMap bag?).flatMap fun b => b.items.toList).length ≤ 65535) :
    ∃ items : List Diagnostic, items.Perm (jobs.flatMap fun j => j.file.findings) ∧
      items.Pairwise (fun x y => Bag.compare x y = .lt) ∧
      ∀ (start : Bag) (order : List ScanJob), start.items = #[] → order.Perm jobs →
        (start.mergeAll (order.filterMap bag?)).sort.items.toList = items := by
  let whole : Bag := ⟨(jobs.flatMap fun j => j.file.findings).toArray, 0, 0⟩
  have huntied : Bag.Untied whole.items.toList := findings_untied hfiles hdistinct
  refine ⟨whole.sort.items.toList, whole.sort_perm, Bag.sort_strictly_ordered huntied, ?_⟩
  intro start order hstart horder
  exact Bag.sort_eq_of_perm (perm_mergeAll hbags htotal horder hstart) huntied

/-- Two buffers with three findings, merged in both orders; one of the bags has a
filter, and the one they are merged into must have its limit raised. -/
theorem sort_mergeAll_two :
    let f := File.store 0 (utf8 "a") (utf8 "!?") 0
    let g := File.store 1 (utf8 "b") (utf8 "x \"") 0
    let jobs : List ScanJob := [⟨f, .off, 2, false⟩, ⟨g, .off, 8, true⟩]
    ∃ items : List Diagnostic, items.length = 3 ∧
      ((Bag.withLimit 1).mergeAll (jobs.filterMap bag?)).sort.items.toList = items ∧
      ((Bag.withLimit 1).mergeAll (jobs.reverse.filterMap bag?)).sort.items.toList = items := by
  intro f g jobs
  have hbags : ∀ j ∈ jobs, ∃ b, j.bag? = some b ∧ b.dropped = 0 := by
    have hroom : ∀ j ∈ jobs, j.file.Scannable ∧
        ((Bag.withLimit j.limit).addAll j.file.findings).dropped = 0 := by decide
    intro j hj
    exact ⟨_, bag?_eq_some.mpr ⟨(hroom j hj).1, rfl⟩, (hroom j hj).2⟩
  have htotal : ((jobs.filterMap bag?).flatMap fun b => b.items.toList).length ≤ 65535 := by
    rw [flatMap_toList_bags hbags]
    decide
  obtain ⟨items, hperm, -, hitems⟩ :=
    sort_mergeAll ⟨#[f, g]⟩ jobs (by decide) (by decide) hbags htotal
  refine ⟨items, ?_, hitems _ jobs rfl (List.Perm.refl _),
    hitems _ jobs.reverse rfl (List.reverse_perm _)⟩
  rw [hperm.length_eq]
  decide

end ScanJob

end LineLexer
