/-
# `Proofs.Diagnostic.Collecting` — a filter does not show in a single scan

A collector may have a filter in front of its bag, which holds back a finding
that is like an earlier one in code, severity, span and message.  Among findings
no two of which are alike it holds back none: the bag takes what it would take
without the filter (`Collector.bag_foldl_report`), and so the filter is not
noticed, also not by a bag that is full.

The findings of one scan are of that kind, because no two speak of the same place
(`File.findings_apart`).  What is left in the bag can therefore be said outright
(`Scanner.drain_collected`).
-/
import LineLexer.Proofs.Diagnostic.Accounting
import LineLexer.Proofs.Scan.Order
import LineLexer.Proofs.Scan.Size

namespace LineLexer

/-! ## A collector with a filter -/

/-- A filter holds a finding that is like the one that passed last, or was held
before. -/
theorem Filter.holds_record (f : Filter) (d d' : Diagnostic) :
    (f.record d).holds d' = (d.identity == d'.identity || f.holds d') :=
  Std.HashSet.contains_insert

/-- No two of the findings are alike. -/
def Unlike (ds : List Diagnostic) : Prop := ds.Pairwise fun d d' => d.identity ≠ d'.identity

namespace Collector

/-- The collector holds none of the findings back. -/
def Admits (c : Collector) (ds : List Diagnostic) : Prop :=
  ∀ f, c.filter? = some f → ∀ d ∈ ds, f.holds d = false

theorem admits_new (limit : Int) (dedup : Bool) (ds : List Diagnostic) :
    (new limit dedup).Admits ds := by
  intro f hf d hd
  cases dedup with
  | false => cases hf
  | true =>
      cases hf
      exact Std.HashSet.contains_empty

/-- A finding that is not held back reaches the bag, and the collector then holds
back nothing but its like. -/
theorem Admits.report {c : Collector} {d : Diagnostic} {ds : List Diagnostic}
    (h : c.Admits (d :: ds)) (hunlike : ∀ d' ∈ ds, d.identity ≠ d'.identity) :
    (c.report d).bag = c.bag.add d ∧ (c.report d).Admits ds := by
  obtain ⟨bag, filter?⟩ := c
  cases filter? with
  | none =>
      refine ⟨rfl, ?_⟩
      intro f hf
      cases hf
  | some f =>
      have hpass : f.holds d = false := h f rfl d List.mem_cons_self
      have hreport : Collector.report ⟨bag, some f⟩ d = ⟨bag.add d, some (f.record d)⟩ := by
        show (if f.holds d = true then _ else _) = _
        rw [hpass]
        rfl
      rw [hreport]
      refine ⟨rfl, ?_⟩
      intro f' hf' d' hd'
      cases hf'
      rw [Filter.holds_record, h f rfl d' (List.mem_cons_of_mem d hd'), Bool.or_false]
      exact beq_eq_false_iff_ne.mpr (hunlike d' hd')

/-- Findings no two of which are alike reach the bag, one after the other. -/
theorem bag_foldl_report {ds : List Diagnostic} (hunlike : Unlike ds) :
    ∀ {c : Collector}, c.Admits ds → (ds.foldl report c).bag = c.bag.addAll ds := by
  induction ds with
  | nil =>
      intro c h
      rfl
  | cons d ds ih =>
      intro c h
      obtain ⟨hhead, htail⟩ := List.pairwise_cons.mp hunlike
      obtain ⟨hbag, hadmits⟩ := h.report hhead
      show (ds.foldl report (c.report d)).bag = (c.bag.add d).addAll ds
      rw [ih htail hadmits, hbag]

end Collector

/-! ## The findings of a scan -/

/-- No two findings of a buffer are alike, since no two speak of the same place. -/
theorem File.findings_unlike (f : File) : Unlike f.findings := by
  refine f.findings_apart.imp ?_
  intro d d' hne halike
  exact hne (congrArg Identity.primary halike)

/-- What a drained scanner reports is added to the bag, filtered or not. -/
theorem Scanner.bag_follow_drain {f : File} {level : Trace.Level}
    {drained : List Result × Scanner × List Signal} (h : (new f level).drain = some drained)
    (max : Int) (dedup : Bool) :
    ((Collector.new max dedup).follow drained.2.2).bag =
      (Bag.withLimit max).addAll f.findings := by
  obtain ⟨-, -, -, -, hfindings⟩ := drain_eq_some h
  rw [Collector.follow_eq, hfindings]
  exact Collector.bag_foldl_report f.findings_unlike (Collector.admits_new max dedup f.findings)

/-- A count of findings fits its word. -/
theorem File.toInt_lost {f : File} (h : f.Scannable) (cap : Nat) :
    (Int64.ofNat (f.findings.length - cap)).toInt = (f.findings.length - cap : Nat) := by
  have hlength := f.length_findings_le
  have hshort := h.1
  refine Int64.toInt_ofNat_of_lt (Nat.lt_of_le_of_lt (Nat.sub_le _ _) ?_)
  omega

/-- **Removing repeats does not show in a single scan**: what a drained scanner
reports leaves the same bag behind with a filter and without one.  It holds the
findings of the first errors, as many as its limit allows, and has counted the
others.  A scanner can be drained if the lines of its buffer can be counted, and
not otherwise. -/
theorem Scanner.drain_collected (f : File) (level : Trace.Level) (max : Int) :
    ((∃ drained, (new f level).drain = some drained) ↔ f.Scannable) ∧
      ∀ results s signals, (new f level).drain = some (results, s, signals) →
        let errors := results.filterMap Result.error?
        let cap := min max.toNat 65535
        let collected := fun dedup : Bool => ((Collector.new max dedup).follow signals).bag
        collected true = collected false ∧
          collected false = ⟨((errors.take cap).map LexError.diagnostic).toArray, cap,
            .ofNat (errors.length - cap)⟩ ∧
          (collected false).dropped.toInt = (errors.length - cap : Nat) := by
  refine ⟨exists_drain_iff f level, ?_⟩
  intro results s signals hdrain errors cap collected
  have hbag : ∀ dedup, collected dedup = (Bag.withLimit max).addAll f.findings :=
    bag_follow_drain hdrain max
  obtain ⟨hf, rfl, -⟩ := drain_eq_some hdrain
  have hcollected : collected false = ⟨((errors.take cap).map LexError.diagnostic).toArray, cap,
      .ofNat (errors.length - cap)⟩ := by
    rw [hbag, Bag.withLimit_addAll, File.findings, List.map_take, List.length_map]
    rfl
  have hlost := File.toInt_lost hf cap
  rw [File.findings, List.length_map] at hlost
  refine ⟨(hbag true).trans (hbag false).symm, hcollected, ?_⟩
  rw [hcollected]
  exact hlost

end LineLexer
