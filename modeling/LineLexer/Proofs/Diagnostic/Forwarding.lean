/-
# `Proofs.Diagnostic.Forwarding` — a filter passes on the first of each finding

A new filter stands in front of a reporter.  Of what is reported through it, the
reporter gets the findings that are like no earlier one, in their order and whole:
notes and fixes, which do not count when findings are compared, are those of the
first occurrence.

What a reporter gets shows in what it does with it.  So the desk at which findings go
through the filter is compared with one that has no such filter and at which the first
occurrences alone are reported, directly.  The two agree in every bag, in the log and
in all older filters (`Desk.postAll_filtered`), whatever the reporter is, and also when
other reporters write to the same bags in between.

A second filter in front of the first one changes nothing, because among first
occurrences there are no repeats (`Desk.forwarded_idem`): a stack of filters passes on
what a single one does (`Desk.stack_forwards`).
-/
import Mathlib.Data.List.Induction
import LineLexer.Proofs.Diagnostic.Collecting

namespace LineLexer.Desk

/-! ## Filters that a reporter does not go through -/

/-- All filters that a reporter goes through are at the desk. -/
def Knows (k : Desk) (r : Reporter) : Prop := ∀ id ∈ r.filters, id < k.filters.size

/-- The desk with more filters. -/
def withFilters (k : Desk) (fs : Array Filter) : Desk := { k with filters := k.filters ++ fs }

theorem modify_append {α : Type} (xs ys : Array α) {i : Nat} (hi : i < xs.size) (f : α → α) :
    (xs ++ ys).modify i f = xs.modify i f ++ ys := by
  apply Array.ext_getElem?
  intro j
  rw [Array.getElem?_modify, Array.getElem?_append, Array.getElem?_append, Array.size_modify,
    Array.getElem?_modify]
  by_cases hj : i = j
  · subst hj
    simp only [if_true, hi]
  · simp only [if_neg hj]

theorem modify_append_last {α : Type} (xs : Array α) (a : α) (f : α → α) :
    (xs ++ #[a]).modify xs.size f = xs ++ #[f a] := by
  apply Array.ext_getElem?
  intro j
  rw [Array.getElem?_modify, Array.getElem?_append, Array.getElem?_append]
  grind

theorem size_deliver (k : Desk) (d : Diagnostic) (t : Target) :
    (k.deliver d t).filters.size = k.filters.size := by
  cases t <;> rfl

theorem deliver_withFilters (k : Desk) (fs : Array Filter) (d : Diagnostic) (t : Target) :
    (k.withFilters fs).deliver d t = (k.deliver d t).withFilters fs := by
  cases t <;> rfl

/-- The number of filters stays, whichever way a finding takes. -/
theorem size_pass (d : Diagnostic) (t : Target) (ids : List Nat) : ∀ k : Desk,
    (k.pass d t ids).filters.size = k.filters.size := by
  induction ids with
  | nil =>
      intro k
      exact size_deliver k d t
  | cons id ids ih =>
      intro k
      rw [pass]
      split
      · rfl
      · dsimp only
        split
        · exact Array.size_modify
        · exact (ih _).trans Array.size_modify

/-- A finding on its way through filters of the desk takes no notice of more. -/
theorem pass_withFilters (fs : Array Filter) (d : Diagnostic) (t : Target) (ids : List Nat) :
    ∀ k : Desk, (∀ id ∈ ids, id < k.filters.size) →
      (k.withFilters fs).pass d t ids = (k.pass d t ids).withFilters fs := by
  induction ids with
  | nil =>
      intro k _
      exact deliver_withFilters k fs d t
  | cons id ids ih =>
      intro k hknown
      have hid : id < k.filters.size := hknown id List.mem_cons_self
      have hread : (k.withFilters fs).filters[id]? = k.filters[id]? :=
        Array.getElem?_append_left hid
      have hwrite : (k.withFilters fs).filters.modify id (·.record d) =
          k.filters.modify id (·.record d) ++ fs := modify_append k.filters fs hid _
      rw [pass, pass, hread]
      split
      · rfl
      · dsimp only
        rw [hwrite]
        split
        · rfl
        · refine ih { k with filters := k.filters.modify id (·.record d) } ?_
          intro id' hid'
          rw [Array.size_modify]
          exact hknown id' (List.mem_cons_of_mem id hid')

theorem Knows.report {k : Desk} {r : Reporter} (h : k.Knows r) (fs : Array Filter)
    (d : Diagnostic) : (k.withFilters fs).report r d = (k.report r d).withFilters fs :=
  pass_withFilters fs d r.target r.filters k h

/-- A finding comes to the last filter of the desk, which stands in front of `next`. -/
theorem Knows.report_front {k : Desk} {next : Reporter} (h : k.Knows next) (f : Filter)
    (d : Diagnostic) :
    (k.withFilters #[f]).report { next with filters := k.filters.size :: next.filters } d =
      (if f.holds d then k else k.report next d).withFilters #[f.record d] := by
  have hread : (k.withFilters #[f]).filters[k.filters.size]? = some f := by
    simp [withFilters]
  have hwrite : (k.withFilters #[f]).filters.modify k.filters.size (·.record d) =
      k.filters ++ #[f.record d] := modify_append_last k.filters f _
  show pass _ d next.target (k.filters.size :: next.filters) = _
  rw [pass, hread]
  dsimp only
  rw [hwrite]
  split
  · rfl
  · exact h.report #[f.record d] d

/-- The filter tells whether it would hold a finding back. -/
theorem suppressed?_front {k : Desk} {n : Nat} (hn : k.filters.size = n) {next : Reporter}
    (f : Filter) (d : Diagnostic) :
    (k.withFilters #[f]).suppressed? { next with filters := n :: next.filters } d =
      some (f.holds d) := by
  subst hn
  simp [suppressed?, withFilters]

/-! ## Postings -/

/-- A report at a desk on which some filters stand in front of a reporter. -/
inductive Posting
  /-- A finding is reported through these filters. -/
  | through (d : Diagnostic)
  /-- A finding is reported to some other reporter. -/
  | beside (r : Reporter) (d : Diagnostic)

/-- The finding of a posting that goes through the filters. -/
def Posting.finding? : Posting → Option Diagnostic
  | through d => some d
  | beside _ _ => none

/-- The desk after a posting; what goes through the filters is given to `front`. -/
def post (front : Reporter) (k : Desk) : Posting → Desk
  | .through d => k.report front d
  | .beside r d => k.report r d

/-- The desk after postings, in order. -/
def postAll (k : Desk) (front : Reporter) (ps : List Posting) : Desk := ps.foldl (post front) k

/-- The reporters that the postings go to beside the filters are known. -/
def KnowsAll (k : Desk) (ps : List Posting) : Prop := ∀ r d, .beside r d ∈ ps → k.Knows r

/-- Whether a finding like `d` is among those that went through the filters. -/
def reported (ps : List Posting) (d : Diagnostic) : Bool :=
  (ps.filterMap Posting.finding?).any fun e => e.identity == d.identity

/-- The postings without those of a finding that was reported through the filters earlier. -/
def forwarded (ps : List Posting) : List Posting :=
  (ps.zipIdx.filter fun (p, i) => p.finding?.all fun d => !reported (ps.take i) d).map Prod.fst

theorem size_post (front : Reporter) (k : Desk) (p : Posting) :
    (post front k p).filters.size = k.filters.size := by
  cases p <;> exact size_pass ..

theorem postAll_concat (k : Desk) (front : Reporter) (ps : List Posting) (p : Posting) :
    k.postAll front (ps ++ [p]) = post front (k.postAll front ps) p := by
  rw [postAll, List.foldl_append]
  rfl

theorem size_postAll (front : Reporter) (ps : List Posting) (k : Desk) :
    (k.postAll front ps).filters.size = k.filters.size := by
  induction ps using List.reverseRecOn with
  | nil => rfl
  | append_singleton ps p ih => rw [postAll_concat, size_post, ih]

/-! ## First occurrences -/

theorem reported_concat (ps : List Posting) (p : Posting) (d : Diagnostic) :
    reported (ps ++ [p]) d =
      (reported ps d || p.finding?.any fun e => e.identity == d.identity) := by
  rw [reported, List.filterMap_append, List.any_append]
  cases p with
  | through e => simp [reported, Posting.finding?]
  | beside r e => simp [reported, Posting.finding?]

theorem reported_congr (ps : List Posting) {d e : Diagnostic} (h : d.identity = e.identity) :
    reported ps d = reported ps e := by
  rw [reported, h]
  rfl

/-- Whether a posting is forwarded depends on those before it. -/
theorem forwarded_concat (ps : List Posting) (p : Posting) :
    forwarded (ps ++ [p]) =
      forwarded ps ++ if p.finding?.all fun d => !reported ps d then [p] else [] := by
  have hfront : (ps.zipIdx.filter fun (q, i) =>
      q.finding?.all fun d => !reported ((ps ++ [p]).take i) d) =
      ps.zipIdx.filter fun (q, i) => q.finding?.all fun d => !reported (ps.take i) d := by
    refine List.filter_congr ?_
    rintro ⟨q, i⟩ hmem
    have hi : i < ps.length := List.snd_lt_of_mem_zipIdx hmem
    dsimp only
    rw [List.take_append_of_le_length (Nat.le_of_lt hi)]
  rw [forwarded, List.zipIdx_append, List.filter_append, List.map_append, hfront]
  refine congrArg (forwarded ps ++ ·) ?_
  rw [List.zipIdx_singleton, Nat.zero_add, List.filter_cons, List.filter_nil]
  simp only [List.take_left]
  split <;> rfl

theorem forwarded_beside (ps : List Posting) (r : Reporter) (d : Diagnostic) :
    forwarded (ps ++ [.beside r d]) = forwarded ps ++ [.beside r d] :=
  forwarded_concat ps (.beside r d)

theorem forwarded_through (ps : List Posting) (d : Diagnostic) :
    forwarded (ps ++ [.through d]) =
      if reported ps d then forwarded ps else forwarded ps ++ [.through d] := by
  rw [forwarded_concat]
  cases hseen : reported ps d <;> simp [Posting.finding?, hseen]

/-- A finding is among those forwarded once it was reported. -/
theorem reported_forwarded (ps : List Posting) (d : Diagnostic) :
    reported (forwarded ps) d = reported ps d := by
  induction ps using List.reverseRecOn with
  | nil => rfl
  | append_singleton ps p ih =>
      cases p with
      | beside r e => rw [forwarded_beside, reported_concat, reported_concat, ih]
      | through e =>
          rw [forwarded_through]
          split
          · rename_i hseen
            rw [ih, reported_concat]
            show reported ps d = (reported ps d || e.identity == d.identity)
            by_cases hlike : e.identity = d.identity
            · rw [← reported_congr ps hlike, hseen, Bool.true_or]
            · rw [beq_eq_false_iff_ne.mpr hlike, Bool.or_false]
          · rw [reported_concat, reported_concat, ih]

/-- Nothing that is forwarded is a repeat. -/
theorem forwarded_idem (ps : List Posting) : forwarded (forwarded ps) = forwarded ps := by
  induction ps using List.reverseRecOn with
  | nil => rfl
  | append_singleton ps p ih =>
      cases p with
      | beside r d => rw [forwarded_beside, forwarded_beside, ih]
      | through d =>
          rw [forwarded_through]
          split
          · exact ih
          · rename_i hfirst
            rw [forwarded_through, reported_forwarded, if_neg hfirst, ih]

/-- What is forwarded was posted. -/
theorem forwarded_sublist (ps : List Posting) : (forwarded ps).Sublist ps := by
  have h := (List.filter_sublist (l := ps.zipIdx)
    (p := fun (p, i) => p.finding?.all fun d => !reported (ps.take i) d)).map Prod.fst
  rwa [List.zipIdx_map_fst] at h

/-! ## One filter -/

/-- **A new filter passes on first occurrences**: the desk is as if these alone had
been reported to `next` directly, except for the filter, which holds what was
reported. -/
theorem postAll_filtered {k : Desk} {next : Reporter} (hnext : k.Knows next) {ps : List Posting}
    (hps : k.KnowsAll ps) :
    ∃ f, (k.filtered next).1.postAll (k.filtered next).2 ps =
        (k.postAll next (forwarded ps)).withFilters #[f] ∧
      ∀ d, f.holds d = reported ps d := by
  induction ps using List.reverseRecOn with
  | nil =>
      refine ⟨.fresh, ?_, fun d => Std.HashSet.contains_empty⟩
      show { k with filters := k.filters.push .fresh } = k.withFilters #[.fresh]
      rw [withFilters, Array.append_singleton]
  | append_singleton ps p ih =>
      obtain ⟨f, hpast, hholds⟩ := ih fun r d h => hps r d (List.mem_append_left [p] h)
      have hsize := size_postAll next (forwarded ps) k
      rw [postAll_concat, hpast]
      cases p with
      | beside r d =>
          have hr : (k.postAll next (forwarded ps)).Knows r := by
            intro id hid
            rw [hsize]
            exact hps r d (List.mem_append_right ps List.mem_cons_self) id hid
          refine ⟨f, ?_, ?_⟩
          · rw [forwarded_beside, postAll_concat]
            exact hr.report #[f] d
          · intro e
            rw [reported_concat, hholds]
            exact (Bool.or_false _).symm
      | through d =>
          have hfront : (k.postAll next (forwarded ps)).Knows next := by
            intro id hid
            rw [hsize]
            exact hnext id hid
          have hstep := hfront.report_front f d
          rw [hsize, hholds] at hstep
          refine ⟨f.record d, hstep.trans ?_, ?_⟩
          · rw [forwarded_through]
            split
            · rfl
            · rw [postAll_concat]
              rfl
          · intro e
            rw [Filter.holds_record, hholds, reported_concat, Bool.or_comm]
            rfl

/-! ## Stacks of filters -/

/-- The desk with `n` new filters in front of a reporter, and the reporter that goes
through all of them. -/
def stacked (k : Desk) (next : Reporter) : Nat → Desk × Reporter
  | 0 => (k, next)
  | n + 1 => (k.stacked next n).1.filtered (k.stacked next n).2

section Stack

variable {k : Desk} {next : Reporter} {ps : List Posting}

theorem size_stacked (k : Desk) (next : Reporter) (n : Nat) :
    (k.stacked next n).1.filters.size = k.filters.size + n := by
  induction n with
  | zero => rfl
  | succ n ih =>
      show ((k.stacked next n).1.filters.push .fresh).size = _
      rw [Array.size_push, ih]
      rfl

/-- A stack of filters knows what the desk knows. -/
theorem Knows.stacked {r : Reporter} (h : k.Knows r) (n : Nat) :
    (k.stacked next n).1.Knows r := by
  intro id hid
  rw [size_stacked]
  exact Nat.lt_add_right n (h id hid)

theorem Knows.front (hnext : k.Knows next) (n : Nat) :
    (k.stacked next n).1.Knows (k.stacked next n).2 := by
  induction n with
  | zero => exact hnext
  | succ n ih =>
      have hgrown : (k.stacked next (n + 1)).1.filters.size =
          (k.stacked next n).1.filters.size + 1 := by
        rw [size_stacked, size_stacked]
        rfl
      intro id hid
      rw [hgrown]
      rcases List.mem_cons.mp hid with rfl | hid
      · exact Nat.lt_succ_self _
      · exact Nat.lt_succ_of_lt (ih id hid)

theorem KnowsAll.forwarded (hps : k.KnowsAll ps) : k.KnowsAll (forwarded ps) := by
  intro r d h
  exact hps r d ((forwarded_sublist ps).subset h)

/-- First occurrences come through a stack of filters undiminished. -/
theorem postAll_stacked (hnext : k.Knows next) (hps : k.KnowsAll ps) (n : Nat) :
    ∃ fs : Array Filter, fs.size = n ∧
      (k.stacked next n).1.postAll (k.stacked next n).2 (forwarded ps) =
        (k.postAll next (forwarded ps)).withFilters fs := by
  induction n with
  | zero => exact ⟨#[], rfl, by simp [withFilters, stacked]⟩
  | succ n ih =>
      obtain ⟨fs, hsize, hfs⟩ := ih
      have hall : (k.stacked next n).1.KnowsAll (forwarded ps) :=
        fun r d h => (hps.forwarded r d h).stacked n
      obtain ⟨f, hf, -⟩ := postAll_filtered (hnext.front n) hall
      refine ⟨fs ++ #[f], by simp [hsize], ?_⟩
      rw [stacked, hf, forwarded_idem, hfs]
      simp [withFilters]

end Stack

/-- **Filters pass on exactly the first occurrences.**  New filters, one or more in a
row, stand in front of a reporter `next`, and findings are reported through them and
beside them, to reporters that the desk had before.  Then

  * the desk has got what it would have got without these filters if of the findings
    reported through them only those had been given to `next` that are like none before,
    each with its own notes and fixes;
  * at any time exactly the findings are held back that are like one reported before.
-/
theorem stack_forwards (k : Desk) (next : Reporter) (n : Nat) (ps : List Posting)
    (hnext : k.Knows next) (hps : k.KnowsAll ps) :
    let front := (k.stacked next (n + 1)).2
    let after := (k.stacked next (n + 1)).1.postAll front ps
    (∃ fs, fs.size = n + 1 ∧ after = (k.postAll next (forwarded ps)).withFilters fs) ∧
      ∀ d, after.suppressed? front d = some (reported ps d) := by
  intro front after
  have hall : (k.stacked next n).1.KnowsAll ps := fun r d h => (hps r d h).stacked n
  obtain ⟨f, hafter, hholds⟩ := postAll_filtered (hnext.front n) hall
  obtain ⟨fs, hsize, hfs⟩ := postAll_stacked hnext hps n
  have hpast : after = ((k.stacked next n).1.postAll (k.stacked next n).2
      (forwarded ps)).withFilters #[f] := hafter
  refine ⟨⟨fs ++ #[f], by simp [hsize], ?_⟩, ?_⟩
  · rw [hpast, hfs]
    simp [withFilters]
  · intro d
    rw [hpast, ← hholds]
    exact suppressed?_front (size_postAll ..) f d

/-- Two filters in front of the log, which also gets a finding of its own: the repeat has
no note and is not passed on, and the finding beside the filters does not count. -/
theorem stack_forwards_shared :
    let bare := Diagnostic.plain .error .invalidCharacter ⟨0, 1, 2⟩ (utf8 "boom")
    let full := { bare with notes := [⟨⟨0, 0, 0⟩, utf8 "context"⟩] }
    let mild := { bare with severity := .warning }
    let log : Reporter := ⟨[], .log⟩
    let ps := [.through full, .beside log mild, .through bare, .through mild]
    let k : Desk := {}
    let front := (k.stacked log 2).2
    let after := (k.stacked log 2).1.postAll front ps
    (k.Knows log ∧ k.KnowsAll ps) ∧ after.log = #[full, mild, mild] ∧
      after.suppressed? front bare = some true ∧ after.suppressed? front .blank = some false := by
  intro bare full mild log ps k front after
  have hlog : k.Knows log := fun id hid => nomatch hid
  have hps : k.KnowsAll ps := by
    intro r d h
    obtain ⟨rfl, -⟩ : r = log ∧ d = mild := by simpa [ps] using h
    exact hlog
  obtain ⟨⟨fs, -, hafter⟩, hheld⟩ := stack_forwards k log 1 ps hlog hps
  have hdirect : (k.postAll log (forwarded ps)).log = #[full, mild, mild] := by decide
  exact ⟨⟨hlog, hps⟩, (congrArg Desk.log hafter).trans hdirect, hheld bare, hheld .blank⟩

end LineLexer.Desk
