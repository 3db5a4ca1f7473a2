/-
# `Proofs.Scan.Endless` — buffers that have no end

A buffer may have as many lines as a word has numbers.  Its scanner comes to line zero behind
the last one and reads the buffer again, so it never reports an end (`Scanner.Endless`); what
it delivers are results of the buffer all the same (`Scanner.mem_results_of_all`).  If a
buffer is longer than a word can say, no line of it is read.  So a new scanner can be drained
if and only if its buffer is scannable (`Scanner.exists_drain_iff`), and then it has delivered
the results of all lines (`Scanner.drain_eq_some`).
-/
import LineLexer.Proofs.Scan.Counting

namespace LineLexer

namespace Delivery

/-- What a call delivers and what it leaves was to come. -/
theorem next_subset (d : Delivery) :
    (∀ r, d.next.1 = some r → r ∈ d.rest) ∧ ∀ r ∈ d.next.2.1.rest, r ∈ d.rest := by
  have hspec (hcases : (∃ r d' signals, d.next = (some r, d', signals) ∧ d.Delivers r d' signals) ∨
      ∃ d' signals, d.next = (none, d', signals) ∧ d.Ends d' signals) :
      (∀ r, d.next.1 = some r → r ∈ d.rest) ∧ ∀ r ∈ d.next.2.1.rest, r ∈ d.rest := by
    rcases hcases with ⟨r, d', signals, heq, h⟩ | ⟨d', signals, heq, h⟩
    · rw [heq, h.rest_eq]
      refine ⟨?_, fun r' hr' => List.mem_cons_of_mem r hr'⟩
      rintro r' ⟨⟩
      exact List.mem_cons_self
    · rw [heq]
      refine ⟨fun r hr => absurd hr.symm (Option.some_ne_none r), fun r hr => ?_⟩
      rw [rest, h.pending_eq, h.ahead_eq] at hr
      exact absurd hr List.not_mem_nil
  cases hdone : d.done with
  | false => exact hspec (d.next_cases hdone)
  | true =>
      cases hpending : d.pending with
      | nil =>
          have hnext : d.next = (none, d, []) := by
            rw [next, hpending]
            exact if_pos hdone
          rw [hnext]
          exact ⟨fun r hr => absurd hr.symm (Option.some_ne_none r), fun _ hr => hr⟩
      | cons r rs =>
          have hnext : d.next = d.deliver := by rw [next, hpending]
          rw [hnext] at hspec ⊢
          refine hspec (d.deliver_spec fun hnil => ?_)
          rw [hpending] at hnil
          cases hnil

end Delivery

/-! ## What is read -/

namespace File

/-- Reading lines reads lines of the buffer; where the numbers of a word do not go beyond the
last line it stops only at a line with results. -/
theorem fetch_sound {f : File} {lines : Array Line} {n : UInt32} {x : List ScannedLine × UInt32}
    (h : f.fetch lines n = some x) :
    (∀ ln ∈ x.1, ∃ k : UInt32, ln.results = (f.numbered lines k).walk) ∧
      (0xFFFFFFFF ≤ lines.size → ∃ ln ∈ x.1, ln.results ≠ []) := by
  refine fetch.partial_correctness f lines (fun _ x =>
    (∀ ln ∈ x.1, ∃ k : UInt32, ln.results = (f.numbered lines k).walk) ∧
      (0xFFFFFFFF ≤ lines.size → ∃ ln ∈ x.1, ln.results ≠ [])) ?_ n x h
  intro fetch ih n x hx
  split at hx
  · rename_i hbeyond
    cases hx
    refine ⟨fun _ hmem => absurd hmem List.not_mem_nil, fun hmany => ?_⟩
    have hword := n.toNat_lt
    omega
  · dsimp only at hx
    split at hx
    · obtain ⟨⟨front, behind⟩, hfront, hx⟩ := Option.bind_eq_some_iff.mp hx
      obtain ⟨hread, hstop⟩ := ih _ _ hfront
      cases hx
      refine ⟨?_, fun hmany => ?_⟩
      · exact List.forall_mem_cons.mpr ⟨⟨n, rfl⟩, hread⟩
      · obtain ⟨ln, hmem, hne⟩ := hstop hmany
        exact ⟨ln, List.mem_cons_of_mem _ hmem, hne⟩
    · rename_i hne
      cases hx
      refine ⟨?_, fun _ => ⟨_, List.mem_singleton_self _, ?_⟩⟩
      · exact List.forall_mem_singleton.mpr ⟨n, rfl⟩
      · exact fun hnil => hne (List.isEmpty_iff.mpr hnil)

/-- A line that is read has results of the buffer only. -/
theorem mem_results_of_walk {f : File} (hlength : f.content.length < 0x100000000) {n : UInt32}
    {r : Result} (hr : r ∈ (f.numbered f.lines.toArray n).walk) : r ∈ f.results := by
  have hempty (ln : Line) (htext : ln.text = []) : ln.walk = [] := by
    have hshort : ln.text.length < 0x100000000 := by
      rw [htext]
      decide
    rw [Line.walk_eq_scan hshort, Line.scan, htext]
    rfl
  rw [numbered] at hr
  split at hr
  · rw [hempty _ rfl] at hr
    exact absurd hr List.not_mem_nil
  · cases hline : f.lines.toArray[n.toNat - 1]? with
    | none =>
        rw [hline, Option.getD_none, hempty _ rfl] at hr
        exact absurd hr List.not_mem_nil
    | some ln =>
        rw [hline] at hr
        have hmem : ln ∈ f.lines := by
          rw [List.getElem?_toArray] at hline
          exact List.mem_of_getElem? hline
        have hshort := Nat.lt_of_le_of_lt (length_text_le hmem) hlength
        refine List.mem_flatMap.mpr ⟨ln, hmem, ?_⟩
        rw [← Line.walk_eq_scan hshort]
        exact hr

end File

namespace Scanner

/-- **A call that comes to an end** is a call on a delivery: on what is pending, or, where
nothing is, on the lines that were fetched. -/
theorem exists_of_next {s s' : Scanner} {r : Option Result} {signals : List Signal}
    (h : s.next = some (r, s', signals)) :
    s'.lines? = s.lines? ∧ ∃ d : Delivery, d.next = (r, s'.delivery, signals) ∧
      ((s.delivery.pending ≠ [] ∨ s.done = true) ∧ d = s.delivery ∨
        ∃ lines front behind, s.lines? = some lines ∧
          s.delivery.file.fetch lines s.upcoming = some (front, behind) ∧
          d = s.delivery.onto front) := by
  rw [next] at h
  split at h
  · obtain ⟨lines, hlines, h⟩ := Option.bind_eq_some_iff.mp h
    obtain ⟨⟨front, behind⟩, hfetch, h⟩ := Option.bind_eq_some_iff.mp h
    cases h
    exact ⟨hlines.symm, _, rfl, .inr ⟨lines, front, behind, hlines, hfetch, rfl⟩⟩
  · rename_i hclosed
    cases h
    rw [Bool.not_eq_true, Bool.and_eq_false_iff, List.isEmpty_eq_false_iff,
      Bool.not_eq_false'] at hclosed
    exact ⟨rfl, _, rfl, .inl ⟨hclosed, rfl⟩⟩

/-- The scanner reads the buffer `f`, and has read none but results of it. -/
structure Reads (f : File) (s : Scanner) : Prop where
  file_eq : s.delivery.file = f
  lines_eq : s.lines? = f.lines?.map List.toArray
  rest_subset : ∀ r ∈ s.delivery.rest, f.content.length < 0x100000000 ∧ r ∈ f.results

theorem reads_new (f : File) (level : Trace.Level) : (new f level).Reads f :=
  ⟨rfl, rfl, fun _ hr => absurd hr List.not_mem_nil⟩

/-- Lines that are fetched have results of the buffer only. -/
theorem Reads.fetched {f : File} {s : Scanner} (h : s.Reads f) {lines : Array Line}
    {front : List ScannedLine} {behind : UInt32} (hlines : s.lines? = some lines)
    (hfetch : s.delivery.file.fetch lines s.upcoming = some (front, behind)) :
    ∀ r ∈ (s.delivery.onto front).rest, f.content.length < 0x100000000 ∧ r ∈ f.results := by
  intro r hr
  rcases List.mem_append.mp hr with hpending | hahead
  · exact h.rest_subset r (List.mem_append_left _ hpending)
  · have hread : some lines = f.lines?.map List.toArray := hlines.symm.trans h.lines_eq
    have hlength : f.content.length < 0x100000000 := by
      refine Decidable.byContradiction fun hlong => ?_
      rw [File.lines?, File.length?_eq_none hlong] at hread
      cases hread
    rw [File.lines?_eq hlength] at hread
    obtain rfl : lines = f.lines.toArray := Option.some.inj hread
    rw [h.file_eq] at hfetch
    obtain ⟨ln, hln, hr⟩ := List.mem_flatMap.mp hahead
    obtain ⟨k, hk⟩ := (File.fetch_sound hfetch).1 ln hln
    exact ⟨hlength, File.mem_results_of_walk hlength (hk ▸ hr)⟩

theorem Reads.next {f : File} {s s' : Scanner} {r : Option Result} {signals : List Signal}
    (h : s.Reads f) (hnext : s.next = some (r, s', signals)) :
    s'.Reads f ∧ ∀ r', r = some r' → f.content.length < 0x100000000 ∧ r' ∈ f.results := by
  obtain ⟨hlines, d, hd, hcases⟩ := exists_of_next hnext
  have hread : d.file = f ∧ ∀ r ∈ d.rest, f.content.length < 0x100000000 ∧ r ∈ f.results := by
    rcases hcases with ⟨-, rfl⟩ | ⟨lines, front, behind, hsome, hfetch, rfl⟩
    · exact ⟨h.file_eq, h.rest_subset⟩
    · exact ⟨h.file_eq, h.fetched hsome hfetch⟩
  have hfile := d.next_file
  obtain ⟨hgiven, hleft⟩ := d.next_subset
  rw [hd] at hfile hgiven hleft
  exact ⟨⟨hfile.trans hread.1, hlines.trans h.lines_eq, fun r hr => hread.2 r (hleft r hr)⟩,
    fun r' hr' => hread.2 r' (hgiven r' hr')⟩

theorem Reads.take {f : File} (n : Nat) : ∀ {s s' : Scanner} {rs : List Result}
    {signals : List Signal}, s.Reads f → s.take n = some (rs, s', signals) →
    ∀ r ∈ rs, f.content.length < 0x100000000 ∧ r ∈ f.results := by
  induction n with
  | zero =>
      intro s s' rs signals _ htake r hr
      cases htake
      exact absurd hr List.not_mem_nil
  | succ n ih =>
      intro s s' rs signals h htake
      obtain ⟨⟨r, s₁, first⟩, hnext, htake⟩ := Option.bind_eq_some_iff.mp htake
      obtain ⟨h₁, hgiven⟩ := h.next hnext
      cases r with
      | none =>
          cases htake
          exact fun r hr => absurd hr List.not_mem_nil
      | some r =>
          obtain ⟨⟨rs', s₂, more⟩, hmore, htake⟩ := Option.bind_eq_some_iff.mp htake
          cases htake
          exact List.forall_mem_cons.mpr ⟨hgiven r rfl, ih h₁ hmore⟩

/-! ## Without end -/

/-- The end has not been reported, and the buffer is too long to be read or has as many lines
as there are numbers. -/
structure Endless (s : Scanner) : Prop where
  many : ∀ lines, s.lines? = some lines → 0xFFFFFFFF ≤ lines.size
  done_eq : s.done = false

/-- A buffer whose lines cannot be counted has no end. -/
theorem endless_new {f : File} (hf : ¬ f.Scannable) (level : Trace.Level) :
    (new f level).Endless := by
  refine ⟨?_, rfl⟩
  intro lines hlines
  by_cases hlength : f.content.length < 0x100000000
  · rw [new, File.lines?_eq hlength] at hlines
    cases hlines
    rw [List.size_toArray, f.length_lines]
    exact Nat.le_of_not_lt fun hcount => hf ⟨hlength, hcount⟩
  · rw [new, File.lines?, File.length?_eq_none hlength] at hlines
    cases hlines

/-- **A call** on such a scanner delivers a result and leaves such a scanner behind, if it
comes to an end at all. -/
theorem Endless.next {s s' : Scanner} {r : Option Result} {signals : List Signal}
    (h : s.Endless) (hnext : s.next = some (r, s', signals)) : r ≠ none ∧ s'.Endless := by
  obtain ⟨hlines, d, hd, hcases⟩ := exists_of_next hnext
  have hleft : d.done = false ∧ d.rest ≠ [] := by
    rcases hcases with ⟨hkept, rfl⟩ | ⟨lines, front, behind, hsome, hfetch, rfl⟩
    · have hpending := hkept.resolve_right (Bool.eq_false_iff.mp h.done_eq)
      exact ⟨h.done_eq, fun hnil => hpending (List.append_eq_nil_iff.mp hnil).1⟩
    · obtain ⟨ln, hmem, hne⟩ := (File.fetch_sound hfetch).2 (h.many lines hsome)
      refine ⟨h.done_eq, fun hnil => ?_⟩
      exact hne (List.flatMap_eq_nil_iff.mp (List.append_eq_nil_iff.mp hnil).2 ln hmem)
  rcases d.next_cases hleft.1 with ⟨r', d', signals', heq, hdelivers⟩ | ⟨d', signals', heq, hends⟩
  · rw [hd] at heq
    cases heq
    exact ⟨Option.some_ne_none r', fun lines hsome => h.many lines (hlines.symm.trans hsome),
      hdelivers.done_eq.trans hleft.1⟩
  · exact absurd hends.rest_eq hleft.2

theorem Endless.take (n : Nat) : ∀ {s s' : Scanner} {rs : List Result} {signals : List Signal},
    s.Endless → s.take n = some (rs, s', signals) → s'.Endless := by
  induction n with
  | zero =>
      intro s s' rs signals h htake
      cases htake
      exact h
  | succ n ih =>
      intro s s' rs signals h htake
      obtain ⟨⟨r, s₁, first⟩, hnext, htake⟩ := Option.bind_eq_some_iff.mp htake
      obtain ⟨hsome, h₁⟩ := h.next hnext
      cases r with
      | none => exact absurd rfl hsome
      | some r =>
          obtain ⟨⟨rs', s₂, more⟩, hmore, htake⟩ := Option.bind_eq_some_iff.mp htake
          cases htake
          exact ih h₁ hmore

/-- A call that delivers nothing has reported the end. -/
theorem done_of_next {s s' : Scanner} {signals : List Signal}
    (h : s.next = some (none, s', signals)) : s'.done = true := by
  obtain ⟨-, d, hd, -⟩ := exists_of_next h
  have hdone := Delivery.done_of_next (congrArg Prod.fst hd)
  rw [hd] at hdone
  exact hdone

/-- Draining, where it comes to an end, is a number of calls, the last of which has reported
the end. -/
theorem exists_take_of_drain {s : Scanner} {x : List Result × Scanner × List Signal}
    (h : s.drain = some x) : ∃ n, s.take n = some x ∧ x.2.1.done = true := by
  refine drain.partial_correctness (fun s x => ∃ n, s.take n = some x ∧ x.2.1.done = true)
    ?_ s x h
  intro drain ih s x hx
  obtain ⟨⟨r, s', signals⟩, hnext, hx⟩ := Option.bind_eq_some_iff.mp hx
  cases r with
  | none =>
      cases hx
      refine ⟨1, ?_, done_of_next hnext⟩
      rw [take, hnext]
      rfl
  | some r =>
      obtain ⟨⟨rs, s'', more⟩, hmore, hx⟩ := Option.bind_eq_some_iff.mp hx
      cases hx
      obtain ⟨n, htake, hdone⟩ := ih _ _ hmore
      refine ⟨n + 1, ?_, hdone⟩
      rw [take, hnext]
      show (s'.take n).bind _ = _
      rw [htake]
      rfl

/-- **A scanner without end** cannot be drained. -/
theorem Endless.drain {s : Scanner} (h : s.Endless) : s.drain = none := by
  cases hdrain : s.drain with
  | none => rfl
  | some x =>
      obtain ⟨n, htake, hdone⟩ := exists_take_of_drain hdrain
      exact absurd hdone (Bool.eq_false_iff.mp (h.take n htake).done_eq)

/-! ## Whether there is an end -/

theorem drain_eq_none {f : File} (hf : ¬ f.Scannable) (level : Trace.Level) :
    (new f level).drain = none :=
  (endless_new hf level).drain

/-- A scan comes to an end exactly if the lines of its buffer can be counted. -/
theorem exists_drain_iff (f : File) (level : Trace.Level) :
    (∃ x, (new f level).drain = some x) ↔ f.Scannable := by
  constructor
  · rintro ⟨x, hx⟩
    refine Decidable.byContradiction fun hf => ?_
    rw [drain_eq_none hf] at hx
    cases hx
  · intro hf
    obtain ⟨s, signals, hdrain, -⟩ := drain_new hf level
    exact ⟨_, hdrain⟩

/-- **A scan that has come to an end** has delivered the results of all lines. -/
theorem drain_eq_some {f : File} {level : Trace.Level} {rs : List Result} {s : Scanner}
    {signals : List Signal} (h : (new f level).drain = some (rs, s, signals)) :
    f.Scannable ∧ rs = f.results ∧ s.stats = f.stats ∧ s.done = true ∧
      findingsOf signals = f.findings := by
  have hf := (exists_drain_iff f level).mp ⟨_, h⟩
  obtain ⟨s', signals', hdrain, hrest⟩ := drain_new hf level
  rw [hdrain] at h
  cases h
  exact ⟨hf, rfl, hrest⟩

/-- **Whatever is delivered**, with or without an end, is a result of the buffer. -/
theorem mem_results_of_all {f : File} {level : Trace.Level} {stop : Option Nat} {rs : List Result}
    {s : Scanner} {signals : List Signal} (h : (new f level).all stop = some (rs, s, signals))
    {r : Result} (hr : r ∈ rs) : f.content.length < 0x100000000 ∧ r ∈ f.results := by
  cases stop with
  | some n => exact (reads_new f level).take n h r hr
  | none =>
      obtain ⟨n, htake, -⟩ := exists_take_of_drain h
      exact (reads_new f level).take n htake r hr

end Scanner

end LineLexer
