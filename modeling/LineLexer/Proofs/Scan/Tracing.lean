/-
# `Proofs.Scan.Tracing` — the record of a scan

The recorder turns the entries of a scan into events of one span, with the next
number that is free (`Trace.Recorder.follow_scan`).  The events of a whole buffer
are written down without a scanner: the span begins, each line has its point and
behind it those of its results, and the span ends with the counts (`File.trace`).

A scan that is pulled to its end, however it is pulled, gives its tracer this
trace less the events that the level does not admit (`Scanner.pulls_traced`).
-/
import LineLexer.Proofs.Scan.Outlook
import LineLexer.Proofs.Trace.Emission

namespace LineLexer

/-! ## The span of a scan -/

namespace TraceAction

/-- The event that an entry makes in the span `span` of a buffer. -/
def event (file : Bytes) (parent span : Nat) : TraceAction → Trace.Event
  | begin _ => .opening .pass span parent (utf8 "scan")
  | point scope name detail extra => .inside scope span name detail extra
  | finish stats =>
      .closing .pass span parent (utf8 "scan") []
        [(utf8 "file", file), (utf8 "lines", Trace.count stats.lines),
          (utf8 "tokens", Trace.count stats.tokens), (utf8 "errors", Trace.count stats.errors)]

theorem scope_event (file : Bytes) (parent span : Nat) (a : TraceAction) :
    (a.event file parent span).scope = a.scope := by
  cases a <;> rfl

/-- Entries inside a span: points, and after them at most the end. -/
inductive Inside : List TraceAction → Prop
  | nil : Inside []
  | finish (stats : Stats) : Inside [.finish stats]
  | point (scope : Trace.Scope) (name detail : Bytes) (extra : Trace.Attributes)
      {as : List TraceAction} (h : Inside as) : Inside (.point scope name detail extra :: as)

section

variable {as bs : List TraceAction}

theorem Inside.admitted (level : Trace.Level) (h : Inside as) :
    Inside (admitted level as) := by
  induction h with
  | nil => exact nil
  | finish stats =>
      rw [LineLexer.admitted, List.filter_cons]
      split
      · exact finish stats
      · exact nil
  | point scope name detail extra h ih =>
      rw [LineLexer.admitted, List.filter_cons]
      split
      · exact point scope name detail extra ih
      · exact ih

theorem Inside.front (h : Inside as) : ∀ {bs : List TraceAction}, bs <+: as → Inside bs := by
  induction h with
  | nil =>
      intro bs hbs
      rw [List.prefix_nil.mp hbs]
      exact nil
  | finish stats =>
      intro bs hbs
      rcases List.prefix_cons_iff.mp hbs with rfl | ⟨cs, rfl, hcs⟩
      · exact nil
      · rw [List.prefix_nil.mp hcs]
        exact finish stats
  | point scope name detail extra h ih =>
      intro bs hbs
      rcases List.prefix_cons_iff.mp hbs with rfl | ⟨cs, rfl, hcs⟩
      · exact nil
      · exact point scope name detail extra (ih hcs)

theorem Inside.result (r : Result) (h : Inside as) : Inside (Delivery.resultAction r :: as) := by
  cases r with
  | token t => exact point _ _ _ _ h
  | error e => exact point _ _ _ _ h

theorem Inside.results (rs : List Result) (h : Inside as) :
    Inside (rs.map Delivery.resultAction ++ as) := by
  induction rs with
  | nil => exact h
  | cons r rs ih => exact ih.result r

theorem Inside.lines (lns : List ScannedLine) (h : Inside as) :
    Inside (lns.flatMap Delivery.lineActions ++ as) := by
  induction lns with
  | nil => exact h
  | cons ln lns ih =>
      rw [List.flatMap_cons, List.append_assoc]
      exact point _ _ _ _ (ih.results ln.results)

end

end TraceAction

theorem Delivery.inside_body (s : Delivery) (stats : Stats) :
    TraceAction.Inside (s.body ++ [.finish stats]) := by
  rw [body, List.append_assoc]
  exact ((TraceAction.Inside.finish stats).lines s.ahead).results s.pending

namespace Trace

namespace Recorder

open TraceAction

/-- The recorder follows the entries among signals and nothing else. -/
theorem follow_actions (t : Tracer) (parent : Nat) (signals : List Signal) :
    ∀ (k : Recorder) (span : Nat), k.follow t parent span signals =
      k.follow t parent span ((actionsOf signals).map .trace) := by
  induction signals with
  | nil =>
      intro k span
      rfl
  | cons signal signals ih =>
      intro k span
      cases signal with
      | finding d => exact ih k span
      | trace a =>
          show k.follow t parent span (.trace a :: signals) =
            k.follow t parent span (.trace a :: (actionsOf signals).map .trace)
          rw [follow, follow]
          split
          · rfl
          · exact ih _ _

section

variable {k k' : Recorder} {t : Tracer} {n parent span span' : Nat} {a : TraceAction} {e : Event}
  {es : List Event} {signals : List Signal} {ok : Bool}

/-- An entry that makes one event is followed by what the other entries make,
unless it cannot be delivered. -/
theorem follow_cons (hact : k.act t parent span a = (k', if ok then some span' else none))
    (h : k.EmitsAbove n t [e] k' ok)
    (hrest : ok = true → k'.EmitsAbove n t es (k'.follow t parent span' signals).1
      (k'.follow t parent span' signals).2) :
    k.EmitsAbove n t (e :: es) (k.follow t parent span (.trace a :: signals)).1
      (k.follow t parent span (.trace a :: signals)).2 := by
  rw [follow, hact]
  cases ok with
  | true =>
      have hmore := hrest rfl
      refine ⟨h.emits.trans hmore.emits, ?_⟩
      intro id hid
      exact (hmore.keeps id hid).trans (h.keeps id hid)
  | false => exact ⟨h.emits.failed es, h.keeps⟩

/-- The span of a scan that goes on. -/
def scanSpan (t : Tracer) (parent : Nat) (file : Bytes) : SpanRecord :=
  ⟨t, parent, .pass, utf8 "scan", [(utf8 "file", file)], []⟩

/-- The end of a scan tells the buffer and the counts. -/
theorem act_finish {file : Bytes} (hspan : k.span? span = some (scanSpan t parent file))
    (hn : n < span) (stats : Stats) :
    ∃ k' ok, k.act t parent span (.finish stats) = (k', if ok then some span else none) ∧
      k.EmitsAbove n t [(TraceAction.finish stats).event file parent span] k' ok := by
  obtain ⟨hsame₁, hspan₁, hothers₁⟩ :=
    setExtra_emits hspan rfl (utf8 "lines") (count stats.lines)
  obtain ⟨hsame₂, hspan₂, hothers₂⟩ :=
    setExtra_emits hspan₁ rfl (utf8 "tokens") (count stats.tokens)
  obtain ⟨hsame₃, hspan₃, hothers₃⟩ :=
    setExtra_emits hspan₂ rfl (utf8 "errors") (count stats.errors)
  obtain ⟨hemits, hothers⟩ := finish_emits hspan₃ []
  let counted := ((k.setExtra span (utf8 "lines") (count stats.lines)).setExtra span
    (utf8 "tokens") (count stats.tokens)).setExtra span (utf8 "errors") (count stats.errors)
  refine ⟨(counted.finish span []).1, (counted.finish span []).2, rfl, ?_, ?_⟩
  · exact (Emits.nil (hsame₃.trans (hsame₂.trans hsame₁))).trans hemits
  · intro id hid
    have hne : id ≠ span := by omega
    exact (hothers id hne).trans
      ((hothers₃ id hne).trans ((hothers₂ id hne).trans (hothers₁ id hne)))

/-- **Entries inside the span of a scan** make their events, by induction on the
entries: the span stays as it is until its end. -/
theorem follow_inside {file : Bytes} {as : List TraceAction} (has : Inside as) (hn : n < span)
    (hadmits : ∀ a ∈ as, t.level.admits a.scope = true) : ∀ {k : Recorder},
    k.span? span = some (scanSpan t parent file) →
    let followed := k.follow t parent span (as.map .trace)
    k.EmitsAbove n t (as.map (event file parent span)) followed.1 followed.2 := by
  induction has with
  | nil =>
      intro k hspan
      exact EmitsAbove.refl n k t
  | finish stats =>
      intro k hspan
      obtain ⟨k', ok, hact, h⟩ := act_finish hspan hn stats
      exact follow_cons hact h fun _ => EmitsAbove.refl n k' t
  | point scope name detail extra has ih =>
      intro k hspan
      have hscope : t.level.admits scope = true := hadmits _ List.mem_cons_self
      obtain ⟨hemits, hspans⟩ := spanPoint_emits hspan hscope name detail extra
      have hkeeps := span?_congr hspans
      let pointed := k.spanPoint span scope name detail extra
      have hact : k.act t parent span (.point scope name detail extra) =
        (pointed.1, if pointed.2 then some span else none) := rfl
      refine follow_cons hact ⟨hemits, fun id _ => hkeeps id⟩ fun _ => ih ?_ ?_
      · exact fun a ha => hadmits a (List.mem_cons_of_mem _ ha)
      · exact (hkeeps span).trans hspan

/-- **The entries of a scan** make one span with the next number. -/
theorem follow_begin {file : Bytes} {as : List TraceAction} (has : Inside as)
    (hadmits : ∀ a ∈ TraceAction.begin file :: as, t.level.admits a.scope = true) :
    let followed := k.follow t parent 0 ((TraceAction.begin file :: as).map .trace)
    k.EmitsAbove k.spans.size t
      ((TraceAction.begin file :: as).map (event file parent (k.spans.size + 1)))
      followed.1 followed.2 := by
  have hpass : t.level.admits .pass = true := hadmits _ List.mem_cons_self
  obtain ⟨ok, hemits, hid, hspans⟩ := begin_emits hpass k (utf8 "scan") parent
  generalize hbegun : k.begin t .pass (utf8 "scan") parent = begun at hemits hid hspans
  obtain ⟨k₁, id⟩ := begun
  obtain ⟨hspan, hkeeps⟩ := span?_push hspans
  subst hid
  cases ok with
  | false =>
      have hact : k.act t parent 0 (.begin file) = (k₁, none) := by
        rw [act, hbegun]
        rfl
      rw [List.map_cons, follow, hact]
      exact ⟨hemits.failed _, hkeeps⟩
  | true =>
      obtain ⟨hsame, hspan', hothers⟩ := setExtra_emits hspan rfl (utf8 "file") file
      have hact : k.act t parent 0 (.begin file) =
          (k₁.setExtra (k.spans.size + 1) (utf8 "file") file,
            if true then some (k.spans.size + 1) else none) := by
        rw [act, hbegun]
        rfl
      refine follow_cons hact ⟨hemits.trans (Emits.nil hsame), ?_⟩ fun _ => ?_
      · intro id hid
        have hne : id ≠ k.spans.size + 1 := by omega
        exact (hothers id hne).trans (hkeeps id hid)
      · exact follow_inside has (Nat.lt_succ_self _)
          (fun a ha => hadmits a (List.mem_cons_of_mem _ ha)) hspan'

end

end Recorder

end Trace

/-! ## The trace of a buffer -/

namespace File

/-- The point of a result. -/
def resultEvent (span : Nat) (r : Result) : Trace.Event :=
  .inside .token span (if r.error?.isSome then utf8 "error" else utf8 "token") r.text []

/-- The point of line `n`, and after it the points of its results. -/
def lineEvents (f : File) (span n : Nat) : List Trace.Event :=
  let results := (f.lineAt n).scan
  .inside .line span (utf8 "line") (Bytes.decimal n)
      [(utf8 "results", Bytes.decimal results.length)] ::
    results.map (resultEvent span)

/-- **The full trace** of a buffer that is scanned in the span `span` inside the
span `parent`. -/
def trace (f : File) (parent span : Nat) : List Trace.Event :=
  .opening .pass span parent (utf8 "scan") ::
    ((List.range' 1 f.lineCount).flatMap (f.lineEvents span) ++
      [.closing .pass span parent (utf8 "scan") []
        [(utf8 "file", f.name), (utf8 "lines", Bytes.decimal f.stats.lines),
          (utf8 "tokens", Bytes.decimal f.stats.tokens),
          (utf8 "errors", Bytes.decimal f.stats.errors)]])

/-- What is told of lines are points, of the line or of a result. -/
theorem point_of_mem_lineEvents {f : File} {span : Nat} {ns : List Nat} {e : Trace.Event}
    (h : e ∈ ns.flatMap (f.lineEvents span)) :
    e.kind = .point ∧ (e.scope = .line ∨ e.scope = .token) := by
  obtain ⟨n, -, hline⟩ := List.mem_flatMap.mp h
  rcases List.mem_cons.mp hline with rfl | hresult
  · exact ⟨rfl, Or.inl rfl⟩
  · obtain ⟨r, -, rfl⟩ := List.mem_map.mp hresult
    exact ⟨rfl, Or.inr rfl⟩

/-- The finest level admits the full trace. -/
theorem select_debug_trace (f : File) (parent span : Nat) :
    Trace.Level.select ⟨4⟩ (f.trace parent span) = f.trace parent span := by
  refine List.filter_eq_self.mpr ?_
  intro e he
  rcases List.mem_cons.mp he with rfl | he
  · rfl
  · rcases List.mem_append.mp he with he | he
    · rcases (point_of_mem_lineEvents he).2 with hscope | hscope
      · rw [hscope]
        rfl
      · rw [hscope]
        rfl
    · rw [List.mem_singleton.mp he]
      rfl

end File

namespace Delivery

theorem event_resultAction (file : Bytes) (parent span : Nat) (r : Result) :
    (resultAction r).event file parent span = File.resultEvent span r := by
  cases r <;> rfl

/-- What a new scanner has to tell are the events of the trace. -/
theorem map_event_outlook (f : File) (level : Trace.Level) (parent span : Nat) :
    (new f level).outlook.map (TraceAction.event f.name parent span) = f.trace parent span := by
  have hline (n : Nat) :
      (lineActions ⟨n, (f.lineAt n).scan⟩).map (TraceAction.event f.name parent span) =
        f.lineEvents span n := by
    rw [lineActions, List.map_cons, List.map_map]
    exact congrArg (_ :: ·) (List.map_congr_left fun r _ => event_resultAction _ _ _ r)
  have hbody : (new f level).body.map (TraceAction.event f.name parent span) =
      (List.range' 1 f.lineCount).flatMap (f.lineEvents span) := by
    show ((f.lines.map fun ln => ⟨ln.num, ln.scan⟩).flatMap lineActions).map _ = _
    rw [f.lines_eq_map, List.map_map, List.flatMap_map, List.map_flatMap]
    exact congrArg (List.flatMap · _) (funext hline)
  rw [outlook_new, List.map_cons, List.map_append, hbody]
  rfl

end Delivery

theorem TraceAction.select_map_event (level : Trace.Level) (file : Bytes) (parent span : Nat)
    (as : List TraceAction) :
    level.select (as.map (event file parent span)) =
      (admitted level as).map (event file parent span) := by
  rw [Trace.Level.select, List.filter_map]
  exact congrArg (fun p => (List.filter p as).map _)
    (funext fun a => congrArg level.admits (a.scope_event file parent span))

/-- **A scan that has told some of its entries** has given the tracer their events,
as far as its level admits them, in a span of its own. -/
theorem Trace.Recorder.follow_scan {f : File} {t : Tracer} {as : List TraceAction}
    {signals : List Signal} (has : as <+: (Delivery.new f t.level).outlook)
    (hactions : actionsOf signals = admitted t.level as) (k : Recorder) (parent : Nat) :
    let followed := k.follow t parent 0 signals
    k.EmitsAbove k.spans.size t
      (t.level.select (as.map (TraceAction.event f.name parent (k.spans.size + 1))))
      followed.1 followed.2 := by
  rw [follow_actions, hactions, TraceAction.select_map_event]
  cases as with
  | nil => exact EmitsAbove.refl _ k t
  | cons a as =>
      rw [Delivery.outlook_new] at has
      obtain ⟨rfl, hinner⟩ := List.cons_prefix_cons.mp has
      cases hpass : t.level.admits .pass with
      | true =>
          have hcons : admitted t.level (.begin f.name :: as) =
              .begin f.name :: admitted t.level as := by
            rw [admitted, List.filter_cons]
            exact if_pos hpass
          have hadmits : ∀ a ∈ admitted t.level (.begin f.name :: as),
              t.level.admits a.scope = true := by
            intro a ha
            exact (List.mem_filter.mp ha).2
          rw [hcons] at hadmits ⊢
          exact follow_begin (((Delivery.inside_body _ _).front hinner).admitted _) hadmits
      | false =>
          have hnil : admitted t.level (.begin f.name :: as) = [] := by
            refine List.map_eq_nil_iff.mp ((TraceAction.select_map_event t.level f.name parent
              (k.spans.size + 1) _).symm.trans ?_)
            exact Level.select_eq_nil hpass _
          rw [hnil]
          exact EmitsAbove.refl _ k t

/-- **The trace of a scan** that is pulled to its end, however it is pulled: the
tracer is given the full trace of the buffer less what its level does not admit,
which is also the trace at the finest level less that; and calls after the end add
nothing to it.  There is an end if the lines can be counted, and not otherwise. -/
theorem Scanner.pulls_traced (f : File) (t : Trace.Tracer) (k : Trace.Recorder) (parent : Nat)
    (calls later : List Pull) :
    let scanner := new f t.level
    let span := k.spans.size + 1
    ((∃ drained, scanner.pulls (calls ++ .collect :: later) = some drained) ↔ f.Scannable) ∧
      ∀ drained, scanner.pulls (calls ++ .collect :: later) = some drained →
        let followed := k.follow t parent 0 drained.2.2
        k.Emits t (t.level.select (f.trace parent span)) followed.1 followed.2 ∧
          drained.2.1.stats = f.stats ∧
          (∀ level : Trace.Level, level.select (f.trace parent span) =
            level.select (Trace.Level.select ⟨4⟩ (f.trace parent span))) ∧
          ∀ pulled, scanner.pulls calls = some pulled → pulled.2.1.done = true →
            k.follow t parent 0 pulled.2.2 = followed := by
  intro scanner span
  have hready := Delivery.ready_new f t.level
  have hfollows (cs : List Pull) (hf : f.Scannable) :
      Follows (scanner.pulls cs) (List.zipWith Pull.answer cs ((Delivery.new f t.level).pulls cs).1,
        ((Delivery.new f t.level).pulls cs).2) := by
    have hcs := pulls_follows cs (counts_new hf t.level)
    rw [shadow_new] at hcs
    exact hcs hready.settled
  have hscannable : ∀ {drained}, scanner.pulls (calls ++ .collect :: later) = some drained →
      f.Scannable := by
    intro drained hdrained
    refine Decidable.byContradiction fun hf => ?_
    rw [(endless_new hf t.level).pulls_collect] at hdrained
    cases hdrained
  refine ⟨⟨fun ⟨_, hdrained⟩ => hscannable hdrained, fun hf => ?_⟩, ?_⟩
  · obtain ⟨s, hs, -⟩ := hfollows _ hf
    exact ⟨_, hs⟩
  · intro drained hdrained followed
    have hf := hscannable hdrained
    obtain ⟨s, hs, -, hshadow⟩ := hfollows (calls ++ .collect :: later) hf
    obtain rfl := Option.some.inj (hs.symm.trans hdrained)
    refine ⟨?_, ?_, ?_, ?_⟩
    · rw [← Delivery.map_event_outlook f t.level]
      exact (Trace.Recorder.follow_scan List.prefix_rfl
        (Delivery.actionsOf_pulls_collect hready calls later) k parent).emits
    · have hstats := Delivery.stats_pulls_collect hready.settled calls later
      rw [← hshadow, Delivery.total_new] at hstats
      exact hstats
    · intro level
      rw [f.select_debug_trace]
    · intro pulled hpulled hdone
      obtain ⟨s', hs', -, hshadow'⟩ := hfollows calls hf
      obtain rfl := Option.some.inj (hs'.symm.trans hpulled)
      have hend : ((Delivery.new f t.level).pulls calls).2.1.done = true := hshadow' ▸ hdone
      have hsame := Delivery.pulls_after hready.settled hend (.collect :: later)
      show _ = k.follow t parent 0 ((Delivery.new f t.level).pulls _).2.2
      rw [hsame]

end LineLexer
