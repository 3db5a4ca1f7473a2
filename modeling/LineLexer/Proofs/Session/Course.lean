/-
# `Proofs.Session.Course` — the ways through a call

A call that tokenizes a buffer has several ends: the scan is complete or found
cancelled, and with a cache the listing was there, was not, or could not be used.
The ways are a relation between the answer, what the observer is told, and the
events of the scan (`Session.Course`).  Around them is the span of the call, which
begins and ends on all of them (`Session.callTrace`).

Every call takes one of its ways, and tells nothing else
(`Session.tokenize_record`).
-/
import LineLexer.Proofs.Scan.Tracing
import LineLexer.Session.Tokenize

namespace LineLexer

/-! ## Scans that break off -/

namespace Trace

/-- The front of a trace, which has begun and has not come to its end. -/
structure BrokenOff (es whole : List Event) : Prop where
  front : es <+: whole
  begun : es ≠ []
  unfinished : es ≠ whole

end Trace

/-- A scan that is left with results to come has told the front of its trace. -/
theorem Delivery.take_brokenOff (f : File) (level : Trace.Level) {n : Nat}
    (hlt : n < f.results.length) (parent span : Nat) :
    ∃ as, as <+: (new f level).outlook ∧
      actionsOf ((new f level).take (n + 1)).2.2 = admitted level as ∧
      Trace.BrokenOff (as.map (TraceAction.event f.name parent span)) (f.trace parent span) := by
  rw [← rest_new f level] at hlt
  obtain ⟨as, houtlook, hactions⟩ := take_unfinished (ready_new f level) rfl hlt
  have hfront : as <+: (new f level).outlook := ⟨_, houtlook.symm⟩
  refine ⟨as, hfront, hactions, ?_, ?_, ?_⟩
  · rw [← map_event_outlook f level]
    exact hfront.map _
  · intro hnil
    rw [List.map_eq_nil_iff.mp hnil, outlook_new] at houtlook
    have hinside := inside_body ((new f level).take (n + 1)).2.1
      ((new f level).take (n + 1)).2.1.total
    rw [← List.nil_append (_ ++ _), ← houtlook] at hinside
    cases hinside
  · intro hwhole
    rw [← map_event_outlook f level] at hwhole
    have hlength := congrArg List.length hwhole
    rw [List.length_map, List.length_map, houtlook, List.length_append, List.length_append,
      List.length_singleton] at hlength
    omega

/-! ## The ways through a call -/

namespace Session

/-- The ways through the phase that scans a buffer with the trace `whole`: the
answer, what the observer is told, and the events of the scan. -/
inductive ScanCourse (file : Bytes) (whole : List Trace.Event) :
    Except Failure Outcome → List PhaseEvent → List Trace.Event → Prop
  | finished {out : Outcome} (h : out.cached = false) :
      ScanCourse file whole (.ok out)
        [⟨file, utf8 "scan", .start⟩, ⟨file, utf8 "scan", .stop⟩] whole
  | cancelled {es : List Trace.Event} (h : Trace.BrokenOff es whole) :
      ScanCourse file whole (.error .cancelled) [⟨file, utf8 "scan", .start⟩] es

/-- The ways through the phases of a call: without a cache, or with one that has
no listing, one that can be used, or one that cannot. -/
inductive Course (file : Bytes) (whole : List Trace.Event) :
    Except Failure Outcome → List PhaseEvent → List Trace.Event → Prop
  | uncached {answer : Except Failure Outcome} {told : List PhaseEvent} {es : List Trace.Event}
      (h : ScanCourse file whole answer told es) : Course file whole answer told es
  | missed {answer : Except Failure Outcome} {told : List PhaseEvent} {es : List Trace.Event}
      (h : ScanCourse file whole answer told es) :
      Course file whole answer
        (⟨file, utf8 "cache", .start⟩ :: ⟨file, utf8 "cache", .stop⟩ :: told) es
  | found {out : Outcome} (h : out.cached = true) :
      Course file whole (.ok out)
        [⟨file, utf8 "cache", .start⟩, ⟨file, utf8 "cache", .stop⟩] []
  | unreadable (e : CacheError) :
      Course file whole (.error (.cache file e)) [⟨file, utf8 "cache", .start⟩] []

/-- Whether the cache had the answer. -/
def isCached : Except Failure Outcome → Bool
  | .ok out => out.cached
  | .error _ => false

/-- The events of a call inside the span `parent`: those of its scan stand between
the beginning and the end of its own span. -/
def callTrace (file : Bytes) (parent span : Nat) (cached : Bool) (es : List Trace.Event) :
    List Trace.Event :=
  .opening .driver span parent (utf8 "tokenize") ::
    (es ++ [.closing .driver span parent (utf8 "tokenize") []
      ((utf8 "file", file) :: if cached then [(utf8 "cached", utf8 "true")] else [])])

section

variable {file : Bytes} {whole es : List Trace.Event} {answer : Except Failure Outcome}
  {told : List PhaseEvent}

/-- The ways are the same whichever span the scan has. -/
theorem ScanCourse.renumbered (h : ScanCourse file whole answer told es) (f : File)
    (parent span : Nat) : ∃ es', ScanCourse file (f.trace parent span) answer told es' := by
  cases h with
  | finished hfresh => exact ⟨_, .finished hfresh⟩
  | cancelled _ =>
      refine ⟨[.opening .pass span parent (utf8 "scan")], .cancelled ⟨⟨_, rfl⟩, ?_, ?_⟩⟩
      · exact List.cons_ne_nil _ _
      · intro heq
        have hnil := (List.cons.inj heq).2
        exact absurd hnil.symm (List.append_ne_nil_of_right_ne_nil _ (List.cons_ne_nil _ _))

theorem Course.renumbered (h : Course file whole answer told es) (f : File) (parent span : Nat) :
    ∃ es', Course file (f.trace parent span) answer told es' := by
  cases h with
  | uncached h =>
      obtain ⟨es', h'⟩ := h.renumbered f parent span
      exact ⟨es', .uncached h'⟩
  | missed h =>
      obtain ⟨es', h'⟩ := h.renumbered f parent span
      exact ⟨es', .missed h'⟩
  | found hcached => exact ⟨[], .found hcached⟩
  | unreadable e => exact ⟨[], .unreadable e⟩

/-- No way through the phases has an unknown buffer for an answer. -/
theorem Course.not_unknown {id : Nat} : ¬ Course file whole (.error (.unknownFile id)) told es := by
  intro h
  cases h with
  | uncached h => cases h
  | missed h => cases h

/-- Nothing is noted about a cache when the buffer is scanned. -/
theorem ScanCourse.noted_eq (h : ScanCourse file whole answer told es) (noted k : Trace.Recorder) :
    (if isCached answer then noted else k) = k := by
  have hfresh : isCached answer = false := by
    cases h with
    | finished hfresh => exact hfresh
    | cancelled _ => rfl
  rw [hfresh]
  rfl

end

/-! ## Phases -/

/-- What an observer hears of what it is told. -/
def Options.heard (o : Options) (told : List PhaseEvent) : List PhaseEvent :=
  if o.observed then told else []

theorem Options.heard_append (o : Options) (told more : List PhaseEvent) :
    o.heard (told ++ more) = o.heard told ++ o.heard more := by
  rw [heard, heard, heard]
  cases o.observed <;> rfl

/-- An announcement is heard, and that is all that can be seen of it. -/
theorem announce_told (s : State) (c : Call) (o : Options) (e : PhaseEvent) :
    let after := announce s c o e
    after.1.events.toList = s.events.toList ++ o.heard [e] ∧ after.1.recorder = s.recorder ∧
      after.2.context = c.context := by
  rw [announce, Options.heard]
  cases o.observed with
  | true => exact ⟨Array.toList_push, rfl, rfl⟩
  | false => exact ⟨(List.append_nil _).symm, rfl, rfl⟩

/-- A phase that begins and ends, with a look at the cache in between. -/
theorem announce_both (s : State) (c : Call) (o : Options) (file phase : Bytes)
    (cache? : Option Cache) :
    let started := announce s c o ⟨file, phase, .start⟩
    let stopped := announce { started.1 with cache? } started.2 o ⟨file, phase, .stop⟩
    stopped.1.events.toList =
        s.events.toList ++ o.heard [⟨file, phase, .start⟩, ⟨file, phase, .stop⟩] ∧
      stopped.1.recorder = s.recorder ∧ stopped.2.context = c.context := by
  intro started stopped
  obtain ⟨hevents, hrecorder, hcontext⟩ := announce_told s c o ⟨file, phase, .start⟩
  obtain ⟨hevents', hrecorder', hcontext'⟩ :=
    announce_told { started.1 with cache? } started.2 o ⟨file, phase, .stop⟩
  refine ⟨?_, hrecorder'.trans hrecorder, hcontext'.trans hcontext⟩
  have hsplit := o.heard_append [⟨file, phase, .start⟩] [⟨file, phase, .stop⟩]
  rw [List.singleton_append] at hsplit
  rw [hsplit, ← List.append_assoc, ← hevents]
  exact hevents'

theorem Outcome.cached_withTimings (out : Outcome) (o : Options) :
    (out.withTimings o).cached = out.cached := by
  rw [withTimings]
  split <;> rfl

theorem Call.limit_lt {c : Call} {n : Nat} (h : c.breaksOff n = true) : c.limit.getD 0 < n := by
  rw [breaksOff] at h
  cases hlimit : c.limit with
  | none =>
      rw [hlimit] at h
      cases h
  | some m =>
      rw [hlimit] at h
      exact of_decide_eq_true h

/-- A scan gives the tracer the trace of the buffer, or the front of it if the call
is found cancelled. -/
theorem scanBuffer_emits (f : File) (o : Options) (k : Trace.Recorder) (c : Call) :
    let t := c.context.tracer
    let whole := f.trace c.context.span (k.spans.size + 1)
    let scanned := scanBuffer f o k c
    ∃ es ok, k.EmitsAbove k.spans.size t (t.level.select es) scanned.1 ok ∧
      ((scanned.2.isSome = true ∧ es = whole) ∨
        (scanned.2 = none ∧ Trace.BrokenOff es whole)) := by
  intro t whole scanned
  have hready := Delivery.ready_new f t.level
  cases hbreaks : c.breaksOff (Delivery.new f t.level).remaining with
  | true =>
      have hscanned : scanned = ((k.follow t c.context.span 0
          ((Delivery.new f t.level).take (c.limit.getD 0 + 1)).2.2).1, none) := if_pos hbreaks
      rw [Delivery.remaining_eq, Delivery.rest_new] at hbreaks
      obtain ⟨as, hfront, hactions, hbroken⟩ :=
        Delivery.take_brokenOff f t.level (Call.limit_lt hbreaks) c.context.span (k.spans.size + 1)
      rw [hscanned]
      exact ⟨_, _, Trace.Recorder.follow_scan hfront hactions k c.context.span,
        Or.inr ⟨rfl, hbroken⟩⟩
  | false =>
      let drained := (Delivery.new f t.level).drain
      have hscanned : scanned = ((k.follow t c.context.span 0 drained.2.2).1,
          some (drained.1, drained.2.1.stats,
            ((Collector.new o.maxDiagnostics o.dedup).follow drained.2.2).bag)) := by
        refine if_neg ?_
        rw [hbreaks]
        exact Bool.false_ne_true
      have hactions : actionsOf drained.2.2 = admitted t.level (Delivery.new f t.level).outlook :=
        (Delivery.all_tells hready none).1.actions_of_done (Delivery.done_drain hready.settled)
      rw [hscanned]
      refine ⟨whole, (k.follow t c.context.span 0 drained.2.2).2, ?_, Or.inl ⟨rfl, rfl⟩⟩
      show k.EmitsAbove _ _ (t.level.select (f.trace _ _)) _ _
      rw [← Delivery.map_event_outlook f t.level]
      exact Trace.Recorder.follow_scan List.prefix_rfl hactions k c.context.span

section

variable (f : File) (o : Options) (s : State) (c : Call)

/-- The phase of a scan takes one of its ways. -/
theorem scanPhase_course (watch : Timing.Stopwatch) :
    let t := c.context.tracer
    let after := scanPhase f o s c watch
    ∃ told es ok,
      ScanCourse f.name (f.trace c.context.span (s.recorder.spans.size + 1)) after.2.2 told es ∧
      after.1.events.toList = s.events.toList ++ o.heard told ∧
      s.recorder.EmitsAbove s.recorder.spans.size t (t.level.select es) after.1.recorder ok := by
  obtain ⟨hevents, hrecorder, hcontext⟩ := announce_told s c o ⟨f.name, utf8 "scan", .start⟩
  rw [scanPhase]
  generalize announce s c o ⟨f.name, utf8 "scan", .start⟩ = started at hevents hrecorder hcontext ⊢
  obtain ⟨s₁, c₁⟩ := started
  dsimp only at hevents hrecorder hcontext ⊢
  obtain ⟨es, ok, hemits, hway⟩ := scanBuffer_emits f o s₁.recorder c₁
  rw [hcontext] at hemits hway
  generalize scanBuffer f o s₁.recorder c₁ = scanned at hemits hway ⊢
  obtain ⟨k, found⟩ := scanned
  rw [hrecorder] at hemits hway
  rcases hway with ⟨hsome, rfl⟩ | ⟨rfl, hbroken⟩
  · obtain ⟨⟨results, stats, bag⟩, rfl⟩ := Option.isSome_iff_exists.mp hsome
    obtain ⟨hevents', hrecorder', -⟩ :=
      announce_told { s₁ with recorder := k } c₁ o ⟨f.name, utf8 "scan", .stop⟩
    refine ⟨[_] ++ [_], _, ok, .finished (Outcome.cached_withTimings _ o), ?_, ?_⟩
    · rw [o.heard_append, ← List.append_assoc, ← hevents]
      exact hevents'
    · dsimp only at hrecorder' ⊢
      rw [hrecorder']
      exact hemits
  · exact ⟨_, es, ok, .cancelled hbroken, hevents, hemits⟩

/-- **The phases of a call** take one of their ways.  If the cache had the answer,
this is noted with the span of the call, which is otherwise left alone. -/
theorem phases_course (span : Nat) :
    let t := c.context.tracer
    let after := phases f o span s c
    ∃ told es k ok,
      Course f.name (f.trace c.context.span (s.recorder.spans.size + 1)) after.2.2 told es ∧
      after.1.events.toList = s.events.toList ++ o.heard told ∧
      s.recorder.EmitsAbove s.recorder.spans.size t (t.level.select es) k ok ∧
      after.1.recorder =
        if isCached after.2.2 then k.setExtra span (utf8 "cached") (utf8 "true") else k := by
  rw [phases]
  cases s.cache? with
  | none =>
      obtain ⟨told, es, ok, hcourse, hevents, hemits⟩ := scanPhase_course f o s c { clock := [0] }
      exact ⟨told, es, _, ok, .uncached hcourse, hevents, hemits, (hcourse.noted_eq _ _).symm⟩
  | some cache =>
      have hnothing := Trace.Recorder.EmitsAbove.refl s.recorder.spans.size s.recorder
        c.context.tracer
      have hcached (out : Outcome) (h : out.cached = true) :
          isCached (.ok (out.withTimings o)) = true := (out.cached_withTimings o).trans h
      obtain ⟨hevents, hrecorder, -⟩ := announce_told s c o ⟨f.name, utf8 "cache", .start⟩
      obtain ⟨hevents', hrecorder', hcontext'⟩ :=
        announce_both s c o f.name (utf8 "cache") (some (cache.get f).1)
      dsimp only at hevents hrecorder hevents' hrecorder' hcontext' ⊢
      generalize announce s c o ⟨f.name, utf8 "cache", .start⟩ = started
        at hevents hrecorder hevents' hrecorder' hcontext' ⊢
      generalize announce { started.1 with cache? := some (cache.get f).1 } started.2 o
        ⟨f.name, utf8 "cache", .stop⟩ = stopped at hevents' hrecorder' hcontext' ⊢
      rcases (cache.get f).2 with e | _ | ⟨ts, ds⟩
      · exact ⟨_, [], s.recorder, true, .unreadable e, hevents, hnothing, hrecorder⟩
      · generalize Timing.Stopwatch.stop _ _ (utf8 "hit=false") = watch
        obtain ⟨told, es, ok, hcourse, hscanned, hemits⟩ :=
          scanPhase_course f o stopped.1 stopped.2 watch
        rw [hevents', List.append_assoc, ← o.heard_append] at hscanned
        rw [hrecorder', hcontext'] at hcourse hemits
        exact ⟨_, es, _, ok, .missed hcourse, hscanned, hemits, (hcourse.noted_eq _ _).symm⟩
      · refine ⟨_, [], s.recorder, true, .found (hcached _ rfl), hevents', hnothing, ?_⟩
        dsimp only
        rw [hcached _ rfl, hrecorder']
        rfl

end

/-! ## Calls -/

/-- A call that is recorded runs between the beginning and the end of a span with
the next number. -/
theorem withinSpan_recorded {α : Type} (s : State) {c : Call}
    (ht : c.context.tracer.Complete) (hdriver : c.context.tracer.level.admits .driver = true)
    (name key value : Bytes) (body : Nat → State → Call → State × Call × α) :
    let t := c.context.tracer
    let span := s.recorder.spans.size + 1
    ∃ k : Trace.Recorder,
      s.recorder.Emits t [.opening .driver span c.context.span name] k true ∧
      k.spans.size = span ∧
      k.span? span = some ⟨t, c.context.span, .driver, name, [(key, value)], []⟩ ∧
      withinSpan s c name key value body =
        let after := body span { s with recorder := k } { c with context.span := span }
        ({ after.1 with recorder := (after.1.recorder.finish span []).1 },
          { after.2.1 with context := c.context }, after.2.2) := by
  intro t span
  obtain ⟨ok, hemits, hid, hspans⟩ :=
    Trace.Recorder.begin_emits hdriver s.recorder name c.context.span
  obtain rfl := hemits.ok_eq ht
  generalize hbegun : s.recorder.begin c.context.tracer .driver name c.context.span = begun
    at hemits hid hspans
  obtain ⟨k, id⟩ := begun
  obtain ⟨hspan, -⟩ := Trace.Recorder.span?_push hspans
  obtain ⟨hsame, hspan', -⟩ := Trace.Recorder.setExtra_emits hspan rfl key value
  have hsize : (k.setExtra span key value).spans.size = span := by
    rw [Trace.Recorder.size_setExtra hspan rfl, hspans, Array.size_push]
  refine ⟨k.setExtra span key value, hemits.trans (.nil hsame), hsize, hspan', ?_⟩
  subst hid
  rw [withinSpan, Trace.Context.startSpan, hbegun]
  rfl

/-- A call that is not recorded has no span. -/
theorem withinSpan_unrecorded {α : Type} (s : State) {c : Call}
    (hdriver : c.context.tracer.level.admits .driver = false)
    (name key value : Bytes) (body : Nat → State → Call → State × Call × α) :
    withinSpan s c name key value body =
      let after := body 0 s c
      (after.1, { after.2.1 with context := c.context }, after.2.2) := by
  rw [withinSpan, Trace.Context.startSpan, Trace.Recorder.begin, hdriver]
  rfl

/-- What calls for the buffer `id` tell, by their answer, inside the span `parent`
and with `span` as the next number of a span. -/
inductive Record (fs : FileSet) (id : Nat) (o : Options) (level : Trace.Level)
    (parent span : Nat) : Except Failure Outcome → List PhaseEvent → List Trace.Event → Prop
  | unknown (h : fs.get? id = none) :
      Record fs id o level parent span (.error (.unknownFile id)) [] []
  | known {f : File} {answer : Except Failure Outcome} {told : List PhaseEvent}
      {es : List Trace.Event} (hf : fs.get? id = some f)
      (h : Course f.name (f.trace span (span + 1)) answer told es) :
      Record fs id o level parent span answer (o.heard told)
        (level.select (callTrace f.name parent span (isCached answer) es))

/-- What is noted with the span of a call before it ends. -/
theorem noted_emits {k : Trace.Recorder} {span parent : Nat} {t : Trace.Tracer} {name file : Bytes}
    (hspan : k.span? span = some ⟨t, parent, .driver, name, [(utf8 "file", file)], []⟩)
    (cached : Bool) :
    let noted := if cached then k.setExtra span (utf8 "cached") (utf8 "true") else k
    noted.visible = k.visible ∧
      noted.span? span = some ⟨t, parent, .driver, name,
        (utf8 "file", file) :: if cached then [(utf8 "cached", utf8 "true")] else [], []⟩ := by
  cases cached with
  | false => exact ⟨rfl, hspan⟩
  | true =>
      obtain ⟨hsame, hspan', -⟩ :=
        Trace.Recorder.setExtra_emits hspan rfl (utf8 "cached") (utf8 "true")
      exact ⟨hsame, hspan'⟩

theorem traced_span (c : Call) (o : Options) : (traced c o).context.span = c.context.span := by
  rw [traced]
  split <;> rfl

section

variable {fs : FileSet} {id : Nat} {o : Options} {c : Call} {f : File}

/-- A call that is not recorded gives the tracer nothing. -/
theorem phases_unrecorded (hf : fs.get? id = some f) (s : State)
    (hpass : c.context.tracer.level.admits .pass = false) (parent span : Nat) :
    let after := phases f o 0 s c
    ∃ told es,
      after.1.events.toList = s.events.toList ++ told ∧
      s.recorder.Emits c.context.tracer es after.1.recorder true ∧
      Record fs id o c.context.tracer.level parent span after.2.2 told es := by
  obtain ⟨told, es, k, ok, hcourse, hevents, habove, hrecorder⟩ := phases_course f o s c 0
  obtain ⟨es', hcourse'⟩ := hcourse.renumbered f span (span + 1)
  have hsilent := Trace.Level.select_eq_nil hpass
  -- a span without a number takes no notes
  have hkept : (phases f o 0 s c).1.recorder = k := by
    rw [hrecorder]
    split <;> rfl
  refine ⟨_, _, hevents, ?_, .known hf hcourse'⟩
  have hemits := habove.emits
  rw [hsilent] at hemits ⊢
  have hok : true = ok := congrArg Prod.snd hemits
  rw [hkept, hok]
  exact hemits

/-- A call that is recorded gives the tracer the events of its scan, between the
beginning and the end of its span. -/
theorem phases_recorded (hf : fs.get? id = some f) (s : State)
    (ht : c.context.tracer.Complete) (hpass : c.context.tracer.level.admits .pass = true) :
    let span := s.recorder.spans.size + 1
    let after := withinSpan s c (utf8 "tokenize") (utf8 "file") f.name (phases f o)
    ∃ told es,
      after.1.events.toList = s.events.toList ++ told ∧
      s.recorder.Emits c.context.tracer es after.1.recorder true ∧
      Record fs id o c.context.tracer.level c.context.span span after.2.2 told es := by
  intro span
  have hdriver := Trace.Level.admits_driver hpass
  obtain ⟨k, hopened, hsize, hspan, hwithin⟩ :=
    withinSpan_recorded s ht hdriver (utf8 "tokenize") (utf8 "file") f.name (phases f o)
  obtain ⟨told, es, k₁, ok, hcourse, hevents, habove, hrecorder⟩ :=
    phases_course f o { s with recorder := k } { c with context.span := span } span
  dsimp only at hcourse hevents habove
  rw [hsize] at hcourse habove
  obtain rfl := habove.emits.ok_eq ht
  obtain ⟨hsame, hnoted⟩ := noted_emits ((habove.keeps span (Nat.le_refl _)).trans hspan)
    (isCached (phases f o span { s with recorder := k } { c with context.span := span }).2.2)
  rw [← hrecorder] at hsame hnoted
  obtain ⟨hclosed, -⟩ := Trace.Recorder.finish_emits hnoted []
  obtain hok := hclosed.ok_eq ht
  rw [hwithin]
  refine ⟨_, _, hevents, ?_, .known hf hcourse⟩
  rw [callTrace, Trace.Level.select_cons hdriver, Trace.Level.select_append,
    Trace.Level.select_cons hdriver]
  rw [hok] at hclosed
  exact hopened.trans (habove.emits.trans ((Trace.Recorder.Emits.nil hsame).trans hclosed))

end

/-- **A call** tells what its answer says. -/
theorem tokenize_record (fs : FileSet) (id : Nat) (o : Options) (s : State) (c : Call)
    (ht : (traced c o).context.tracer.Complete) :
    let t := (traced c o).context.tracer
    let after := tokenize fs id o s c
    ∃ told es,
      after.1.events.toList = s.events.toList ++ told ∧
      s.recorder.Emits t es after.1.recorder true ∧
      Record fs id o t.level c.context.span (s.recorder.spans.size + 1) after.2.2 told es := by
  intro t
  rw [tokenize]
  cases hf : fs.get? id with
  | none => exact ⟨[], [], (List.append_nil _).symm, .nil rfl, .unknown hf⟩
  | some f =>
      dsimp only
      rw [← traced_span c o]
      cases hpass : t.level.admits .pass with
      | true => exact phases_recorded hf s ht hpass
      | false =>
          rw [withinSpan_unrecorded s (Trace.Level.admits_eq_false hpass .driver)]
          exact phases_unrecorded hf s hpass _ _

end Session

end LineLexer
