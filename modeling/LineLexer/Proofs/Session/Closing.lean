/-
# `Proofs.Session.Closing` — what a call leaves open

A call tells of beginnings and ends twice: the observer hears of phases, and the
tracer is given the events of spans.  Whether each beginning has its end, properly
nested, is decided by a stack (`Bracket.Closed`).

The span of a call ends on all its ways.  A phase is left open where the call is
given up inside it, and so is the span of a scan; this happens when a listing
cannot be opened, and when a scan is cancelled (`Session.tokenize_closes`).
-/
import LineLexer.Proofs.Session.Course

namespace LineLexer

/-! ## Beginnings and ends -/

/-- Something begins or ends. -/
inductive Bracket (α : Type)
  | opening (a : α)
  | closing (a : α)
deriving DecidableEq, Repr

namespace Bracket

/-- Whether each beginning has its end, if what is on the stack has begun before,
the innermost first. -/
def matched {α : Type} [DecidableEq α] : List α → List (Bracket α) → Bool
  | stack, [] => stack.isEmpty
  | stack, opening a :: bs => matched (a :: stack) bs
  | [], closing _ :: _ => false
  | b :: stack, closing a :: bs => a = b && matched stack bs

/-- Each beginning has its end, properly nested. -/
def Closed {α : Type} [DecidableEq α] (bs : List (Bracket α)) : Prop := matched [] bs = true

instance {α : Type} [DecidableEq α] (bs : List (Bracket α)) : Decidable (Closed bs) :=
  inferInstanceAs (Decidable (matched [] bs = true))

section

variable {α : Type} [DecidableEq α]

/-- What ends at once may be left out. -/
theorem matched_pair (stack : List α) (a : α) (bs : List (Bracket α)) :
    matched stack (opening a :: closing a :: bs) = matched stack bs := by
  show (decide (a = a) && matched stack bs) = matched stack bs
  rw [decide_eq_true rfl, Bool.true_and]

end

end Bracket

/-- The beginning or end of a span that an event tells of. -/
def Trace.Event.bracket? (e : Trace.Event) : Option (Bracket Nat) :=
  if e.kind = .spanBegin then some (.opening e.span)
  else if e.kind = .spanEnd then some (.closing e.span)
  else none

/-- The spans that events begin and end. -/
def Trace.spansOf (es : List Trace.Event) : List (Bracket Nat) :=
  es.filterMap Trace.Event.bracket?

/-- The beginning or end of a phase. -/
def Session.PhaseEvent.bracket (e : Session.PhaseEvent) : Bracket Bytes :=
  match e.status with
  | .start => .opening e.phase
  | .stop => .closing e.phase

/-- The phases that an observer is told of. -/
def Session.phasesOf (told : List Session.PhaseEvent) : List (Bracket Bytes) :=
  told.map Session.PhaseEvent.bracket

/-! ## Spans in a trace -/

namespace Trace

theorem spansOf_append (es es' : List Event) : spansOf (es ++ es') = spansOf es ++ spansOf es' :=
  List.filterMap_append

theorem spansOf_points {es : List Event} (h : ∀ e ∈ es, e.kind = .point) : spansOf es = [] := by
  refine List.filterMap_eq_nil_iff.mpr ?_
  intro e he
  rw [Event.bracket?, h e he]
  rfl

theorem spansOf_select_points {es : List Event} (h : ∀ e ∈ es, e.kind = .point) (level : Level) :
    spansOf (level.select es) = [] :=
  spansOf_points fun e he => h e (List.mem_filter.mp he).1

end Trace

namespace File

variable {f : File} {level : Trace.Level} {parent span : Nat}

/-- The trace of a buffer begins and ends one span. -/
theorem spansOf_trace (hpass : level.admits .pass = true) :
    Trace.spansOf (level.select (f.trace parent span)) = [.opening span, .closing span] := by
  rw [trace, Trace.Level.select_cons hpass, Trace.Level.select_append,
    Trace.Level.select_cons hpass, ← List.singleton_append, Trace.spansOf_append,
    Trace.spansOf_append, Trace.spansOf_select_points fun e he => (point_of_mem_lineEvents he).1]
  rfl

/-- A trace that breaks off leaves its span open. -/
theorem spansOf_brokenOff (hpass : level.admits .pass = true) {es : List Trace.Event}
    (h : Trace.BrokenOff es (f.trace parent span)) :
    Trace.spansOf (level.select es) = [.opening span] := by
  obtain ⟨hfront, hbegun, hunfinished⟩ := h
  cases es with
  | nil => exact absurd rfl hbegun
  | cons e es =>
      obtain ⟨rfl, hinner⟩ := List.cons_prefix_cons.mp hfront
      rcases List.prefix_concat_iff.mp hinner with hall | hpoints
      · exact absurd (congrArg (_ :: ·) hall) hunfinished
      · rw [Trace.Level.select_cons hpass, ← List.singleton_append, Trace.spansOf_append,
          Trace.spansOf_select_points fun e he => (point_of_mem_lineEvents (hpoints.subset he)).1]
        rfl

end File

/-! ## Phases and spans of a call -/

namespace Session

section

variable {file : Bytes} {whole es : List Trace.Event} {answer : Except Failure Outcome}
  {told : List PhaseEvent}

/-- The phase of a scan ends unless the scan is cancelled. -/
theorem ScanCourse.closed_phases (h : ScanCourse file whole answer told es) :
    Bracket.Closed (phasesOf told) ↔ ∃ out, answer = .ok out := by
  cases h with
  | @finished out _ =>
      exact ⟨fun _ => ⟨out, rfl⟩, fun _ => Bracket.matched_pair [] (utf8 "scan") []⟩
  | cancelled _ =>
      constructor
      · intro hclosed
        cases hclosed
      · rintro ⟨out, hout⟩
        cases hout

/-- The phases of a call end if it has a result. -/
theorem Course.closed_phases (h : Course file whole answer told es) :
    Bracket.Closed (phasesOf told) ↔ ∃ out, answer = .ok out := by
  cases h with
  | uncached h => exact h.closed_phases
  | missed h =>
      rw [← h.closed_phases]
      exact Bool.eq_iff_iff.mp (Bracket.matched_pair [] (utf8 "cache") _)
  | @found out _ =>
      exact ⟨fun _ => ⟨out, rfl⟩, fun _ => Bracket.matched_pair [] (utf8 "cache") []⟩
  | unreadable e =>
      constructor
      · intro hclosed
        cases hclosed
      · rintro ⟨out, hout⟩
        cases hout

end

section

variable {f : File} {es : List Trace.Event} {answer : Except Failure Outcome}
  {told : List PhaseEvent} {level : Trace.Level} {span : Nat}

/-- What is between the beginning and the end of the span of a call. -/
theorem spansOf_callTrace (hpass : level.admits .pass = true) (file : Bytes) (parent span : Nat)
    (cached : Bool) (es : List Trace.Event) :
    Trace.spansOf (level.select (callTrace file parent span cached es)) =
      .opening span :: (Trace.spansOf (level.select es) ++ [.closing span]) := by
  have hdriver := Trace.Level.admits_driver hpass
  rw [callTrace, Trace.Level.select_cons hdriver, Trace.Level.select_append,
    Trace.Level.select_cons hdriver, ← List.singleton_append, Trace.spansOf_append,
    Trace.spansOf_append]
  rfl

/-- The span of a scan ends unless the scan is cancelled. -/
theorem ScanCourse.spansOf_eq (h : ScanCourse f.name (f.trace span (span + 1)) answer told es)
    (hpass : level.admits .pass = true) :
    (answer = .error .cancelled ∧ Trace.spansOf (level.select es) = [.opening (span + 1)]) ∨
      (answer ≠ .error .cancelled ∧
        Trace.spansOf (level.select es) = [.opening (span + 1), .closing (span + 1)]) := by
  cases h with
  | finished _ => exact Or.inr ⟨by rintro ⟨⟩, File.spansOf_trace hpass⟩
  | cancelled h => exact Or.inl ⟨rfl, File.spansOf_brokenOff hpass h⟩

theorem Course.spansOf_eq (h : Course f.name (f.trace span (span + 1)) answer told es)
    (hpass : level.admits .pass = true) :
    (answer = .error .cancelled ∧ Trace.spansOf (level.select es) = [.opening (span + 1)]) ∨
      (answer ≠ .error .cancelled ∧ (Trace.spansOf (level.select es) = [] ∨
        Trace.spansOf (level.select es) = [.opening (span + 1), .closing (span + 1)])) := by
  cases h with
  | uncached h => exact (h.spansOf_eq hpass).imp_right fun ⟨hne, hspans⟩ => ⟨hne, Or.inr hspans⟩
  | missed h => exact (h.spansOf_eq hpass).imp_right fun ⟨hne, hspans⟩ => ⟨hne, Or.inr hspans⟩
  | found _ => exact Or.inr ⟨by rintro ⟨⟩, Or.inl rfl⟩
  | unreadable e => exact Or.inr ⟨by rintro ⟨⟩, Or.inl rfl⟩

/-- The spans of a call end unless its scan is cancelled. -/
theorem Course.closed_spans (h : Course f.name (f.trace span (span + 1)) answer told es)
    (hpass : level.admits .pass = true) (parent : Nat) (cached : Bool) :
    Bracket.Closed (Trace.spansOf (level.select (callTrace f.name parent span cached es))) ↔
      answer ≠ .error .cancelled := by
  rw [spansOf_callTrace hpass]
  rcases h.spansOf_eq hpass with ⟨hanswer, hspans⟩ | ⟨hanswer, hspans | hspans⟩
  · rw [hspans]
    constructor
    · intro hclosed
      have hne : (decide (span = span + 1) && _) = true := hclosed
      rw [decide_eq_false (Nat.ne_of_lt (Nat.lt_succ_self span))] at hne
      cases hne
    · intro hne
      exact absurd hanswer hne
  · rw [hspans]
    exact ⟨fun _ => hanswer, fun _ => Bracket.matched_pair [] span []⟩
  · rw [hspans]
    refine ⟨fun _ => hanswer, fun _ => ?_⟩
    exact (Bracket.matched_pair [span] (span + 1) _).trans (Bracket.matched_pair [] span [])

end

section

variable {fs : FileSet} {id : Nat} {o : Options} {level : Trace.Level} {parent span : Nat}
  {answer : Except Failure Outcome} {told : List PhaseEvent} {es : List Trace.Event}

theorem Record.closed_phases (h : Record fs id o level parent span answer told es) :
    Bracket.Closed (phasesOf told) ↔
      o.observed = false ∨ ∀ e, answer = .error e → e = .unknownFile id := by
  cases h with
  | unknown _ =>
      refine ⟨fun _ => Or.inr ?_, fun _ => rfl⟩
      intro e he
      exact (Except.error.inj he).symm
  | known _ h =>
      rw [Options.heard]
      cases ho : o.observed with
      | false => exact ⟨fun _ => Or.inl rfl, fun _ => rfl⟩
      | true =>
          refine h.closed_phases.trans ⟨?_, ?_⟩
          · rintro ⟨out, rfl⟩
            exact Or.inr fun e he => by cases he
          · rintro (hfalse | herror)
            · cases hfalse
            · cases answer with
              | ok out => exact ⟨out, rfl⟩
              | error e =>
                  obtain rfl := herror e rfl
                  exact absurd h Course.not_unknown

theorem Record.closed_spans (h : Record fs id o level parent span answer told es) :
    Bracket.Closed (Trace.spansOf es) ↔
      level.admits .pass = false ∨ answer ≠ .error .cancelled := by
  cases h with
  | unknown _ => exact ⟨fun _ => Or.inr (by rintro ⟨⟩), fun _ => rfl⟩
  | known _ h =>
      cases hpass : level.admits .pass with
      | false =>
          rw [Trace.Level.select_eq_nil hpass]
          exact ⟨fun _ => Or.inl rfl, fun _ => rfl⟩
      | true =>
          refine (h.closed_spans hpass parent (isCached answer)).trans ⟨Or.inr, ?_⟩
          rintro (hfalse | hne)
          · cases hfalse
          · exact hne

end

/-- **What a call leaves open.**  What the observer hears and what the tracer is
given is known from the answer.  All phases end if the call has a result, the
buffer is unknown, or nobody listens, and only then; all spans end unless a scan
that is recorded is cancelled. -/
theorem tokenize_closes (fs : FileSet) (id : Nat) (o : Options) (s : State) (c : Call)
    (ht : (traced c o).context.tracer.Complete) :
    let t := (traced c o).context.tracer
    let after := tokenize fs id o s c
    ∃ told es,
      after.1.events.toList = s.events.toList ++ told ∧
      s.recorder.Emits t es after.1.recorder true ∧
      Record fs id o t.level c.context.span (s.recorder.spans.size + 1) after.2.2 told es ∧
      (Bracket.Closed (phasesOf told) ↔
        o.observed = false ∨ ∀ e, after.2.2 = .error e → e = .unknownFile id) ∧
      (Bracket.Closed (Trace.spansOf es) ↔
        t.level.admits .pass = false ∨ after.2.2 ≠ .error .cancelled) := by
  intro t after
  obtain ⟨told, es, hevents, hemits, h⟩ := tokenize_record fs id o s c ht
  exact ⟨told, es, hevents, hemits, h, h.closed_phases, h.closed_spans⟩

/-- A call that loses patience after one result, with all sinks there. -/
theorem tokenize_closes_impatient :
    let t : Trace.Tracer := ⟨.multi, ⟨4⟩, [some 0, some 1]⟩
    let k : Trace.Recorder :=
      { start := 0, sinks := #[.ring ⟨⟨4⟩, 16, #[], 0⟩, .ring ⟨⟨3⟩, 2, #[], 0⟩] }
    let fs : FileSet := ⟨#[File.store 0 (utf8 "a") (utf8 "! x ?") 0]⟩
    let after := tokenize fs 0 { tracer? := some t, observed := true }
      { recorder := k, cache? := some {} } { patience := some 1 }
    t.Complete ∧ ∃ told es, after.1.events.toList = told ∧ k.Emits t es after.1.recorder true ∧
      ¬ Bracket.Closed (phasesOf told) ∧ ¬ Bracket.Closed (Trace.spansOf es) := by
  intro t k fs after
  have ht : t.Complete := by
    intro outlet houtlet hnone
    subst hnone
    revert houtlet
    decide
  have hanswer : after.2.2 = .error .cancelled := rfl
  obtain ⟨told, es, hevents, hemits, -, hphases, hspans⟩ :=
    tokenize_closes fs 0 { tracer? := some t, observed := true }
      { recorder := k, cache? := some {} } { patience := some 1 } ht
  refine ⟨ht, told, es, hevents, hemits, ?_, ?_⟩
  · rw [hphases]
    rintro (hunheard | hunknown)
    · cases hunheard
    · cases hunknown .cancelled hanswer
  · rw [hspans]
    rintro (hunrecorded | hne)
    · cases hunrecorded
    · exact hne hanswer

/-- A cancelled call leaves the phase of its scan open, and the span of its scan. -/
theorem tokenize_leaves_open :
    let t : Trace.Tracer := ⟨.ring, ⟨2⟩, [some 0]⟩
    let k : Trace.Recorder := { start := 0, sinks := #[.ring ⟨⟨2⟩, 16, #[], 0⟩] }
    let fs : FileSet := ⟨#[File.store 0 (utf8 "a") (utf8 "x") 0]⟩
    let after := tokenize fs 0 { tracer? := some t, observed := true } { recorder := k }
      { cancelled := true }
    after.1.events.toList = [⟨utf8 "a", utf8 "scan", .start⟩] ∧
      ¬ Bracket.Closed (phasesOf after.1.events.toList) ∧
      ∃ r, after.1.recorder.ring? t = some r ∧
        Trace.spansOf r.snapshot = [.opening 1, .opening 2, .closing 1] ∧
        ¬ Bracket.Closed (Trace.spansOf r.snapshot) :=
  ⟨by decide, by decide, _, rfl, by decide, by decide⟩

end Session

end LineLexer
