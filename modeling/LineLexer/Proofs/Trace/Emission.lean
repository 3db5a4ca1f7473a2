/-
# `Proofs.Trace.Emission` — what a tracer is given

The recorder keeps spans by number for those who hold them; what has happened to
them is seen only in the events that reach sinks and writers
(`Recorder.visible`).  `Recorder.give` hands a tracer events, one after the
other.  Each operation on spans is, as far as can be seen, the handing over of
events that can be written down beforehand (`Recorder.Emits`), and operations one
after the other hand over their events one after the other
(`Recorder.Emits.trans`).

A tracer may lack a sink.  Nothing is handed over behind an event that could not
be delivered, so a failure is final (`Recorder.Emits.failed`).
-/
import LineLexer.Trace.Recorder

namespace LineLexer.Trace

/-- No sink of the tracer is missing. -/
def Tracer.Complete (t : Tracer) : Prop := ∀ outlet ∈ t.outlets, outlet ≠ none

namespace Event

/-- A span begins. -/
def opening (scope : Scope) (span parent : Nat) (name : Bytes) : Event :=
  ⟨none, 0, .spanBegin, scope, span, parent, name, [], []⟩

/-- Something happens inside a span. -/
def inside (scope : Scope) (span : Nat) (name detail : Bytes) (extra : Attributes) : Event :=
  ⟨none, 0, .point, scope, 0, span, name, detail, extra⟩

/-- A span ends, and tells what was noted with it. -/
def closing (scope : Scope) (span parent : Nat) (name detail : Bytes) (extra : Attributes) :
    Event :=
  ⟨none, 0, .spanEnd, scope, span, parent, name, detail, extra⟩

end Event

/-- The events that a level admits. -/
def Level.select (level : Level) (es : List Event) : List Event :=
  es.filter fun e => level.admits e.scope

namespace Level

variable {level : Level}

theorem select_append (es es' : List Event) :
    level.select (es ++ es') = level.select es ++ level.select es' :=
  List.filter_append ..

theorem select_cons {e : Event} (h : level.admits e.scope = true) (es : List Event) :
    level.select (e :: es) = e :: level.select es :=
  List.filter_cons_of_pos h

/-- A level that does not admit scans admits nothing. -/
theorem admits_eq_false (h : level.admits .pass = false) (scope : Scope) :
    level.admits scope = false := by
  have hfinest : level.finest = 0 := by
    unfold admits finest at h
    unfold finest
    split at h
    · cases h
    · cases h
    · cases h
    · rfl
  rw [admits, hfinest, Bool.and_eq_false_iff]
  by_cases hzero : scope.rank = 0
  · exact Or.inl (by simp [hzero])
  · refine Or.inr (decide_eq_false ?_)
    intro hle
    exact hzero (UInt8.le_antisymm hle UInt8.zero_le)

theorem select_eq_nil (h : level.admits .pass = false) (es : List Event) :
    level.select es = [] := by
  refine List.filter_eq_nil_iff.mpr ?_
  intro e _
  rw [admits_eq_false h]
  exact Bool.false_ne_true

/-- Calls are recorded where scans are. -/
theorem admits_driver (h : level.admits .pass = true) : level.admits .driver = true := by
  unfold admits finest at h ⊢
  split at h
  · rfl
  · rfl
  · rfl
  · cases h

end Level

namespace Recorder

/-! ## What can be seen -/

/-- The recorder without its spans: sinks, writers, and the number of events. -/
def visible (k : Recorder) : Recorder := { k with spans := #[] }

/-- Events are handed to a tracer, up to one that cannot be delivered; the last
part says whether all of them were. -/
def give (k : Recorder) (t : Tracer) : List Event → Recorder × Bool
  | [] => (k, true)
  | e :: es =>
      match k.stamp t e with
      | (k, _, true) => k.give t es
      | (k, _, false) => (k, false)

/-- From `k` to `k'` nothing can be seen but that `t` was given `es`; `ok` says
whether all of them were delivered. -/
def Emits (k : Recorder) (t : Tracer) (es : List Event) (k' : Recorder) (ok : Bool) : Prop :=
  k.visible.give t es = (k'.visible, ok)

section

variable {k k' k'' : Recorder} {t : Tracer} {es es' : List Event} {ok : Bool}

theorem give_append (t : Tracer) (es' : List Event) : ∀ (es : List Event) (k : Recorder),
    k.give t (es ++ es') =
      if (k.give t es).2 then (k.give t es).1.give t es' else k.give t es := by
  intro es
  induction es with
  | nil =>
      intro k
      rfl
  | cons e es ih =>
      intro k
      rw [List.cons_append, give, give]
      split
      · exact ih _
      · rfl

/-- Nothing happens, nothing is seen. -/
theorem Emits.nil (h : k'.visible = k.visible) : k.Emits t [] k' true := by
  rw [Emits, h]
  rfl

/-- What is emitted in two steps. -/
theorem Emits.trans (h : k.Emits t es k' true) (h' : k'.Emits t es' k'' ok) :
    k.Emits t (es ++ es') k'' ok := by
  rw [Emits, give_append, h, if_pos rfl]
  exact h'

/-- After a failure nothing more is handed over. -/
theorem Emits.failed (h : k.Emits t es k' false) (es' : List Event) :
    k.Emits t (es ++ es') k' false := by
  rw [Emits, give_append, h]
  rfl

end

/-! ## Events on their way -/

/-- A sink takes an event without looking at spans. -/
theorem emitTo_visible (k : Recorder) (id : Nat) (e : Event) :
    k.visible.emitTo id e = ((k.emitTo id e).1.visible, (k.emitTo id e).2) := by
  have hsinks : k.visible.sinks[id]? = k.sinks[id]? := rfl
  rw [emitTo, emitTo, hsinks]
  cases k.sinks[id]? with
  | none => rfl
  | some sink =>
      cases sink with
      | ring r => rfl
      | stream s => rfl

theorem emitTo_spans (k : Recorder) (id : Nat) (e : Event) :
    (k.emitTo id e).1.spans = k.spans := by
  rw [emitTo]
  cases k.sinks[id]? with
  | none => rfl
  | some sink =>
      cases sink with
      | ring r => rfl
      | stream s => rfl

theorem emitAll_visible (e : Event) : ∀ (outlets : List (Option Nat)) (k : Recorder),
    k.visible.emitAll e outlets =
      ((k.emitAll e outlets).1.visible, (k.emitAll e outlets).2) := by
  intro outlets
  induction outlets with
  | nil =>
      intro k
      rfl
  | cons outlet outlets ih =>
      intro k
      cases outlet with
      | none => rfl
      | some id =>
          rw [emitAll, emitAll, emitTo_visible]
          dsimp only
          rw [ih]

theorem emitAll_spans (e : Event) : ∀ (outlets : List (Option Nat)) (k : Recorder),
    (k.emitAll e outlets).1.spans = k.spans := by
  intro outlets
  induction outlets with
  | nil =>
      intro k
      rfl
  | cons outlet outlets ih =>
      intro k
      cases outlet with
      | none => rfl
      | some id => exact (ih (k.emitTo id e).1).trans (k.emitTo_spans id e)

/-- With all sinks there, every event is delivered. -/
theorem emitAll_ok (e : Event) {outlets : List (Option Nat)}
    (h : ∀ outlet ∈ outlets, outlet ≠ none) :
    ∀ k : Recorder, (k.emitAll e outlets).2.2 = true := by
  induction outlets with
  | nil =>
      intro k
      rfl
  | cons outlet outlets ih =>
      intro k
      cases outlet with
      | none => exact absurd rfl (h none List.mem_cons_self)
      | some id =>
          exact ih (fun outlet' hmem => h outlet' (List.mem_cons_of_mem _ hmem)) (k.emitTo id e).1

theorem stamp_spans (k : Recorder) (t : Tracer) (e : Event) : (k.stamp t e).1.spans = k.spans :=
  emitAll_spans _ _ _

/-- Stamping an event is handing it over. -/
theorem stamp_emits (k : Recorder) (t : Tracer) (e : Event) :
    k.Emits t [e] (k.stamp t e).1 (k.stamp t e).2.2 := by
  have hstamp : k.visible.stamp t e = ((k.stamp t e).1.visible, (k.stamp t e).2) :=
    emitAll_visible _ t.outlets { k with stamped := k.stamped + 1 }
  rw [Emits, give, hstamp]
  obtain ⟨k', taken, ok⟩ := k.stamp t e
  cases ok <;> rfl

/-- With all sinks there, all events are handed over. -/
theorem give_ok {t : Tracer} (ht : t.Complete) (es : List Event) :
    ∀ k : Recorder, (k.give t es).2 = true := by
  induction es with
  | nil =>
      intro k
      rfl
  | cons e es ih =>
      intro k
      have hok : (k.stamp t e).2.2 = true := emitAll_ok _ ht _
      rw [give]
      split
      · exact ih _
      · rename_i hstamp
        rw [hstamp] at hok
        cases hok

theorem Emits.ok_eq {k k' : Recorder} {t : Tracer} {es : List Event} {ok : Bool}
    (ht : t.Complete) (h : k.Emits t es k' ok) : ok = true := by
  have hgive := give_ok ht es k.visible
  rw [h] at hgive
  exact hgive

/-! ## Spans by number -/

theorem span?_of_pos (k : Recorder) {id : Nat} (h : 0 < id) : k.span? id = k.spans[id - 1]? :=
  if_neg (Nat.ne_of_gt h)

section

variable {k k' : Recorder} {id : Nat} {s : SpanRecord}

/-- Only spans with a number are found. -/
theorem pos_of_span? (h : k.span? id = some s) : 0 < id := by
  rcases Nat.eq_zero_or_pos id with rfl | hpos
  · cases h
  · exact hpos

theorem span?_congr (h : k'.spans = k.spans) (id : Nat) : k'.span? id = k.span? id := by
  rw [span?, span?, h]

/-- The last span pushed is found under its number, and the others as before. -/
theorem span?_push (h : k'.spans = k.spans.push s) :
    k'.span? (k.spans.size + 1) = some s ∧ ∀ id ≤ k.spans.size, k'.span? id = k.span? id := by
  constructor
  · rw [span?_of_pos k' (Nat.succ_pos _), h]
    exact Array.getElem?_push_size
  · intro id hid
    rcases Nat.eq_zero_or_pos id with rfl | hpos
    · rfl
    · have hlt : id - 1 < k.spans.size := by omega
      rw [span?_of_pos k' hpos, span?_of_pos k hpos, h, Array.getElem?_push_lt hlt,
        Array.getElem?_eq_getElem hlt]

/-- Changing the span with one number leaves the others alone. -/
theorem span?_modify {f : SpanRecord → SpanRecord} (h : k'.spans = k.spans.modify (id - 1) f)
    (hs : k.span? id = some s) :
    k'.span? id = some (f s) ∧ ∀ id' ≠ id, k'.span? id' = k.span? id' := by
  have hpos := pos_of_span? hs
  rw [span?_of_pos k hpos] at hs
  constructor
  · rw [span?_of_pos k' hpos, h, Array.getElem?_modify, if_pos rfl, hs]
    rfl
  · intro id' hne
    rcases Nat.eq_zero_or_pos id' with rfl | hpos'
    · rfl
    · have hne' : id - 1 ≠ id' - 1 := by omega
      rw [span?_of_pos k' hpos', span?_of_pos k hpos', h, Array.getElem?_modify, if_neg hne']

end

/-- From `k` to `k'` the tracer was given `es`, and the spans up to number `n` are
left alone. -/
structure EmitsAbove (n : Nat) (k : Recorder) (t : Tracer) (es : List Event) (k' : Recorder)
    (ok : Bool) : Prop where
  emits : k.Emits t es k' ok
  keeps : ∀ id ≤ n, k'.span? id = k.span? id

theorem EmitsAbove.refl (n : Nat) (k : Recorder) (t : Tracer) : k.EmitsAbove n t [] k true := by
  refine ⟨Emits.nil rfl, ?_⟩
  intro id _
  rfl

/-! ## Operations on spans -/

/-- The recorder with one more span. -/
def push (k : Recorder) (s : SpanRecord) : Recorder := { k with spans := k.spans.push s }

section

variable {k : Recorder} {t : Tracer} {scope : Scope} {id : Nat} {s : SpanRecord}

theorem begin_eq (h : t.level.admits scope = true) (k : Recorder) (name : Bytes) (parent : Nat) :
    k.begin t scope name parent =
      let stamped := (k.push ⟨t, parent, scope, name, [], []⟩).stamp t
        (.opening scope (k.spans.size + 1) parent name)
      (stamped.1, if stamped.2.2 then some (k.spans.size + 1) else none) := by
  rw [begin, if_pos h]
  dsimp only
  rw [Array.size_push]
  rfl

/-- A span that begins gets the next number. -/
theorem begin_emits (h : t.level.admits scope = true) (k : Recorder) (name : Bytes) (parent : Nat) :
    let begun := k.begin t scope name parent
    ∃ ok, k.Emits t [.opening scope (k.spans.size + 1) parent name] begun.1 ok ∧
      begun.2 = (if ok then some (k.spans.size + 1) else none) ∧
      begun.1.spans = k.spans.push ⟨t, parent, scope, name, [], []⟩ := by
  rw [begin_eq h]
  exact ⟨_, stamp_emits (k.push _) t _, rfl, stamp_spans (k.push _) t _⟩

theorem setExtra_eq (h : k.span? id = some s) (hopen : s.shown = []) (key value : Bytes) :
    k.setExtra id key value = { k with
      spans := k.spans.modify (id - 1) fun s => { s with extra := s.extra.set key value } } := by
  rw [setExtra, h]
  dsimp only
  rw [hopen]
  rfl

theorem size_setExtra (h : k.span? id = some s) (hopen : s.shown = []) (key value : Bytes) :
    (k.setExtra id key value).spans.size = k.spans.size := by
  rw [setExtra_eq h hopen]
  exact Array.size_modify

/-- An attribute is noted with a span that has not ended, and nothing is seen. -/
theorem setExtra_emits (h : k.span? id = some s) (hopen : s.shown = []) (key value : Bytes) :
    let noted := k.setExtra id key value
    noted.visible = k.visible ∧
      noted.span? id = some { s with extra := s.extra.set key value } ∧
      ∀ id' ≠ id, noted.span? id' = k.span? id' := by
  intro noted
  have hnoted : noted = _ := setExtra_eq h hopen key value
  have hspans : noted.spans =
      k.spans.modify (id - 1) fun s => { s with extra := s.extra.set key value } :=
    congrArg spans hnoted
  obtain ⟨hself, hothers⟩ := span?_modify hspans h
  refine ⟨?_, hself, hothers⟩
  rw [hnoted]
  rfl

/-- A point inside a span. -/
theorem spanPoint_emits (h : k.span? id = some s) (hadmits : s.tracer.level.admits scope = true)
    (name detail : Bytes) (extra : Attributes) :
    let pointed := k.spanPoint id scope name detail extra
    k.Emits s.tracer [.inside scope id name detail extra] pointed.1 pointed.2 ∧
      pointed.1.spans = k.spans := by
  rw [spanPoint, h]
  dsimp only
  rw [if_pos hadmits]
  exact ⟨k.stamp_emits s.tracer _, k.stamp_spans s.tracer _⟩

/-- A span that ends tells what was noted with it. -/
theorem finish_emits (h : k.span? id = some s) (detail : Bytes) :
    let finished := k.finish id detail
    k.Emits s.tracer [.closing s.scope id s.parent s.name detail s.extra]
        finished.1 finished.2 ∧
      ∀ id' ≠ id, finished.1.span? id' = k.span? id' := by
  let stamped := k.stamp s.tracer (.closing s.scope id s.parent s.name detail s.extra)
  let taken := if s.extra.isEmpty then [] else stamped.2.1
  have hfinish : k.finish id detail = ({ stamped.1 with
      spans := stamped.1.spans.modify (id - 1) fun s => { s with shown := taken ++ s.shown } },
      stamped.2.2) := by
    rw [finish, h]
    rfl
  have hspans : (k.finish id detail).1.spans =
      k.spans.modify (id - 1) fun s => { s with shown := taken ++ s.shown } := by
    rw [hfinish, ← k.stamp_spans s.tracer]
  refine ⟨?_, (span?_modify hspans h).2⟩
  rw [hfinish]
  exact k.stamp_emits s.tracer _

end

end Recorder

end LineLexer.Trace
