/-
# `Trace.Recorder` — tracers, spans and the sinks behind them

A tracer copies events to its sinks; each sink applies its own level.  A
span is a pair of a begin and an end event.  A span that its tracer's level
does not admit has the number zero and ignores every call, so nobody has to
ask before using one.

The recorder holds all sinks, writers and spans by number, gives out span
numbers from one on, and stamps the events that pass through it: each one
a millisecond after the one before.
-/
import LineLexer.Trace.Sink

namespace LineLexer.Trace

/-- What a tracer is made of. -/
inductive Form
  | nop
  | stream
  | ring
  | multi
deriving DecidableEq, Repr

/-- The name of a form. -/
def Form.name : Form → Bytes
  | nop => utf8 "nop"
  | stream => utf8 "stream"
  | ring => utf8 "ring"
  | multi => utf8 "multi"

/-- A level and the sinks that events go to, in order.  A sink may be missing;
an event that should go there cannot be delivered. -/
structure Tracer where
  form : Form
  level : Level
  outlets : List (Option Nat)
deriving DecidableEq, Repr

namespace Tracer

/-- The tracer that takes no notice. -/
def nop : Tracer := ⟨.nop, .off, []⟩

def isEnabled (t : Tracer) : Bool := t.level.isEnabled

/-- The only sink of a ring. -/
def ring? (t : Tracer) : Option Nat :=
  match t.form, t.outlets with
  | .ring, [some id] => some id
  | _, _ => none

/-- A tracer that copies events to all sinks of other tracers. -/
def multi (level : Level) (parts : List (Option Tracer)) : Tracer :=
  ⟨.multi, level, parts.flatMap fun p => match p with
    | some t => t.outlets
    | none => [none]⟩

end Tracer

/-- Why a tracer cannot be had. -/
inductive TracerError
  | unknownStorage (m : Storage)
  | noRoom (size : Int)
deriving DecidableEq, Repr

def TracerError.message : TracerError → Bytes
  | unknownStorage m => utf8 "unknown storage mode: " ++ m.name
  | noRoom size => utf8 "no room for a ring of size " ++ Bytes.decimalInt size

/-- A span that was begun. -/
structure SpanRecord where
  tracer : Tracer
  parent : Nat
  scope : Scope
  name : Bytes
  extra : Attributes
  /-- The rings that took an end event of the span with attributes, and its
  number there. -/
  shown : List (Nat × Nat)

/-- All sinks, writers and spans. -/
structure Recorder where
  /-- The time before the first event. -/
  start : Int
  sinks : Array Sink := #[]
  writers : Array Writer := #[]
  spans : Array SpanRecord := #[]
  /-- How many events were stamped. -/
  stamped : Nat := 0

namespace Recorder

/-! ## Building tracers -/

def addWriter (k : Recorder) (kind : WriterKind) : Recorder × Nat :=
  ({ k with writers := k.writers.push { kind } }, k.writers.size)

/-- A new ring; none if there is no room for it. -/
def addRing? (k : Recorder) (size : Int) (level : Level) : Option (Recorder × Tracer) :=
  (Ring.new? size level).map fun r =>
    ({ k with sinks := k.sinks.push (.ring r) }, ⟨.ring, level, [some k.sinks.size]⟩)

def addStream (k : Recorder) (level : Level) (format : Format) (writer : Nat) :
    Recorder × Tracer :=
  ({ k with sinks := k.sinks.push (.stream (.new level format writer)) },
    ⟨.stream, level, [some k.sinks.size]⟩)

/-- The tracer for a level and a storage; level off takes no notice, whatever
the storage. -/
def addTracer (k : Recorder) (level : Level) (storage : Storage) (format : Format)
    (size : Int) (writer : Nat) : Except TracerError (Recorder × Tracer) :=
  if level = .off then .ok (k, .nop)
  else if storage = .stream then .ok (k.addStream level format writer)
  else if storage = .ring then
    match k.addRing? size level with
    | some made => .ok made
    | none => .error (.noRoom size)
  else if storage = .both then
    let (k, s) := k.addStream level format writer
    match k.addRing? size level with
    | some (k, r) => .ok (k, .multi level [some s, some r])
    | none => .error (.noRoom size)
  else .error (.unknownStorage storage)

/-! ## Events -/

/-- An event arrives at one sink.  If a ring takes it, its number there comes
back. -/
def emitTo (k : Recorder) (id : Nat) (e : Event) : Recorder × List (Nat × Nat) :=
  match k.sinks[id]? with
  | none => (k, [])
  | some (.ring r) =>
      let r' := r.emit k.start e
      ({ k with sinks := k.sinks.setIfInBounds id (.ring r') },
        if r.total < r'.total then [(id, r'.total)] else [])
  | some (.stream s) =>
      let (s, written) := s.emit k.start e
      ({ k with
          sinks := k.sinks.setIfInBounds id (.stream s)
          writers :=
            if written.isEmpty then k.writers else k.writers.modify s.writer (·.write written) },
        [])

/-- An event arrives at the sinks in order.  The last part says whether all of
them were there; nothing arrives behind a missing one. -/
def emitAll (k : Recorder) (e : Event) : List (Option Nat) → Recorder × List (Nat × Nat) × Bool
  | [] => (k, [], true)
  | none :: _ => (k, [], false)
  | some id :: rest =>
      let (k, taken) := k.emitTo id e
      let (k, more, ok) := k.emitAll e rest
      (k, taken ++ more, ok)

/-- An event, with the time it has, goes to the sinks of a tracer. -/
def emit (k : Recorder) (t : Tracer) (e : Event) : Recorder × Bool :=
  let (k, _, ok) := k.emitAll e t.outlets
  (k, ok)

/-- The next time. -/
def nextTime (k : Recorder) : Int := k.start + 1000000 * (k.stamped + 1)

/-- An event is stamped and goes to the sinks of a tracer. -/
def stamp (k : Recorder) (t : Tracer) (e : Event) : Recorder × List (Nat × Nat) × Bool :=
  { k with stamped := k.stamped + 1 }.emitAll { e with time := some k.nextTime } t.outlets

/-- A point event outside all spans. -/
def point (k : Recorder) (t : Tracer) (scope : Scope) (name detail : Bytes)
    (extra : Attributes) : Recorder × Bool :=
  if t.level.admits scope then
    let (k, _, ok) := k.stamp t ⟨none, 0, .point, scope, 0, 0, name, detail, extra⟩
    (k, ok)
  else (k, true)

/-! ## Spans -/

def span? (k : Recorder) (id : Nat) : Option SpanRecord :=
  if id = 0 then none else k.spans[id - 1]?

/-- Begins a span inside the span `parent` and gives its number, zero if it is
not recorded, none if a sink was missing. -/
def begin (k : Recorder) (t : Tracer) (scope : Scope) (name : Bytes) (parent : Nat) :
    Recorder × Option Nat :=
  if t.level.admits scope then
    let k := { k with spans := k.spans.push ⟨t, parent, scope, name, [], []⟩ }
    let id := k.spans.size
    let (k, _, ok) := k.stamp t ⟨none, 0, .spanBegin, scope, id, parent, name, [], []⟩
    (k, if ok then some id else none)
  else (k, some 0)

/-- Changes an event that a ring holds. -/
def amend (k : Recorder) (f : Event → Event) (place : Nat × Nat) : Recorder :=
  match k.sinks[place.1]? with
  | some (.ring r) => { k with sinks := k.sinks.setIfInBounds place.1 (.ring (r.amend place.2 f)) }
  | _ => k

/-- Sets an attribute of a span.  It is written with the end event; end events
of the span that rings already hold with attributes show it too. -/
def setExtra (k : Recorder) (id : Nat) (key value : Bytes) : Recorder :=
  match k.span? id with
  | none => k
  | some s =>
      let k := { k with
        spans := k.spans.modify (id - 1) fun s => { s with extra := s.extra.set key value } }
      s.shown.foldl (amend · fun e => { e with extra := e.extra.set key value }) k

/-- A point event inside a span. -/
def spanPoint (k : Recorder) (id : Nat) (scope : Scope) (name detail : Bytes)
    (extra : Attributes) : Recorder × Bool :=
  match k.span? id with
  | none => (k, true)
  | some s =>
      if s.tracer.level.admits scope then
        let (k, _, ok) := k.stamp s.tracer ⟨none, 0, .point, scope, 0, id, name, detail, extra⟩
        (k, ok)
      else (k, true)

/-- Ends a span; each call writes an end event. -/
def finish (k : Recorder) (id : Nat) (detail : Bytes) : Recorder × Bool :=
  match k.span? id with
  | none => (k, true)
  | some s =>
      let (k, taken, ok) :=
        k.stamp s.tracer ⟨none, 0, .spanEnd, s.scope, id, s.parent, s.name, detail, s.extra⟩
      let taken := if s.extra.isEmpty then [] else taken
      ({ k with spans := k.spans.modify (id - 1) fun s => { s with shown := taken ++ s.shown } },
        ok)

/-! ## Flushing and closing -/

/-- Flushes or closes the sinks in order and gathers the failures; the last
part says whether all sinks were there. -/
def settle (k : Recorder) (act : Writer → Writer × Option Bytes) :
    List (Option Nat) → Recorder × List Bytes × Bool
  | [] => (k, [], true)
  | none :: _ => (k, [], false)
  | some id :: rest =>
      let (k, failed) := match k.sinks[id]? with
        | some (.stream s) => match k.writers[s.writer]? with
          | some w =>
              let (w, failure) := act w
              ({ k with writers := k.writers.setIfInBounds s.writer w }, failure.toList)
          | none => (k, [])
        | _ => (k, [])
      let (k, more, ok) := k.settle act rest
      (k, failed ++ more, ok)

/-! ## Reading -/

def ring? (k : Recorder) (t : Tracer) : Option Ring :=
  match t.ring?.bind (k.sinks[·]?) with
  | some (.ring r) => some r
  | _ => none

end Recorder

/-! ## Contexts -/

/-- What calls pass down: the tracer, if one was given, and the span they are
in. -/
structure Context where
  tracer? : Option Tracer := none
  span : Nat := 0

namespace Context

/-- The tracer of a context; one that takes no notice if none was given. -/
def tracer (c : Context) : Tracer := c.tracer?.getD .nop

/-- Begins a span inside the span of a context.  The context that comes back
is in the new span, if that is recorded. -/
def startSpan (c : Context) (k : Recorder) (scope : Scope) (name : Bytes) :
    Recorder × Option (Context × Nat) :=
  match k.begin c.tracer scope name c.span with
  | (k, none) => (k, none)
  | (k, some 0) => (k, some (c, 0))
  | (k, some id) => (k, some ({ c with span := id }, id))

end Context

end LineLexer.Trace
