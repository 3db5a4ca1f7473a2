/-
# `Session.Tokenize` — one buffer of a session

A buffer is looked up in the cache, if there is one, and scanned otherwise.
Both are phases, which an observer is told about and a stopwatch measures.  A
call can be cancelled; the scan finds out when it has a result in hand, so a
buffer without results is scanned to its end.

A session takes the lines of a buffer all at once (`Delivery.new`).  That is
what a `Scanner` comes to unless the buffer is too long for its words.

A session measures no time: its clock stands still.
-/
import LineLexer.Scan.Delivery
import LineLexer.Session.Cache
import LineLexer.Session.Options
import LineLexer.Text.Json
import LineLexer.Timing.Stopwatch

namespace LineLexer.Session

/-! ## Phases -/

/-- Whether a phase begins or ends. -/
inductive PhaseStatus
  | start
  | stop
deriving DecidableEq, Repr

namespace PhaseStatus

/-- Number 1 is the end, any other number the start. -/
def ofCode (n : Int) : PhaseStatus := if n = 1 then stop else start

def name : PhaseStatus → Bytes
  | start => utf8 "start"
  | stop => utf8 "end"

end PhaseStatus

/-- What an observer is told: a phase of a buffer begins or ends. -/
structure PhaseEvent where
  file : Bytes
  phase : Bytes
  status : PhaseStatus
deriving DecidableEq, Repr

/-- The phase and its status. -/
def PhaseEvent.text (e : PhaseEvent) : Bytes := e.phase ++ utf8 ":" ++ e.status.name

/-! ## State -/

/-- What the calls of a session share. -/
structure State where
  recorder : Trace.Recorder
  cache? : Option Cache := none
  /-- What the observer was told. -/
  events : Array PhaseEvent := #[]

/-- What one call brings along. -/
structure Call where
  context : Trace.Context := {}
  /-- Whether the call has been cancelled. -/
  cancelled : Bool := false
  /-- Whether the observer cancels the call when it is told of an event. -/
  cancels : PhaseEvent → Bool := fun _ => false
  /-- After how many results the call is cancelled from outside. -/
  patience : Option Nat := none

/-- The observer, if there is one, is told of an event. -/
def announce (s : State) (c : Call) (o : Options) (e : PhaseEvent) : State × Call :=
  if o.observed then
    ({ s with events := s.events.push e }, { c with cancelled := c.cancelled || c.cancels e })
  else (s, c)

/-- Why a call has no result. -/
inductive Failure
  | unknownFile (id : Nat)
  | cancelled
  | cache (file : Bytes) (e : CacheError)
deriving DecidableEq, Repr

def Failure.message : Failure → Bytes
  | unknownFile id => utf8 "tokenize: unknown file id " ++ Bytes.decimal id
  | cancelled => utf8 "context canceled"
  | cache file e => utf8 "tokenize " ++ file ++ utf8 ": cache: " ++ e.message

/-- The result of a call. -/
structure Outcome where
  file : File
  tokens : List Token
  bag : Bag
  stats : Stats
  /-- Whether the cache had the scan. -/
  cached : Bool
  watch : Timing.Stopwatch

/-! ## Timings -/

/-- A phase in the note about timings. -/
def phaseJson (p : Timing.Phase) : Json :=
  .obj ([Json.field "name" (.str p.name), Json.field "duration_ms" (.num p.duration.toInt)]
    ++ Json.optional p.note.isEmpty "note" (.str p.note))

/-- The finding about the phases of a buffer.  The clock stands still, so all
times in it are zero. -/
def timingDiagnostic (f : File) (t : Timing.Stopwatch) (cached : Bool) : Diagnostic :=
  let here : Span := ⟨f.id, 0, 0⟩
  let note := Json.compact (.obj ([Json.field "kind" (.str (utf8 "tokenize"))]
    ++ Json.optional f.name.isEmpty "path" (.str f.name)
    ++ [Json.field "total_ms" (.num t.total.toInt),
        Json.field "phases" (.arr (t.phases.map phaseJson))]
    ++ Json.optional (!cached) "cached" (.bool true)))
  { Diagnostic.plain .info .timings here
      (utf8 "timings (tokenize): total " ++ Text.fixed 2 (Timing.millis t.total) ++ utf8 " ms: "
        ++ f.name) with
    notes := [⟨here, note⟩] }

/-- Adds a finding even to a full bag, whose limit grows if it can. -/
def forceAdd (b : Bag) (d : Diagnostic) : Bag := b.merge ((Bag.withLimit 1).add d)

/-- The result with the finding about its phases, if that is wanted. -/
def Outcome.withTimings (r : Outcome) (o : Options) : Outcome :=
  if o.timings then
    { r with bag := forceAdd r.bag (timingDiagnostic r.file r.watch r.cached) }
  else r

/-! ## Phases of a call -/

/-- The result for a scan that the cache had. -/
def reuse (f : File) (o : Options) (t : Timing.Stopwatch) (ts : List Token) (ds : List Diagnostic) :
    Outcome :=
  let collector := ds.foldl Collector.report (.new o.maxDiagnostics o.dedup)
  ⟨f, ts, collector.bag, ⟨f.lineCount, ts.length, ds.length⟩, true, t⟩

/-- How many results a scan may deliver before the call is found cancelled. -/
def Call.limit (c : Call) : Option Nat := if c.cancelled then some 0 else c.patience

/-- Whether the call is found cancelled by a scan with a number of results. -/
def Call.breaksOff (c : Call) (results : Nat) : Bool :=
  match c.limit with
  | some n => n < results
  | none => false

/-- Scans a buffer inside the span of the call; none if the call was found
cancelled with a result in hand. -/
def scanBuffer (f : File) (o : Options) (k : Trace.Recorder) (c : Call) :
    Trace.Recorder × Option (List Result × Stats × Bag) :=
  let tracer := c.context.tracer
  let delivery := Delivery.new f tracer.level
  if c.breaksOff delivery.remaining then
    let (_, _, signals) := delivery.take (c.limit.getD 0 + 1)
    ((k.follow tracer c.context.span 0 signals).1, none)
  else
    let (results, delivery, signals) := delivery.drain
    let collector := (Collector.new o.maxDiagnostics o.dedup).follow signals
    ((k.follow tracer c.context.span 0 signals).1,
      some (results, delivery.stats, collector.bag))

/-- The note of a scan. -/
def scanNote (st : Stats) : Bytes :=
  Bytes.decimal st.tokens ++ utf8 " tokens, " ++ Bytes.decimal st.errors ++ utf8 " errors"

/-- The phase that scans a buffer, after which the cache keeps the scan. -/
def scanPhase (f : File) (o : Options) (s : State) (c : Call) (t : Timing.Stopwatch) :
    State × Call × Except Failure Outcome :=
  let (t, index) := t.start (utf8 "scan")
  let (s, c) := announce s c o ⟨f.name, utf8 "scan", .start⟩
  match scanBuffer f o s.recorder c with
  | (recorder, none) => ({ s with recorder }, c, .error .cancelled)
  | (recorder, some (results, stats, bag)) =>
      let tokens := results.filterMap Result.token?
      let findings := (results.filterMap Result.error?).map LexError.diagnostic
      let t := t.stop index (scanNote stats)
      let (s, c) := announce { s with recorder } c o ⟨f.name, utf8 "scan", .stop⟩
      ({ s with cache? := s.cache?.map (·.put f tokens findings) }, c,
        .ok (Outcome.withTimings ⟨f, tokens, bag, stats, false, t⟩ o))

/-- The phases of a call: the cache, if there is one, and the scan. -/
def phases (f : File) (o : Options) (span : Nat) (s : State) (c : Call) :
    State × Call × Except Failure Outcome :=
  let t : Timing.Stopwatch := { clock := [0] }
  match s.cache? with
  | none => scanPhase f o s c t
  | some cache =>
      let (t, index) := t.start (utf8 "cache")
      let (s, c) := announce s c o ⟨f.name, utf8 "cache", .start⟩
      let (cache, found) := cache.get f
      let s := { s with cache? := some cache }
      match found with
      | .error e => (s, c, .error (.cache f.name e))
      | .ok none =>
          let t := t.stop index (utf8 "hit=false")
          let (s, c) := announce s c o ⟨f.name, utf8 "cache", .stop⟩
          scanPhase f o s c t
      | .ok (some (ts, ds)) =>
          let t := t.stop index (utf8 "hit=true")
          let (s, c) := announce s c o ⟨f.name, utf8 "cache", .stop⟩
          let recorder := s.recorder.setExtra span (utf8 "cached") (utf8 "true")
          ({ s with recorder }, c, .ok ((reuse f o t ts ds).withTimings o))

/-! ## Calls -/

/-- The context of a call with a tracer: its own one, or else that of the
options. -/
def traced (c : Call) (o : Options) : Call :=
  if c.context.tracer.form = .nop then
    { c with context := { c.context with tracer? := some o.tracer } }
  else c

/-- Runs a part of a call inside a span of its own with one attribute. -/
def withinSpan {α : Type} (s : State) (c : Call) (name key value : Bytes)
    (body : Nat → State → Call → State × Call × α) : State × Call × α :=
  let (recorder, begun) := c.context.startSpan s.recorder .driver name
  let (context, span) := begun.getD (c.context, 0)
  let s := { s with recorder := recorder.setExtra span key value }
  let (s, inner, a) := body span s { c with context }
  let recorder := (s.recorder.finish span []).1
  ({ s with recorder }, { inner with context := c.context }, a)

/-- Tokenizes the buffer with a number. -/
def tokenize (fs : FileSet) (id : Nat) (o : Options) (s : State) (c : Call) :
    State × Call × Except Failure Outcome :=
  match fs.get? id with
  | none => (s, c, .error (.unknownFile id))
  | some f =>
      withinSpan s (traced c o) (utf8 "tokenize") (utf8 "file") f.name (phases f o)

end LineLexer.Session
