/-
# `Scan.Delivery` — results one after the other

The results of lines that have been scanned are delivered in order, line by
line, and counted.  A delivery tells the outside what it does by signals: a
finding for each error, and events for the record of the scan, as far as
its level admits them.  The record has one span for the scan, a point for
each line, and a point for each result.

A delivery is used up: once the end has been reported, every further call
delivers nothing and changes nothing.
-/
import LineLexer.Diagnostic.Reporting
import LineLexer.Scan.Line
import LineLexer.Trace.Recorder

namespace LineLexer

/-- What was delivered so far. -/
structure Stats where
  lines : Nat
  tokens : Nat
  errors : Nat
deriving DecidableEq, Repr

/-- The counts with one more result. -/
def Stats.count (st : Stats) : Result → Stats
  | .token _ => { st with tokens := st.tokens + 1 }
  | .error _ => { st with errors := st.errors + 1 }

/-- An entry of the record of a scan. -/
inductive TraceAction
  /-- The span of the scan begins; it names the buffer. -/
  | begin (file : Bytes)
  /-- Something happened inside the span. -/
  | point (scope : Trace.Scope) (name detail : Bytes) (extra : Trace.Attributes)
  /-- The span ends, with the final counts. -/
  | finish (stats : Stats)
deriving DecidableEq, Repr

/-- The scope of an entry. -/
def TraceAction.scope : TraceAction → Trace.Scope
  | begin _ => .pass
  | point scope _ _ _ => scope
  | finish _ => .pass

/-- What a scan tells the outside. -/
inductive Signal
  | finding (d : Diagnostic)
  | trace (a : TraceAction)
deriving DecidableEq, Repr

/-- A line that has been scanned. -/
structure ScannedLine where
  num : Nat
  results : List Result
deriving DecidableEq, Repr

/-- The delivery of a scan, in progress. -/
structure Delivery where
  file : File
  level : Trace.Level
  /-- The lines from which nothing has been delivered. -/
  ahead : List ScannedLine
  /-- What is left of the line being delivered. -/
  pending : List Result
  /-- Whether the record of the scan has begun. -/
  begun : Bool
  stats : Stats
  done : Bool
deriving Repr

namespace Delivery

/-- The delivery of lines of a buffer, from its beginning. -/
def ofLines (file : File) (level : Trace.Level) (ahead : List ScannedLine) : Delivery where
  file
  level
  ahead
  pending := []
  begun := false
  stats := ⟨0, 0, 0⟩
  done := false

/-- The delivery of all lines of a buffer. -/
def new (file : File) (level : Trace.Level) : Delivery :=
  ofLines file level (file.lines.map fun ln => ⟨ln.num, ln.scan⟩)

/-- The delivery with other lines before it. -/
def onto (s : Delivery) (ahead : List ScannedLine) : Delivery :=
  ⟨s.file, s.level, ahead, s.pending, s.begun, s.stats, s.done⟩

/-- The entry, if the level admits it. -/
def note (s : Delivery) (a : TraceAction) : List Signal :=
  if s.level.admits a.scope then [.trace a] else []

/-- The entry for a line. -/
def lineAction (ln : ScannedLine) : TraceAction :=
  .point .line (utf8 "line") (Bytes.decimal ln.num)
    [(utf8 "results", Bytes.decimal ln.results.length)]

/-- The entry for a result. -/
def resultAction : Result → TraceAction
  | .token t => .point .token (utf8 "token") t.text []
  | .error e => .point .token (utf8 "error") e.text []

/-- The finding of a result that is an error. -/
def findings : Result → List Signal
  | .token _ => []
  | .error e => [.finding e.diagnostic]

/-- Takes lines up to the first one that has results. -/
def seek (s : Delivery) : List ScannedLine → Delivery × List Signal
  | [] => ({ s with ahead := [] }, [])
  | ln :: rest =>
      let s := { s with
        pending := ln.results
        ahead := rest
        stats := { s.stats with lines := s.stats.lines + 1 } }
      if ln.results.isEmpty then
        let (s', signals) := s.seek rest
        (s', s.note (lineAction ln) ++ signals)
      else (s, s.note (lineAction ln))

/-- Delivers the first pending result; reports the end if there is none. -/
def deliver (s : Delivery) : Option Result × Delivery × List Signal :=
  match s.pending with
  | r :: rest =>
      (some r, { s with pending := rest, stats := s.stats.count r },
        findings r ++ s.note (resultAction r))
  | [] => (none, { s with done := true }, s.note (.finish s.stats))

/-- The next result, or none at the end. -/
def next (s : Delivery) : Option Result × Delivery × List Signal :=
  match s.pending with
  | _ :: _ => s.deliver
  | [] =>
      if s.done then (none, s, [])
      else
        let opening := if s.begun then [] else s.note (.begin s.file.name)
        let (s, lines) := { s with begun := true }.seek s.ahead
        let (r, s, closing) := s.deliver
        (r, s, opening ++ lines ++ closing)

/-- Up to `n` further results, and the signals that came with them. -/
def take (s : Delivery) : Nat → List Result × Delivery × List Signal
  | 0 => ([], s, [])
  | n + 1 =>
      match s.next with
      | (none, s, signals) => ([], s, signals)
      | (some r, s, signals) =>
          let (rs, s, more) := s.take n
          (r :: rs, s, signals ++ more)

/-- The number of results that have not been delivered. -/
def remaining (s : Delivery) : Nat :=
  s.pending.length + (s.ahead.flatMap ScannedLine.results).length

/-- All further results; after that the end has been reported. -/
def drain (s : Delivery) : List Result × Delivery × List Signal := s.take (s.remaining + 1)

end Delivery

/-! ## Following the signals -/

/-- The findings among signals go to a collector. -/
def Collector.follow (c : Collector) (signals : List Signal) : Collector :=
  signals.foldl (fun c s => match s with
    | .finding d => c.report d
    | .trace _ => c) c

namespace Trace

/-- The number of an attribute. -/
def count (n : Nat) : Bytes := Bytes.decimal n

/-- One entry of the record of a scan, made by a tracer inside the span
`parent`.  `span` is the span of the scan, zero before it begins. -/
def Recorder.act (k : Recorder) (t : Tracer) (parent span : Nat) :
    TraceAction → Recorder × Option Nat
  | .begin file =>
      match k.begin t .pass (utf8 "scan") parent with
      | (k, none) => (k, none)
      | (k, some id) => (k.setExtra id (utf8 "file") file, some id)
  | .point scope name detail extra =>
      let (k, ok) := k.spanPoint span scope name detail extra
      (k, if ok then some span else none)
  | .finish stats =>
      let k := k.setExtra span (utf8 "lines") (count stats.lines)
      let k := k.setExtra span (utf8 "tokens") (count stats.tokens)
      let k := k.setExtra span (utf8 "errors") (count stats.errors)
      let (k, ok) := k.finish span []
      (k, if ok then some span else none)

/-- The entries among signals are made by a tracer; the last part says whether
all sinks were there. -/
def Recorder.follow (k : Recorder) (t : Tracer) (parent span : Nat) :
    List Signal → Recorder × Bool
  | [] => (k, true)
  | .finding _ :: rest => k.follow t parent span rest
  | .trace a :: rest =>
      match k.act t parent span a with
      | (k, none) => (k, false)
      | (k, some span) => k.follow t parent span rest

end Trace

end LineLexer
