/-
# `Session.Options` — how a session works

Options say how buffers are scanned and where the trace goes; they can be
made from settings, and so can the options of rendered results.
-/
import LineLexer.Report.Pretty
import LineLexer.Settings.Basic
import LineLexer.Trace.Recorder

namespace LineLexer.Session

/-- How buffers are scanned. -/
structure Options where
  /-- How many findings are kept of one buffer. -/
  maxDiagnostics : Int := 0
  dedup : Bool := false
  jobs : Int := 0
  /-- Whether the times of the phases become a finding. -/
  timings : Bool := false
  tracer? : Option Trace.Tracer := none
  /-- Whether somebody is told about phases. -/
  observed : Bool := false

namespace Options

/-- The tracer of the options; one that takes no notice if none was given. -/
def tracer (o : Options) : Trace.Tracer := o.tracer?.getD .nop

/-- Why settings give no options. -/
inductive Error
  | level (name : Bytes)
  | format (name : Bytes)
  | mode (name : Bytes)
  | tracer (e : Trace.TracerError)
deriving DecidableEq, Repr

def Error.message : Error → Bytes
  | level name => utf8 "trace level: " ++ Trace.Level.unknownMessage name
  | format name => utf8 "trace format: " ++ Trace.Format.unknownMessage name
  | mode name => utf8 "trace mode: " ++ Trace.Storage.unknownMessage name
  | tracer e => utf8 "create tracer: " ++ e.message

/-- The options that settings describe, with a new tracer that may write to
`writer`. -/
def ofSettings (s : Settings) (k : Trace.Recorder) (writer : Nat) :
    Except Error (Trace.Recorder × Options) :=
  match Trace.Level.ofName? s.trace.level with
  | none => .error (.level s.trace.level)
  | some level =>
      match Trace.Format.ofName? s.trace.format with
      | none => .error (.format s.trace.format)
      | some format =>
          match Trace.Storage.ofName? s.trace.mode with
          | none => .error (.mode s.trace.mode)
          | some storage =>
              match k.addTracer level storage format s.trace.ringSize writer with
              | .error e => .error (.tracer e)
              | .ok (k, tracer) =>
                  .ok (k, {
                    maxDiagnostics := s.scan.maxDiagnostics
                    dedup := s.scan.dedup
                    jobs := s.scan.jobs
                    tracer? := some tracer })

end Options

/-- How a result is rendered. -/
structure RenderOptions where
  listing : ListingForm := .pretty
  /-- Whether the list of tokens is coloured. -/
  color : Bool := false
  pretty : Report.PrettyOptions := {}
deriving DecidableEq, Repr

namespace RenderOptions

/-- Why settings give no options for rendering. -/
inductive Error
  | tokens (name : Bytes)
  | context (n : Int)
deriving DecidableEq, Repr

def Error.message : Error → Bytes
  | tokens name => utf8 "render tokens: " ++ ListingForm.unknownMessage name
  | context n => utf8 "render context: " ++ Bytes.decimalInt n ++ utf8 " out of range"

/-- The options for rendering that settings describe; notes and fixes are
shown. -/
def ofSettings (s : Settings) : Except Error RenderOptions :=
  match ListingForm.ofName? s.render.tokens with
  | none => .error (.tokens s.render.tokens)
  | some listing =>
      if 0 ≤ s.render.context ∧ s.render.context ≤ 255 then
        .ok {
          listing
          color := s.render.color
          pretty := {
            color := s.render.color
            context := s.render.context.toNat.toUInt8
            tabWidth := s.render.tabWidth
            notes := true
            fixes := true } }
      else .error (.context s.render.context)

end RenderOptions

end LineLexer.Session
