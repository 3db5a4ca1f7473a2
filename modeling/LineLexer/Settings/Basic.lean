/-
# `Settings.Basic` — what can be set, and within which bounds

Settings have three sections: the scan, its trace, and how results are
shown.  Numbers and names in them can be out of bounds; `violations` lists
all that is wrong, in the order of the settings.
-/
import LineLexer.Trace.Level

namespace LineLexer

/-- The form of a list of tokens. -/
inductive ListingForm
  | pretty
  | json
deriving DecidableEq, Repr

namespace ListingForm

def code : ListingForm → Nat
  | pretty => 0
  | json => 1

/-- Number 1 is JSON, any other number the form for people. -/
def ofCode (n : Nat) : ListingForm := if n = 1 then json else pretty

/-- The form with a given name; the empty name means the form for people. -/
def ofName? (s : Bytes) : Option ListingForm :=
  if s.isEmpty ∨ s = utf8 "pretty" then some pretty
  else if s = utf8 "json" then some json
  else none

/-- The complaint about a name that no form has. -/
def unknownMessage (s : Bytes) : Bytes :=
  utf8 "invalid listing format " ++ Text.quoted s ++ utf8 " (expected: pretty|json)"

end ListingForm

namespace Settings

/-- How buffers are scanned. -/
structure Scan where
  maxDiagnostics : Int := 100
  dedup : Bool := true
  /-- How many buffers are scanned at a time; zero leaves it open. -/
  jobs : Int := 0
deriving DecidableEq, Repr

/-- What is traced, and where it goes. -/
structure Trace where
  level : Bytes := utf8 "off"
  format : Bytes := utf8 "text"
  mode : Bytes := utf8 "stream"
  ringSize : Int := 4096
deriving DecidableEq, Repr

/-- How results are shown. -/
structure Render where
  color : Bool := false
  /-- How many lines are shown around a diagnostic. -/
  context : Int := 1
  tabWidth : Int := 4
  tokens : Bytes := utf8 "pretty"
deriving DecidableEq, Repr

end Settings

/-- All settings; each has a value when the text does not give one. -/
structure Settings where
  scan : Settings.Scan := {}
  trace : Settings.Trace := {}
  render : Settings.Render := {}
deriving DecidableEq, Repr

namespace Settings

/-- Something that is wrong with settings. -/
inductive Violation
  | maxDiagnostics (n : Int)
  | jobs (n : Int)
  | level (name : Bytes)
  | format (name : Bytes)
  | mode (name : Bytes)
  | ringSize (n : Int)
  | context (n : Int)
  | tabWidth (n : Int)
  | tokens (name : Bytes)
deriving DecidableEq, Repr

/-- The text of a complaint. -/
def Violation.message : Violation → Bytes
  | maxDiagnostics n =>
      utf8 "[scan].max_diagnostics must be within 0..65535, got " ++ Bytes.decimalInt n
  | jobs n => utf8 "[scan].jobs must not be negative, got " ++ Bytes.decimalInt n
  | level name => utf8 "[trace].level: " ++ Trace.Level.unknownMessage name
  | format name => utf8 "[trace].format: " ++ Trace.Format.unknownMessage name
  | mode name => utf8 "[trace].mode: " ++ Trace.Storage.unknownMessage name
  | ringSize n => utf8 "[trace].ring_size must not be negative, got " ++ Bytes.decimalInt n
  | context n => utf8 "[render].context must be within 0..255, got " ++ Bytes.decimalInt n
  | tabWidth n => utf8 "[render].tab_width must not be negative, got " ++ Bytes.decimalInt n
  | tokens name => utf8 "[render].tokens: " ++ ListingForm.unknownMessage name

/-- The violation, where a condition fails. -/
def complaint (ok : Bool) (v : Violation) : List Violation := if ok then [] else [v]

/-- All that is wrong with settings.  Here the form of a token list has to be
named. -/
def violations (s : Settings) : List Violation :=
  complaint (0 ≤ s.scan.maxDiagnostics && s.scan.maxDiagnostics ≤ 65535)
      (.maxDiagnostics s.scan.maxDiagnostics)
    ++ complaint (0 ≤ s.scan.jobs) (.jobs s.scan.jobs)
    ++ complaint (Trace.Level.ofName? s.trace.level).isSome (.level s.trace.level)
    ++ complaint (Trace.Format.ofName? s.trace.format).isSome (.format s.trace.format)
    ++ complaint (Trace.Storage.ofName? s.trace.mode).isSome (.mode s.trace.mode)
    ++ complaint (0 ≤ s.trace.ringSize) (.ringSize s.trace.ringSize)
    ++ complaint (0 ≤ s.render.context && s.render.context ≤ 255) (.context s.render.context)
    ++ complaint (0 ≤ s.render.tabWidth) (.tabWidth s.render.tabWidth)
    ++ complaint (s.render.tokens = utf8 "pretty" || s.render.tokens = utf8 "json")
        (.tokens s.render.tokens)

/-- The text of all complaints, one per line. -/
def Violation.messages (vs : List Violation) : Bytes :=
  Bytes.join (utf8 "\n") (vs.map Violation.message)

end Settings

end LineLexer
