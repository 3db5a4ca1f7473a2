/-
# `Diagnostic.Basic` — findings about a buffer

A diagnostic has a severity, a code, a message and a primary span, notes
that point elsewhere, and fixes that suggest edits.  Severities and codes
are numbers of which only some have names.
-/
import LineLexer.Source.Span
import LineLexer.Text.Quoted

namespace LineLexer

/-- How serious a finding is; the higher the rank, the worse. -/
structure Severity where
  rank : UInt8
deriving DecidableEq, Repr, Hashable, Inhabited

namespace Severity

def info : Severity := ⟨0⟩
def warning : Severity := ⟨1⟩
def error : Severity := ⟨2⟩

/-- The name of a severity. -/
def name (s : Severity) : Bytes :=
  if s = info then utf8 "INFO"
  else if s = warning then utf8 "WARNING"
  else if s = error then utf8 "ERROR"
  else utf8 "UNKNOWN"

/-- The severity with a given name. -/
def ofName? (s : Bytes) : Option Severity := [info, warning, error].find? fun sev => sev.name = s

/-- The complaint about a name that no severity has. -/
def unknownMessage (s : Bytes) : Bytes := utf8 "unknown severity " ++ Text.quoted s

/-- The severity as it stands in front of a message; what has no name of its
own counts as information. -/
def label (s : Severity) : Bytes :=
  if s = error then utf8 "error" else if s = warning then utf8 "warning" else utf8 "info"

end Severity

/-- The number of a kind of finding; its thousands name a family. -/
structure Code where
  num : UInt16
deriving DecidableEq, Repr, Hashable, Inhabited

namespace Code

def unknown : Code := ⟨0⟩
def lexInfo : Code := ⟨1000⟩
def invalidCharacter : Code := ⟨1001⟩
def unexpectedLineEnd : Code := ⟨1002⟩
def observability : Code := ⟨6000⟩
def timings : Code := ⟨6001⟩

/-- The letters of a family of codes. -/
def family? (c : Code) : Option String :=
  match (c.num / 1000).toNat with
  | 1 => some "LEX"
  | 6 => some "OBS"
  | _ => none

/-- The code as text: the letters of its family and four digits. -/
def id (c : Code) : Bytes :=
  match c.family? with
  | some letters => utf8 letters ++ Bytes.padLeft 4 0x30 (Bytes.decimal c.num.toNat)
  | none => utf8 "E0000"

/-- The heading of a code. -/
def title (c : Code) : Bytes :=
  if c = lexInfo then utf8 "Lexical information"
  else if c = invalidCharacter then utf8 "Invalid character"
  else if c = unexpectedLineEnd then utf8 "Unexpected line end"
  else if c = observability then utf8 "Observability information"
  else if c = timings then utf8 "Pipeline timings"
  else utf8 "Unknown error"

/-- The code with its heading. -/
def text (c : Code) : Bytes := utf8 "[" ++ c.id ++ utf8 "]: " ++ c.title

end Code

/-- A remark about another place. -/
structure Note where
  span : Span
  message : Bytes
deriving DecidableEq, Repr

/-- A change of the buffer: the bytes of a span give way to a text. -/
structure Edit where
  span : Span
  text : Bytes
deriving DecidableEq, Repr

/-- A suggested repair. -/
structure Fix where
  title : Bytes
  edits : List Edit
deriving DecidableEq, Repr

/-- One finding. -/
structure Diagnostic where
  severity : Severity
  code : Code
  message : Bytes
  primary : Span
  notes : List Note
  fixes : List Fix
deriving DecidableEq, Repr

namespace Diagnostic

/-- A finding without notes and fixes. -/
def plain (severity : Severity) (code : Code) (primary : Span) (message : Bytes) : Diagnostic :=
  ⟨severity, code, message, primary, [], []⟩

/-- The finding that nothing was said about. -/
def blank : Diagnostic := plain .info .unknown ⟨0, 0, 0⟩ []

/-- The finding with all its spans in another buffer. -/
def inFile (file : Nat) (d : Diagnostic) : Diagnostic :=
  let move (s : Span) : Span := { s with file }
  { d with
    primary := move d.primary
    notes := d.notes.map fun n => { n with span := move n.span }
    fixes := d.fixes.map fun f =>
      { f with edits := f.edits.map fun e => { e with span := move e.span } } }

end Diagnostic

end LineLexer
