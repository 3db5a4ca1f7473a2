/-
# `Diagnostic.Summary` — findings for comparison

One line per finding (and, if wanted, per note) whose buffer is known:

    error LEX1001 main:1:5 invalid character '$'

The lines are ordered by buffer name, place, label, code and message, so
the order in which the findings were made does not show.  Places are exact
(`File.position`): the buffers are taken to be short enough for their words.
-/
import LineLexer.Diagnostic.Basic
import LineLexer.Source.File
import LineLexer.Text.Blank

namespace LineLexer

/-- One line of the summary. -/
structure SummaryLine where
  label : Bytes
  code : Bytes
  name : Bytes
  coord : Coord
  message : Bytes
deriving DecidableEq, Repr

namespace SummaryLine

/-- Line breaks become single spaces: the pair of carriage return and line
feed counts once. -/
def foldBreaks : Bytes → Bytes
  | [] => []
  | 0x0D :: 0x0A :: s => 0x20 :: foldBreaks s
  | b :: s => (if b = 0x0D ∨ b = 0x0A then 0x20 else b) :: foldBreaks s

/-- A message on one line, without white space at the ends. -/
def oneLine (message : Bytes) : Bytes := Text.trim (foldBreaks message)

/-- The order of two texts by their bytes. -/
def compareBytes (s t : Bytes) : Ordering :=
  if s.lt t then .lt else if t.lt s then .gt else .eq

/-- The order of the lines. -/
def compare (x y : SummaryLine) : Ordering :=
  (compareBytes x.name y.name)
    |>.then (Ord.compare x.coord.line y.coord.line)
    |>.then (Ord.compare x.coord.column y.coord.column)
    |>.then (compareBytes x.label y.label)
    |>.then (compareBytes x.code y.code)
    |>.then (compareBytes x.message y.message)

/-- The line as text. -/
def text (l : SummaryLine) : Bytes :=
  Bytes.join (utf8 " ") [l.label, l.code, l.name ++ utf8 ":" ++ l.coord.text, l.message]

/-- The line for a message at a span; none for an unknown buffer. -/
def of? (fs : FileSet) (label : Bytes) (code : Code) (span : Span) (message : Bytes) :
    Option SummaryLine :=
  (fs.get? span.file).map fun f =>
    ⟨label, code.id, f.name, f.position span.start, oneLine message⟩

/-- The lines of one finding. -/
def ofDiagnostic (fs : FileSet) (notes : Bool) (d : Diagnostic) : List SummaryLine :=
  (of? fs d.severity.label d.code d.primary d.message).toList ++
    (if notes then d.notes.filterMap fun n => of? fs (utf8 "note") d.code n.span n.message else [])

end SummaryLine

end LineLexer
