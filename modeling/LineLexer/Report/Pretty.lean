/-
# `Report.Pretty` — findings for people

A finding is shown with its place, the line it is on, and a mark below:

    main:3:9: ERROR LEX1001: invalid character '$'
    2 | var b = 2
    3 | var c = $
      |         ^

Then follow its notes and its fixes, as far as they are wanted.  A finding
in an unknown buffer is shown by its first line only.  Notes and edits of
the others need a known buffer: without one there is no report.  Nor is
there one if a tab in a line asks for more spaces than a text can have, or if
something does not fit a word of 32 bits.
-/
import LineLexer.Report.Color
import LineLexer.Report.Name
import LineLexer.Report.Preview
import LineLexer.Text.Width

namespace LineLexer.Report

/-- What a report for people shows, and how. -/
structure PrettyOptions where
  color : Bool := false
  /-- How many lines are shown above the one with the finding. -/
  context : UInt8 := 0
  /-- The distance of tab stops; zero or below means the default. -/
  tabWidth : Int := 0
  names : NameMode := .automatic
  notes : Bool := false
  fixes : Bool := false
  /-- Whether edits are shown with the lines they touch. -/
  preview : Bool := false
deriving DecidableEq, Repr

/-- The distance of tab stops where none is given. -/
def defaultTabWidth : Nat := 4

/-- The distance of tab stops. -/
def PrettyOptions.tabStop (o : PrettyOptions) : Nat :=
  if o.tabWidth ≤ 0 then defaultTabWidth else o.tabWidth.toNat

/-- The texts of the members of a list, one after the other; none if a member has none. -/
def texts? {α : Type} (text? : α → Option Bytes) (l : List α) : Option Bytes :=
  (l.mapM text?).map List.flatten

/-! ## Lines -/

def spaces (n : Nat) : Bytes := List.replicate n 0x20

/-- The length that no text exceeds. -/
def longestText : Nat := 1 <<< 48

/-- Replaces tabs by spaces up to the next tab stop; the text starts in column
`col`, and a character takes as many columns as `cells` says.  None if a tab
asks for more spaces than a text can have. -/
def expandFrom? (cells : Char → Nat) (tab : Nat) (col : Nat) : List Glyph → Option Bytes
  | [] => some []
  | g :: gs =>
      if g.char = '\t' then
        let n := tab - col % tab
        if n ≤ longestText then (expandFrom? cells tab (col + n) gs).map (spaces n ++ ·) else none
      else (expandFrom? cells tab (col + cells g.char) gs).map (Bytes.ofChar g.char ++ ·)

/-- A text with spaces for its tabs; a text without tabs stays as it is. -/
def expandTabs? (cells : Char → Nat) (tab : Nat) (s : Bytes) : Option Bytes :=
  if s.contains 0x09 then expandFrom? cells tab 0 (glyphs s) else some s

/-- A text as it is printed. -/
def printed? (o : PrettyOptions) (s : Bytes) : Option Bytes :=
  expandTabs? Text.charWidth o.tabStop s

/-- The margin in front of a line, which holds its number if it has one. -/
def margin (o : PrettyOptions) (width : Nat) (label : Bytes) : Bytes :=
  paint o.color [.blue] (Bytes.padLeft width 0x20 label ++ utf8 " |") ++ utf8 " "

/-- The mark below a text that takes `width` columns. -/
def marker (width : Nat) : Bytes := utf8 "^" ++ List.replicate (width - 1) 0x7E

/-- The lines that are shown for a finding, with their numbers: those above it, as many
as are wanted, and its own.  Here an empty buffer has an empty line.  They are counted in a
word, so behind the last number that fits one the count does not come to an end. -/
def shownLines? (o : PrettyOptions) (f : File) (line : Nat) : Option (List (Nat × Bytes)) := do
  let lines ← f.lines?
  let context := o.context.toNat
  let first := if context < line then line - context else 1
  if line + 1 < wordLimit then
    some ((List.range' first (line + 1 - first)).zip ((lines.map Line.text ++ [[]]).drop (first - 1)))
  else none

/-- A line behind its number. -/
def numberedLine? (o : PrettyOptions) (width : Nat) (l : Nat × Bytes) : Option Bytes := do
  let text ← printed? o l.2
  return margin o width (Bytes.decimal l.1) ++ text ++ utf8 "\n"

/-- The two ends of what a line from offset `lo` to offset `hi` has of a span, which may lie
anywhere and end before it starts. -/
def partIn (s : Span) (lo hi : Nat) : Nat × Nat :=
  let start := min (max s.start lo) hi
  (start, min (max s.stop start) hi)

/-- The mark below a line from offset `lo` to offset `hi`, under what the line has of the
span. -/
def markLine? (o : PrettyOptions) (f : File) (s : Span) (width lo hi : Nat) : Option Bytes := do
  let (start, stop) := partIn s lo hi
  let before ← f.content.slice? lo start
  let inside ← f.content.slice? start stop
  let front ← printed? o before
  let whole ← printed? o (before ++ inside)
  let pad := Text.width front
  let under := Text.width whole - pad
  return margin o width [] ++ spaces pad ++ paint o.color [.red, .bold] (marker under) ++ utf8 "\n"

/-- The line of a finding with the lines above it, and the mark below; nothing if the
buffer has no such line. -/
def snippet? (o : PrettyOptions) (f : File) (s : Span) (line : Nat) : Option Bytes :=
  if line = 0 ∨ max f.lineCount 1 < line then some []
  else do
    let width := (Bytes.decimal line).length
    let lines ← shownLines? o f line
    let shown ← texts? (numberedLine? o width) lines
    let lo := f.startWord line
    let text ← f.line? line
    let mark ← markLine? o f s width lo (lo + text.length)
    return shown ++ mark

/-! ## Findings -/

/-- How the name of a severity looks. -/
def severityStyle (s : Severity) : Style :=
  if s = .error then [.red, .bold] else if s = .warning then [.yellow, .bold] else [.cyan, .bold]

/-- Severity, code and message. -/
def headline (o : PrettyOptions) (d : Diagnostic) : Bytes :=
  paint o.color (severityStyle d.severity) d.severity.name ++ utf8 " " ++ d.code.id ++ utf8 ": "
    ++ d.message ++ utf8 "\n"

/-- A note, under the name of the finding's buffer. -/
def noteText? (fs : FileSet) (o : PrettyOptions) (name : Bytes) (n : Note) : Option Bytes := do
  let (start, _) ← fs.resolve? n.span
  return utf8 "  " ++ paint o.color [.cyan] (utf8 "note:") ++ utf8 " " ++ name ++ utf8 ":"
    ++ start.text ++ utf8 ": " ++ n.message ++ utf8 "\n"

/-- One side of a preview. -/
def previewText (o : PrettyOptions) (style : Style) (sign : String) (lines : List Bytes) : Bytes :=
  lines.flatMap fun l => utf8 "      " ++ paint o.color style (utf8 sign ++ l) ++ utf8 "\n"

/-- The preview of an edit, if it is wanted and there is one. -/
def editPreview? (fs : FileSet) (o : PrettyOptions) (e : Edit) : Option Bytes :=
  if o.preview then
    (Preview.shown? fs e).map fun
      | none => []
      | some p => utf8 "    preview:\n" ++ previewText o [.red] "- " p.before
          ++ previewText o [.green] "+ " p.after
  else some []

/-- An edit with its preview. -/
def editText? (fs : FileSet) (o : PrettyOptions) (name : Bytes) (e : Edit) : Option Bytes := do
  let (start, stop) ← fs.resolve? e.span
  let preview ← editPreview? fs o e
  return utf8 "    " ++ name ++ utf8 ":" ++ start.text ++ utf8 "-" ++ stop.text
    ++ utf8 " apply=" ++ Text.quoted e.text ++ utf8 "\n" ++ preview

/-- The `n`-th fix with its edits. -/
def fixText? (fs : FileSet) (o : PrettyOptions) (name : Bytes) (n : Nat) (f : Fix) :
    Option Bytes := do
  let edits ← texts? (editText? fs o name) f.edits
  return utf8 "  " ++ paint o.color [.green] (utf8 "fix #" ++ Bytes.decimal n ++ utf8 ":")
    ++ utf8 " " ++ f.title ++ utf8 "\n" ++ edits

/-- The notes of a finding, if they are wanted. -/
def notesText? (fs : FileSet) (o : PrettyOptions) (name : Bytes) (d : Diagnostic) : Option Bytes :=
  if o.notes then texts? (noteText? fs o name) d.notes else some []

/-- The fixes of a finding, if they are wanted. -/
def fixesText? (fs : FileSet) (o : PrettyOptions) (name : Bytes) (d : Diagnostic) : Option Bytes :=
  if o.fixes then texts? (fun (x, i) => fixText? fs o name (i + 1) x) d.fixes.zipIdx else some []

/-- One finding. -/
def findingText? (fs : FileSet) (o : PrettyOptions) (d : Diagnostic) : Option Bytes :=
  match fs.get? d.primary.file with
  | none => some (headline o d)
  | some f => do
      let (start, _) ← fs.resolve? d.primary
      let name := displayName o.names f.name
      let lines ← snippet? o f d.primary start.line
      let notes ← notesText? fs o name d
      let fixes ← fixesText? fs o name d
      return paint o.color [.bold] (name ++ utf8 ":" ++ start.text ++ utf8 ":") ++ utf8 " "
        ++ headline o d ++ lines ++ notes ++ fixes

/-- The report for people; none if a line in it cannot be shown, or a note or an
edit that it shows is in an unknown buffer. -/
def pretty? (fs : FileSet) (o : PrettyOptions) (ds : List Diagnostic) : Option Bytes :=
  texts? (findingText? fs o) ds

end LineLexer.Report
