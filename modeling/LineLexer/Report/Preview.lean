/-
# `Report.Preview` — the lines an edit touches, before and after it

An edit is previewed on whole lines: from the start of the line where it
begins to the end of the line where it ends.
-/
import LineLexer.Diagnostic.Basic
import LineLexer.Source.File

namespace LineLexer.Report

/-- Whole lines, before and after an edit. -/
structure Preview where
  before : List Bytes
  after : List Bytes
deriving DecidableEq, Repr

/-- The lines of a text; an empty text has none. -/
def previewLines (s : Bytes) : List Bytes := if s.isEmpty then [] else s.splitOn 0x0A

/-- The offset of the line feed that ends a line, or else of the buffer's end; none if
that does not fit a word. -/
def lineStop? (f : File) (n : Nat) : Option Nat :=
  if n = 0 then f.length?
  else match f.lineEnds[n - 1]? with
    | some stop => some stop
    | none => f.length?

/-- Why an edit has no preview. -/
inductive PreviewError where
  | unknownFile (file : Nat)
  /-- The span ends before it starts, or behind the end of its buffer. -/
  | outOfRange (span : Span)
  /-- The number of a line, or the length of the buffer, does not fit a word. -/
  | outOfWords (span : Span)
  /-- The span reaches out of the lines that were found for it. -/
  | outOfBlock (span : Span)
deriving DecidableEq, Repr

/-- The whole lines that a span touches, and the offset where they start; none if a
number does not fit its word. -/
def block? (f : File) (s : Span) : Option (Nat × Bytes) := do
  let first ← f.position? s.start
  let start := f.startWord first.line
  let last ← f.position? s.stop
  let stop ← lineStop? f last.line
  let text ← f.text? ⟨f.id, start, stop⟩
  return (start, text)

/-- A block of text after an edit, where `start` is the offset of the block in
the buffer; none if the span of the edit reaches out of the block. -/
def editedBlock? (e : Edit) (start : Nat) (block : Bytes) : Option Bytes :=
  let head := e.span.start - start
  if start ≤ e.span.start ∧ head + e.span.length ≤ block.length then
    some (block.take head ++ e.text ++ block.drop (head + e.span.length))
  else none

/-- The lines that an edit touches, or why they cannot be shown. -/
def Preview.ofEdit (fs : FileSet) (e : Edit) : Except PreviewError Preview :=
  match fs.get? e.span.file with
  | none => .error (.unknownFile e.span.file)
  | some f =>
      if e.span.stop < e.span.start ∨ f.content.length < e.span.stop then
        .error (.outOfRange e.span)
      else match block? f e.span with
        | none => .error (.outOfWords e.span)
        | some (start, before) =>
            match editedBlock? e start before with
            | some after => .ok ⟨previewLines before, previewLines after⟩
            | none => .error (.outOfBlock e.span)

/-- The lines that an edit touches, as far as a preview is not refused.  There is no
answer at all if a number does not fit its word, or if the edit is to be made outside of
the lines that were found for it. -/
def Preview.shown? (fs : FileSet) (e : Edit) : Option (Option Preview) :=
  match Preview.ofEdit fs e with
  | .ok p => some (some p)
  | .error (.outOfBlock _) | .error (.outOfWords _) => none
  | .error _ => some none

end LineLexer.Report
