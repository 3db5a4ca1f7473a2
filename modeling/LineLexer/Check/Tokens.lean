/-
# `Check.Tokens` — do tokens fit the buffer they came from?

Every token has a valid kind and, unless it is a string, a lexeme that is not
empty; coordinates increase and stay inside the buffer; the source text of a
token stands at its coordinate; words and symbols have the kind that the
vocabularies give them.  This holds whether or not the scan found errors.
The number of the last line must fit a word of 32 bits, as those of the tokens
do; the buffer is taken to be short enough for its lines to be read.
-/
import LineLexer.Source.File
import LineLexer.Token.Vocabulary

namespace LineLexer.Check

/-- What is wrong with a list of tokens; `index` counts them from zero. -/
inductive Violation
  | noFile
  /-- The number of the last line does not fit a word. -/
  | tooManyLines
  | invalidKind (index : Nat) (kind : Kind)
  | emptyLexeme (index : Nat) (kind : Kind)
  | outOfRange (index : Nat) (coord : Coord)
  | notAfter (index : Nat) (coord before : Coord)
  | pastLineEnd (index : Nat) (coord : Coord)
  | mismatch (index : Nat) (expected : Bytes) (coord : Coord) (found : Bytes)
  | keywordAsIdentifier (index : Nat) (lexeme : Bytes)
  | notKeyword (index : Nat) (lexeme : Bytes)
  | notSymbol (index : Nat) (lexeme : Bytes)
  | uncovered (coord : Coord) (char : Char)
deriving DecidableEq, Repr

namespace Violation

/-- A complaint about the token with an index. -/
def aboutToken (index : Nat) (s : Bytes) : Bytes :=
  utf8 "token " ++ Bytes.decimal index ++ utf8 ": " ++ s

/-- The text of a complaint. -/
def message : Violation → Bytes
  | noFile => utf8 "nil file"
  | tooManyLines => utf8 "line count overflow: out of range"
  | invalidKind i k => aboutToken i (utf8 "invalid kind " ++ Bytes.decimal k.code.toNat)
  | emptyLexeme i k => aboutToken i (utf8 "empty lexeme for " ++ k.name)
  | outOfRange i c => aboutToken i (utf8 "coordinate " ++ c.text ++ utf8 " out of range")
  | notAfter i c b =>
      aboutToken i (utf8 "coordinate " ++ c.text ++ utf8 " does not follow " ++ b.text)
  | pastLineEnd i c =>
      aboutToken i (utf8 "column " ++ Bytes.decimal c.column ++ utf8 " past end of line "
        ++ Bytes.decimal c.line)
  | mismatch i expected c found =>
      aboutToken i (utf8 "expected " ++ Text.quoted expected ++ utf8 " at " ++ c.text
        ++ utf8 ", found " ++ Text.quoted found)
  | keywordAsIdentifier i s =>
      aboutToken i (utf8 "keyword " ++ Text.quoted s ++ utf8 " classified as Id")
  | notKeyword i s => aboutToken i (Text.quoted s ++ utf8 " is not a keyword")
  | notSymbol i s => aboutToken i (Text.quoted s ++ utf8 " is not a symbol")
  | uncovered c char =>
      c.text ++ utf8 ": " ++ Text.quotedChar char.toNat ++ utf8 " is not covered by any token"

end Violation

/-- The lines of a buffer, each as its characters. -/
abbrev Lines := Array (List Glyph)

/-- The lines of a buffer. -/
def Lines.of (f : File) : Lines := (f.lines.map fun l => glyphs l.text).toArray

/-- The first `size` bytes of a line from a column on; none if the line has no
character there. -/
def textAt? (line : List Glyph) (column size : Nat) : Option Bytes :=
  match line.drop (column - 1) with
  | [] => none
  | gs => some (((gs.take size).flatMap Glyph.bytes).take size)

/-- Does the token's kind fit its lexeme? -/
def kindViolation? (index : Nat) (t : Token) : Option Violation :=
  match t.kind with
  | .identifier => if isKeyword t.lexeme then some (.keywordAsIdentifier index t.lexeme) else none
  | .keyword => if isKeyword t.lexeme then none else some (.notKeyword index t.lexeme)
  | .punctuation => if symbols.contains t.lexeme then none else some (.notSymbol index t.lexeme)
  | _ => none

/-- Does the token stand in its line where it says? -/
def placeViolation? (line : List Glyph) (index : Nat) (t : Token) : Option Violation :=
  match textAt? line t.coord.column t.source.length with
  | none => some (.pastLineEnd index t.coord)
  | some found =>
      if found = t.source then kindViolation? index t
      else some (.mismatch index t.source t.coord found)

/-- The first thing wrong with a token that comes after the coordinate
`before`, if there was one. -/
def tokenViolation? (lines : Lines) (index : Nat) (before : Option Coord) (t : Token) :
    Option Violation :=
  let line := lines[t.coord.line - 1]?.getD []
  if !t.kind.isValid then some (.invalidKind index t.kind)
  else if t.lexeme.isEmpty && t.kind != .stringLiteral then some (.emptyLexeme index t.kind)
  else if t.coord.line == 0 || t.coord.column == 0 || lines.size < t.coord.line then
    some (.outOfRange index t.coord)
  else match before with
    | some b =>
        if b.before t.coord then placeViolation? line index t else some (.notAfter index t.coord b)
    | none => placeViolation? line index t

/-- The first thing wrong with tokens, of which the first has an index. -/
def violationFrom? (lines : Lines) (index : Nat) (before : Option Coord) :
    List Token → Option Violation
  | [] => none
  | t :: ts =>
      match tokenViolation? lines index before t with
      | some v => some v
      | none => violationFrom? lines (index + 1) (some t.coord) ts

/-- The first thing wrong with the tokens of a buffer. -/
def violation? (f? : Option File) (ts : List Token) : Option Violation :=
  match f? with
  | none => some .noFile
  | some f =>
      if f.lineCount < wordLimit then violationFrom? (.of f) 0 none ts
      else some .tooManyLines

end LineLexer.Check
