/-
# `Scan.Line` — one line, one character at a time

The machine reads a line from left to right.  Between tokens it is `clean`;
inside one it remembers where the token started, what it has read of it
(last byte first), and for punctuation the symbols that can still come out.
Each character moves the machine to a next state and may complete results;
the end of the line completes what is open.

* A word or a number ends at white space or at a character that starts a
  symbol.  Any other character that cannot go on with it is an error, and
  the word is given up.
* A symbol is taken as soon as it is the only one left; if the next
  character fits none of the symbols left, what was read is the symbol, or
  an error if it is none.
* A string ends at the next quote.

No state is carried from one line to the next.

`Line.scan` counts columns without a limit, and `Line.walk` reads the line
with a cursor, whose column is a word.
-/
import LineLexer.Scan.Cursor
import LineLexer.Scan.Error
import LineLexer.Source.File
import LineLexer.Token.Vocabulary

namespace LineLexer

/-! ## Character classes

Only ASCII characters start or continue tokens outside strings. -/

/-- Whether a character starts a word. -/
def isWordStart (c : Char) : Bool := c = '_' || c.isAlpha

/-- Whether a character goes on with a word. -/
def isWordChar (c : Char) : Bool := isWordStart c || c.isDigit

/-- Whether a character goes on with a number. -/
def isNumberChar (c : Char) : Bool := c = '_' || c.isDigit

/-- White space inside a line. -/
def isSpace (c : Char) : Bool :=
  c = ' ' || c = '\t' || c = '\r' || c = '\x0b' || c = '\x0c'

/-- Whether some symbol starts with the character. -/
def startsSymbol (c : Char) : Bool := symbols.startsAny c.toNat

/-- Whether the character ends a word or a number and is read again after it. -/
def endsWord (c : Char) : Bool := isSpace c || startsSymbol c

/-! ## States -/

/-- What the machine is in the middle of.  `read` is what has been read since
`start`, last byte first. -/
inductive State
  /-- No token has been started. -/
  | clean
  | word (start : Mark) (read : Bytes)
  | number (start : Mark) (read : Bytes)
  /-- Inside a string; `read` leaves out the opening quote, which is at `start`. -/
  | string (start : Mark) (read : Bytes)
  /-- `left` are the symbols that begin with what was read. -/
  | symbol (start : Mark) (read : Bytes) (left : List Bytes)
deriving DecidableEq, Repr

namespace Line

/-! ## Results -/

/-- The coordinate of a place in the line. -/
def coord (ln : Line) (m : Mark) : Coord := ⟨ln.num, m.col⟩

/-- The span between two offsets in the line. -/
def span (ln : Line) (lo hi : Nat) : Span := ⟨ln.file, ln.start + lo, ln.start + hi⟩

/-- A completed token. -/
def emit (ln : Line) (kind : Kind) (lexeme : Bytes) (start : Mark) : Result :=
  .token ⟨kind, lexeme, ln.coord start⟩

/-- The character at `here` is out of place. -/
def misplaced (ln : Line) (here : Mark) (g : Glyph) (context : Bytes) : Result :=
  .error ⟨.invalidCharacter, g.char.toNat, ln.coord here, context,
    ln.span here.off (here.off + g.size), []⟩

/-- Offers to complete the beginning `acc` of a symbol, read at `start`. -/
def completions (ln : Line) (start : Mark) (acc : Bytes) (left : List Bytes) : List Fix :=
  left.map fun s =>
    ⟨utf8 "replace with " ++ Text.quoted s,
      [⟨ln.span start.off (start.off + acc.length), s⟩]⟩

/-- What was read since `start` is no symbol, and no symbol goes on with the
character at `here`. -/
def badSequence (ln : Line) (start : Mark) (acc : Bytes) (left : List Bytes) (here : Mark)
    (g : Glyph) : Result :=
  .error ⟨.invalidCharacter, Vocabulary.firstCode acc, ln.coord start,
    utf8 "invalid punctuation sequence " ++ Text.quoted (acc ++ Bytes.ofChar g.char),
    ln.span start.off (here.off + g.size), ln.completions start acc left⟩

/-- The line ended inside a token; the error is at its last character. -/
def openAtEnd (ln : Line) (eol : Mark) (context : Bytes) (fixes : List Fix) : Result :=
  .error ⟨.unexpectedLineEnd, 0, ⟨ln.num, eol.col - 1⟩, context,
    ln.span (ln.text.length - ln.text.lastLength) ln.text.length, fixes⟩

/-! ## Steps -/

/-- Takes the symbol if it is the only one left and has been read whole. -/
def settle (ln : Line) (start : Mark) (read : Bytes) (left : List Bytes) : State × List Result :=
  match left with
  | [s] =>
      if s.length = read.length then (.clean, [ln.emit .punctuation s start])
      else (.symbol start read [s], [])
  | left => (.symbol start read left, [])

/-- A character that starts something new. -/
def dispatch (ln : Line) (here : Mark) (g : Glyph) : State × List Result :=
  if g.char = '"' then (.string here [], [])
  else if g.char.isDigit then (.number here g.bytes.reverse, [])
  else if isWordStart g.char then (.word here g.bytes.reverse, [])
  else if isSpace g.char then (.clean, [])
  else match symbols.startingWith g.char.toNat with
    | [] => (.clean, [ln.misplaced here g (utf8 "character does not start any token")])
    | left => ln.settle here g.bytes.reverse left

/-- Delivers a result, then lets the character start something new. -/
def redispatch (ln : Line) (first : Result) (here : Mark) (g : Glyph) : State × List Result :=
  let (next, rest) := ln.dispatch here g
  (next, first :: rest)

/-- The symbols that have the character at position `pos`. -/
def narrowed (left : List Bytes) (pos : Nat) (c : Char) : List Bytes :=
  left.filter fun s => c.toNat < 0x80 && s[pos]? == some (UInt8.ofNat c.toNat)

/-- A character after the beginning of a symbol. -/
def narrow (ln : Line) (start : Mark) (read : Bytes) (left : List Bytes) (here : Mark)
    (g : Glyph) : State × List Result :=
  match narrowed left read.length g.char with
  | [] =>
      let acc := read.reverse
      if left.contains acc then ln.redispatch (ln.emit .punctuation acc start) here g
      else ln.redispatch (ln.badSequence start acc left here g) here g
  | fitting => ln.settle start (g.bytes.reverse ++ read) fitting

/-- One character, found at `here`. -/
def step (ln : Line) (here : Mark) (g : Glyph) : State → State × List Result
  | .clean => ln.dispatch here g
  | .word start read =>
      if isWordChar g.char then (.word start (g.bytes.reverse ++ read), [])
      else if endsWord g.char then
        ln.redispatch (ln.emit (.ofWord read.reverse) read.reverse start) here g
      else (.clean, [ln.misplaced here g (utf8 "unexpected character while parsing id")])
  | .number start read =>
      if isNumberChar g.char then (.number start (g.bytes.reverse ++ read), [])
      else if endsWord g.char then
        ln.redispatch (ln.emit .intLiteral read.reverse start) here g
      else
        (.clean, [ln.misplaced here g (utf8 "unexpected character while parsing integer literal")])
  | .string start read =>
      if g.char = '"' then (.clean, [ln.emit .stringLiteral read.reverse start])
      else (.string start (g.bytes.reverse ++ read), [])
  | .symbol start read left => ln.narrow start read left here g

/-- The end of the line, at `eol`. -/
def finish (ln : Line) (eol : Mark) : State → List Result
  | .clean => []
  | .word start read => [ln.emit (.ofWord read.reverse) read.reverse start]
  | .number start read => [ln.emit .intLiteral read.reverse start]
  | .string _ _ =>
      [ln.openAtEnd eol (utf8 "unterminated string literal")
        [⟨utf8 "close the string literal",
          [⟨ln.span ln.text.length ln.text.length, utf8 "\""⟩]⟩]]
  | .symbol start read left =>
      let acc := read.reverse
      if left.contains acc then [ln.emit .punctuation acc start]
      else
        [ln.openAtEnd eol (utf8 "unterminated punctuation " ++ Text.quoted acc)
          (ln.completions start acc left)]

/-- Runs the machine from a state over the characters ahead. -/
def run (ln : Line) (st : State) (here : Mark) : List Glyph → List Result
  | [] => ln.finish here st
  | g :: rest =>
      let (next, out) := ln.step here g st
      out ++ ln.run next (here.past g) rest

/-- The results of the line. -/
def scan (ln : Line) : List Result := ln.run .clean .start (glyphs ln.text)

/-- Runs the machine from a state with a cursor. -/
def walkFrom (ln : Line) (st : State) (c : Cursor) : List Result :=
  match _h : c.peek? with
  | none => ln.finish c.eol st
  | some g =>
      let (next, out) := ln.step c.mark g st
      out ++ ln.walkFrom next c.bump
termination_by c.ahead.length
decreasing_by exact Cursor.length_ahead_bump ‹_›

/-- The results of the line, read with a cursor. -/
def walk (ln : Line) : List Result := ln.walkFrom .clean (.ofText ln.text)

end Line

/-- The results of all lines of a buffer, in order. -/
def File.results (f : File) : List Result := f.lines.flatMap Line.scan

end LineLexer
