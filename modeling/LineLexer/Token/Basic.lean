/-
# `Token.Basic` — tokens and their places

A token is a lexeme with its kind and the line and column of its first
character, both counted from one, columns in characters.  The lexeme of a
string literal is the text between the quotes.
-/
import LineLexer.Token.Kind

namespace LineLexer

/-- A line and a column, both counted from one; columns count characters. -/
structure Coord where
  line : Nat
  column : Nat
deriving DecidableEq, Repr, Inhabited

namespace Coord

/-- The coordinate that no character has. -/
def zero : Coord := ⟨0, 0⟩

def isZero (c : Coord) : Bool := c.line == 0 && c.column == 0

/-- Order from top to bottom, then from left to right. -/
def before (c d : Coord) : Bool :=
  if c.line = d.line then c.column < d.column else c.line < d.line

/-- How a coordinate is shown. -/
def text (c : Coord) : Bytes := Bytes.decimal c.line ++ utf8 ":" ++ Bytes.decimal c.column

end Coord

/-- One classified lexeme. -/
structure Token where
  kind : Kind
  lexeme : Bytes
  coord : Coord
deriving DecidableEq, Repr

namespace Token

/-- The token that stands where there is none. -/
def none : Token := ⟨.punctuation, [], .zero⟩

/-- How a token is shown. -/
def text (t : Token) : Bytes :=
  utf8 "Token(kind=" ++ t.kind.name ++ utf8 ", lex=" ++ Text.quoted t.lexeme
    ++ utf8 ", @=" ++ t.coord.text ++ utf8 ")"

/-- Whether the token has this kind and lexeme. -/
def is (t : Token) (kind : Kind) (lexeme : Bytes) : Bool :=
  t.kind = kind && t.lexeme = lexeme

/-- Whether the token has this kind and, unless `lexeme` is empty, this
lexeme. -/
def fits (t : Token) (kind : Kind) (lexeme : Bytes) : Bool :=
  t.kind = kind && (lexeme.isEmpty || t.lexeme = lexeme)

def isPunctuation (t : Token) (symbol : Bytes) : Bool := t.fits .punctuation symbol

def isKeyword (t : Token) (word : Bytes) : Bool := t.fits .keyword word

def isIdentifier (t : Token) : Bool := t.kind = .identifier

def isLiteral (t : Token) : Bool := t.kind = .intLiteral || t.kind = .stringLiteral

/-- The text of a token in its buffer: a string literal has its quotes. -/
def source (t : Token) : Bytes :=
  if t.kind = .stringLiteral then utf8 "\"" ++ t.lexeme ++ utf8 "\"" else t.lexeme

end Token

end LineLexer
