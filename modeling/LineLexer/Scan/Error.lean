/-
# `Scan.Error` — what the scanner complains about

A lexical error says what is wrong, at which character, and in which
context; it carries the span it speaks of and the repairs it offers, so
that a finding can be made from it without the scanner.
-/
import LineLexer.Diagnostic.Basic
import LineLexer.Token.Basic

namespace LineLexer

/-- The kinds of lexical error. -/
inductive ErrorKind
  /-- A character that cannot start or continue a token. -/
  | invalidCharacter
  /-- A token was still open when its line ended. -/
  | unexpectedLineEnd
  /-- A number that names no kind of error. -/
  | other (code : UInt8)
deriving DecidableEq, Repr

namespace ErrorKind

/-- The kind with a given number. -/
def ofCode (code : UInt8) : ErrorKind :=
  match code with
  | 1 => invalidCharacter
  | 2 => unexpectedLineEnd
  | code => other code

/-- The name of a kind. -/
def name : ErrorKind → Bytes
  | invalidCharacter => utf8 "InvalidCharacter"
  | unexpectedLineEnd => utf8 "UnexpectedLineEnd"
  | other code => utf8 "ErrorKind(" ++ Bytes.decimal code.toNat ++ utf8 ")"

/-- The code of the findings made from errors of a kind. -/
def code : ErrorKind → Code
  | invalidCharacter => .invalidCharacter
  | unexpectedLineEnd => .unexpectedLineEnd
  | other _ => .unknown

end ErrorKind

/-- One lexical error. -/
structure LexError where
  kind : ErrorKind
  /-- The code point complained about; zero where there is none. -/
  char : Int
  coord : Coord
  context : Bytes
  span : Span
  fixes : List Fix
deriving DecidableEq, Repr

namespace LexError

/-- The error in one sentence, with its coordinate. -/
def text (e : LexError) : Bytes :=
  (match e.kind with
    | .invalidCharacter => utf8 "invalid character " ++ Text.quotedChar e.char
    | .unexpectedLineEnd => utf8 "unexpected line end"
    | .other _ => utf8 "lexical error")
  ++ utf8 " at " ++ e.coord.text ++ utf8 ": " ++ e.context

/-- The error without its coordinate. -/
def message (e : LexError) : Bytes :=
  match e.kind with
  | .invalidCharacter =>
      utf8 "invalid character " ++ Text.quotedChar e.char ++ utf8 ": " ++ e.context
  | _ => e.context

/-- The finding that reports the error. -/
def diagnostic (e : LexError) : Diagnostic :=
  ⟨.error, e.kind.code, e.message, e.span, [], e.fixes⟩

end LexError

/-- What the scanner delivers: a token or an error. -/
inductive Result
  | token (t : Token)
  | error (e : LexError)
deriving DecidableEq, Repr

namespace Result

/-- How a result is shown. -/
def text : Result → Bytes
  | token t => t.text
  | error e => e.text

def token? : Result → Option Token
  | token t => some t
  | error _ => none

def error? : Result → Option LexError
  | token _ => none
  | error e => some e

/-- A result as a token and an error, one of which is missing. -/
def pair : Result → Token × Option LexError
  | token t => (t, none)
  | error e => (.none, some e)

/-- Where a result is. -/
def coord : Result → Coord
  | token t => t.coord
  | error e => e.coord

end Result

end LineLexer
