/-
# `Toml.Strings` — characters and strings of a settings text

A settings text is well-formed UTF-8, possibly behind a byte order mark,
without control characters other than tab and line breaks; a carriage
return stands only before a line feed.  The replacement character U+FFFD
counts as a sign of damaged text and may only be written as an escape.

Strings come in four forms: basic ones in double quotes, with escapes;
literal ones in single quotes, without; and either of them in triple
quotes, over several lines.
-/
import LineLexer.Text.Glyph

namespace LineLexer.Toml

/-! ## Characters -/

/-- The text after a byte order mark. -/
def withoutMark : Bytes → Bytes
  | 0xFF :: 0xFE :: s => s
  | 0xFE :: 0xFF :: s => s
  | 0xEF :: 0xBB :: 0xBF :: s => s
  | s => s

/-- The control characters that may not occur. -/
def isControl (c : Char) : Bool :=
  (c.toNat < 0x20 && c != '\t' && c != '\n' && c != '\r') || c.toNat == 0x7F

/-- No control characters, and no carriage return on its own. -/
def isClean : List Char → Bool
  | [] => true
  | '\r' :: '\n' :: cs => isClean cs
  | c :: cs => c != '\r' && !isControl c && isClean cs

/-- The characters of a settings text; none if one of them may not occur.  A
byte outside UTF-8 reads as U+FFFD. -/
def characters? (s : Bytes) : Option (List Char) :=
  let cs := (glyphs (withoutMark s)).map Glyph.char
  if cs.all (fun c => c != replacement) && isClean cs then some cs else none

def isBreak (c : Char) : Bool := c = '\n' || c = '\r'

def isBlank (c : Char) : Bool := c = ' ' || c = '\t'

def isHexDigit (c : Char) : Bool :=
  c.isDigit || ('a' ≤ c && c ≤ 'f') || ('A' ≤ c && c ≤ 'F')

/-- The value of a digit in a base up to sixteen. -/
def digitValue (c : Char) : Nat :=
  if c.isDigit then c.toNat - 48 else c.toLower.toNat - 87

/-- The number that digits write in a base. -/
def ofDigits (base : Nat) (cs : List Char) : Nat :=
  cs.foldl (fun n c => n * base + digitValue c) 0

/-! ## Escapes -/

/-- A character given by its number in `count` hexadecimal digits. -/
def numbered? (count : Nat) (cs : List Char) : Option Bytes :=
  let digits := cs.take count
  let n := ofDigits 16 digits
  if digits.length = count ∧ digits.all isHexDigit ∧ n.isValidChar then
    some (Bytes.ofChar (Char.ofNat n))
  else none

/-- What stands after a backslash: the bytes it means, and how many characters
it takes.  A backslash before the end of a line takes all white space that
follows. -/
def escape? (cs : List Char) : Option (Bytes × Nat) :=
  match cs with
  | 'b' :: _ => some ([0x08], 1)
  | 't' :: _ => some ([0x09], 1)
  | 'n' :: _ => some ([0x0A], 1)
  | 'f' :: _ => some ([0x0C], 1)
  | 'r' :: _ => some ([0x0D], 1)
  | '"' :: _ => some ([0x22], 1)
  | '\\' :: _ => some ([0x5C], 1)
  | 'u' :: rest => (numbered? 4 rest).map (·, 5)
  | 'U' :: rest => (numbered? 8 rest).map (·, 9)
  | cs =>
      let white := cs.takeWhile fun c => isBlank c || isBreak c
      if white.contains '\n' then some ([], white.length) else none

/-- The bytes that the body of a basic string means, after its first `skip`
characters. -/
def unescapeAfter : Nat → List Char → Option Bytes
  | _, [] => some []
  | skip + 1, _ :: cs => unescapeAfter skip cs
  | 0, c :: cs =>
      if c = '\\' then
        match escape? cs with
        | none => none
        | some (bytes, taken) => (unescapeAfter taken cs).map (bytes ++ ·)
      else (unescapeAfter 0 cs).map (Bytes.ofChar c ++ ·)

/-- The bytes that the body of a basic string means. -/
def unescape? (cs : List Char) : Option Bytes := unescapeAfter 0 cs

/-- The bytes of characters as they stand. -/
def verbatim (cs : List Char) : Bytes := cs.flatMap Bytes.ofChar

/-! ## Where a string ends

Each function gives the body of a string and what follows the closing
quotes. -/

/-- A basic string on one line, after its opening quote. -/
def cutBasic : List Char → Option (List Char × List Char)
  | [] => none
  | '"' :: cs => some ([], cs)
  | '\\' :: c :: cs =>
      if isBreak c then none
      else (cutBasic cs).map fun (body, rest) => ('\\' :: c :: body, rest)
  | c :: cs =>
      if isBreak c then none else (cutBasic cs).map fun (body, rest) => (c :: body, rest)

/-- A literal string on one line, after its opening quote. -/
def cutLiteral : List Char → Option (List Char × List Char)
  | [] => none
  | c :: cs =>
      if c = '\'' then some ([], cs)
      else if isBreak c then none
      else (cutLiteral cs).map fun (body, rest) => (c :: body, rest)

/-- The end of a string over several lines, behind the three quotes that can
close it: one or two more quotes belong to the body, and three more are too
many, unless `spared`. -/
def closeRun (quote : Char) (spared : Bool) (cs : List Char) : Option (List Char × List Char) :=
  let more := (cs.takeWhile (· = quote)).length
  if more ≤ 2 ∨ (more = 3 ∧ spared) then some (List.replicate more quote, cs.drop more) else none

/-- A basic string over several lines.  `spared` says that an escaped
backslash came just before. -/
def cutLongBasic (spared : Bool) : List Char → Option (List Char × List Char)
  | [] => none
  | '\\' :: c :: cs =>
      (cutLongBasic (c = '\\') cs).map fun (body, rest) => ('\\' :: c :: body, rest)
  | '"' :: '"' :: '"' :: cs => closeRun '"' spared cs
  | c :: cs => (cutLongBasic (spared && c = '"') cs).map fun (body, rest) => (c :: body, rest)

/-- A literal string over several lines. -/
def cutLongLiteral : List Char → Option (List Char × List Char)
  | [] => none
  | '\'' :: '\'' :: '\'' :: cs => closeRun '\'' false cs
  | c :: cs => (cutLongLiteral cs).map fun (body, rest) => (c :: body, rest)

/-- The body of a string over several lines without a line break at its
beginning. -/
def withoutFirstBreak : List Char → List Char
  | '\n' :: cs => cs
  | '\r' :: '\n' :: cs => cs
  | cs => cs

/-- A string on one line, quotes included. -/
def shortString? : List Char → Option (Bytes × List Char)
  | '"' :: cs => do
      let (body, rest) ← cutBasic cs
      return (← unescape? body, rest)
  | '\'' :: cs => (cutLiteral cs).map fun (body, rest) => (verbatim body, rest)
  | _ => none

/-- A string of any form, quotes included. -/
def string? : List Char → Option (Bytes × List Char)
  | '"' :: '"' :: '"' :: cs => do
      let (body, rest) ← cutLongBasic false cs
      return (← unescape? (withoutFirstBreak body), rest)
  | '\'' :: '\'' :: '\'' :: cs =>
      (cutLongLiteral cs).map fun (body, rest) => (verbatim (withoutFirstBreak body), rest)
  | cs => shortString? cs

end LineLexer.Toml
