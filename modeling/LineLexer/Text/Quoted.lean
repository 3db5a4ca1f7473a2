/-
# `Text.Quoted` — texts inside messages

A quoted text is enclosed in double quotes, a quoted character in single
ones.  Graphic characters stand for themselves; the enclosing quote and
the backslash follow a backslash; the usual control characters have their
letters; all else is written by number: `\x` for ASCII and for stray bytes,
`\u` and `\U` for code points.
-/
import LineLexer.Text.Glyph
import LineLexer.Text.Graphic

namespace LineLexer.Text

/-- The letter after the backslash for a control character that has one. -/
def controlLetter? (c : Char) : Option String :=
  match c.toNat with
  | 0x07 => some "a"
  | 0x08 => some "b"
  | 0x0C => some "f"
  | 0x0A => some "n"
  | 0x0D => some "r"
  | 0x09 => some "t"
  | 0x0B => some "v"
  | _ => none

/-- A code point by number. -/
def numberEscape (n : Nat) : Bytes :=
  if n < 0x80 then utf8 "\\x" ++ Bytes.hex 2 n
  else if n < 0x10000 then utf8 "\\u" ++ Bytes.hex 4 n
  else utf8 "\\U" ++ Bytes.hex 8 n

/-- One character inside quotes of the given sort. -/
def escapeChar (quote c : Char) : Bytes :=
  if c = quote ∨ c = '\\' then utf8 "\\" ++ Bytes.ofChar c
  else if isGraphic c then Bytes.ofChar c
  else match controlLetter? c with
    | some l => utf8 "\\" ++ utf8 l
    | none => numberEscape c.toNat

/-- One character of a quoted text; a stray byte is written by number. -/
def escapeGlyph (g : Glyph) : Bytes :=
  if g.isBroken then utf8 "\\x" ++ Bytes.hexPairs g.bytes else escapeChar '"' g.char

/-- The text in double quotes. -/
def quoted (s : Bytes) : Bytes :=
  utf8 "\"" ++ (glyphs s).flatMap escapeGlyph ++ utf8 "\""

/-- The character with a given code; codes that no character has give U+FFFD. -/
def charOfCode (code : Int) : Char :=
  if 0 ≤ code ∧ code.toNat.isValidChar then Char.ofNat code.toNat else replacement

/-- The character with a given code, in single quotes. -/
def quotedChar (code : Int) : Bytes :=
  utf8 "'" ++ escapeChar '\'' (charOfCode code) ++ utf8 "'"

end LineLexer.Text
