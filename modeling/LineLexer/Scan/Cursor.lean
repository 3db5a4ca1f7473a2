/-
# `Scan.Cursor` — walking a line character by character

A cursor stands in front of a character of a line and knows the byte offset
and the column of that character.  A byte outside well-formed UTF-8 is a
character of one byte and takes one column.

The column of a cursor is a word of 32 bits.  Behind as many characters as
words have values it starts again from zero, so what is to be said about the
end of a line is said about its last character (`Cursor.eol`).
-/
import LineLexer.Text.Glyph

namespace LineLexer

/-- A place in a line: the byte offset and the column, counted from one. -/
structure Mark where
  off : Nat
  col : Nat
deriving DecidableEq, Repr

namespace Mark

/-- The place of the first character. -/
def start : Mark := ⟨0, 1⟩

/-- The place behind a character. -/
def past (m : Mark) (g : Glyph) : Mark := ⟨m.off + g.size, m.col + 1⟩

end Mark

/-- The characters ahead, and the offset and the column of the first of them. -/
structure Cursor where
  ahead : List Glyph
  off : Nat
  col : UInt32
deriving DecidableEq, Repr

namespace Cursor

/-- In front of the first character of a text. -/
def ofText (s : Bytes) : Cursor := ⟨glyphs s, 0, 1⟩

def atEnd (c : Cursor) : Bool := c.ahead.isEmpty

/-- The character ahead. -/
def peek? (c : Cursor) : Option Glyph := c.ahead.head?

/-- The cursor behind the character ahead; it stays at the end of the line. -/
def bump (c : Cursor) : Cursor :=
  match c.ahead with
  | [] => c
  | g :: rest => ⟨rest, c.off + g.size, c.col + 1⟩

/-- The place of the character ahead. -/
def mark (c : Cursor) : Mark := ⟨c.off, c.col.toNat⟩

/-- The place behind the last character, one further than that character. -/
def eol (c : Cursor) : Mark := ⟨c.off, (c.col - 1).toNat + 1⟩

/-- A cursor with a character ahead comes nearer to the end. -/
theorem length_ahead_bump {c : Cursor} {g : Glyph} (h : c.peek? = some g) :
    c.bump.ahead.length < c.ahead.length := by
  cases hahead : c.ahead with
  | nil =>
      rw [peek?, hahead] at h
      cases h
  | cons g' rest =>
      rw [bump, hahead]
      exact Nat.lt_succ_self _

end Cursor

end LineLexer
