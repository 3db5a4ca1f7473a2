/-
# `Text.Glyph` — the characters of a byte string

A byte string is read from left to right as a sequence of characters.
Where the bytes are well-formed UTF-8 a character is what they encode;
a byte that no well-formed sequence starts at is a character by itself
and stands for the replacement character.  Every byte belongs to exactly
one character, so a text is the concatenation of the bytes of its glyphs.

`glyphs` reads from the left; `lastLength` finds the last character from
the right end alone.
-/
import LineLexer.Text.Bytes

namespace LineLexer

/-- One character of a text: what it stands for, and the bytes that spell it. -/
structure Glyph where
  char : Char
  bytes : Bytes
deriving DecidableEq, Repr

/-- U+FFFD, which stands for every byte that is not part of a character. -/
def replacement : Char := Char.ofNat 0xFFFD

namespace Glyph

/-- A byte that may follow the first byte of a longer sequence. -/
def isTail (b : UInt8) : Bool := 0x80 ≤ b && b ≤ 0xBF

/-- The two-byte sequences; the leading bytes `C0` and `C1` would spell what
one byte can. -/
def isPair (a b : UInt8) : Bool := 0xC2 ≤ a && a ≤ 0xDF && isTail b

/-- The three-byte sequences: none that two bytes can spell, and no surrogate. -/
def isTriple (a b c : UInt8) : Bool :=
  0xE0 ≤ a && a ≤ 0xEF && isTail b && isTail c &&
    (a != 0xE0 || 0xA0 ≤ b) && (a != 0xED || b ≤ 0x9F)

/-- The four-byte sequences: none that three bytes can spell, and nothing
above U+10FFFF. -/
def isQuad (a b c d : UInt8) : Bool :=
  0xF0 ≤ a && a ≤ 0xF4 && isTail b && isTail c && isTail d &&
    (a != 0xF0 || 0x90 ≤ b) && (a != 0xF4 || b ≤ 0x8F)

/-- The six payload bits of a following byte. -/
def payload (b : UInt8) : Nat := b.toNat - 0x80

/-- The character that a byte alone spells. -/
def single (b : UInt8) : Glyph := ⟨Char.ofNat b.toNat, [b]⟩

def pair (a b : UInt8) : Glyph :=
  ⟨Char.ofNat ((a.toNat - 0xC0) * 64 + payload b), [a, b]⟩

def triple (a b c : UInt8) : Glyph :=
  ⟨Char.ofNat (((a.toNat - 0xE0) * 64 + payload b) * 64 + payload c), [a, b, c]⟩

def quad (a b c d : UInt8) : Glyph :=
  ⟨Char.ofNat ((((a.toNat - 0xF0) * 64 + payload b) * 64 + payload c) * 64 + payload d),
    [a, b, c, d]⟩

/-- A byte that is no part of a character. -/
def broken (b : UInt8) : Glyph := ⟨replacement, [b]⟩

/-- The first character of `a :: rest`. -/
def first (a : UInt8) (rest : Bytes) : Glyph :=
  if a < 0x80 then single a
  else match rest with
    | [] => broken a
    | b :: rest =>
        if isPair a b then pair a b
        else match rest with
          | [] => broken a
          | c :: rest =>
              if isTriple a b c then triple a b c
              else match rest with
                | [] => broken a
                | d :: _ => if isQuad a b c d then quad a b c d else broken a

/-- The number of bytes of the character. -/
def size (g : Glyph) : Nat := g.bytes.length

/-- Whether the character is a byte that stands outside well-formed UTF-8. -/
def isBroken (g : Glyph) : Bool := g.char == replacement && g.bytes.length == 1

end Glyph

/-- The characters of a text, after its first `skip` bytes. -/
def glyphsAfter : Nat → Bytes → List Glyph
  | _, [] => []
  | 0, b :: s => let g := Glyph.first b s; g :: glyphsAfter (g.size - 1) s
  | skip + 1, _ :: s => glyphsAfter skip s

/-- The characters of a text from left to right. -/
def glyphs (s : Bytes) : List Glyph := glyphsAfter 0 s

namespace Bytes

/-- The number of characters. -/
def charCount (s : Bytes) : Nat := (glyphs s).length

/-- The text filled up with spaces on the right to a number of characters. -/
def padRight (s : Bytes) (width : Nat) : Bytes := s ++ List.replicate (width - s.charCount) 0x20

/-- Whether all bytes belong to well-formed UTF-8. -/
def isUtf8 (s : Bytes) : Bool := (glyphs s).all fun g => !g.isBroken

/-- The bytes that spell a character. -/
def ofChar (c : Char) : Bytes := String.utf8EncodeChar c

/-- The number of bytes of the last character, found from the end: the
nearest of the last four bytes that can be a first byte decides, and the
last byte stands alone when the character that starts there does not reach
the end.  Zero for the empty text. -/
def lastLength (s : Bytes) : Nat :=
  match s.reverse with
  | [] => 0
  | z :: before =>
      if z < 0x80 then 1
      else
        let gap := ((before.take 3).takeWhile Glyph.isTail).length
        match (before.take 3).drop gap with
        | [] => 1
        | a :: _ =>
            let rest := (before.take gap).reverse ++ [z]
            if (Glyph.first a rest).size = gap + 2 then gap + 2 else 1

end Bytes

end LineLexer
