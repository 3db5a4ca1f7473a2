/-
# `Text.Blank` — white space at the ends of a text

The characters with Unicode's `White_Space` property.  Only the trimming of
messages uses this class; the scanner has a smaller one of its own.
-/
import LineLexer.Text.Glyph
import LineLexer.Text.Graphic

namespace LineLexer.Text

/-- Whether a character is white space. -/
def isBlank (c : Char) : Bool :=
  inRanges [(0x09, 0x0D), (0x20, 0x20), (0x85, 0x85), (0xA0, 0xA0), (0x1680, 0x1680),
    (0x2000, 0x200A), (0x2028, 0x2029), (0x202F, 0x202F), (0x205F, 0x205F),
    (0x3000, 0x3000)] c.toNat

/-- The text without the white space at its two ends. -/
def trim (s : Bytes) : Bytes :=
  let inner := (glyphs s).dropWhile fun g => isBlank g.char
  ((inner.reverse.dropWhile fun g => isBlank g.char).reverse).flatMap Glyph.bytes

end LineLexer.Text
