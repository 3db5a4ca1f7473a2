/-
# `Source.Span` — ranges of bytes

A span is a half-open range of byte offsets in one buffer.  Spans come from
outside too, so the end may lie before the start or past the buffer; the
operations below say what such spans mean.
-/
import LineLexer.Text.Bytes

namespace LineLexer

/-- The bytes from offset `start` up to, not including, offset `stop` of the
buffer numbered `file`. -/
structure Span where
  file : Nat
  start : Nat
  stop : Nat
deriving DecidableEq, Repr, Hashable, Inhabited

namespace Span

def isEmpty (s : Span) : Bool := s.stop ≤ s.start

/-- The number of bytes; zero for a span that ends before it starts. -/
def length (s : Span) : Nat := s.stop - s.start

/-- The least span that holds both; a span of another buffer changes nothing. -/
def cover (s t : Span) : Span :=
  if s.file = t.file then ⟨s.file, min s.start t.start, max s.stop t.stop⟩ else s

/-- Whether `t` lies inside `s`. -/
def contains (s t : Span) : Bool :=
  s.file = t.file && s.start ≤ t.start && t.stop ≤ s.stop

/-- How a span is shown. -/
def text (s : Span) : Bytes :=
  Bytes.decimal s.file ++ utf8 ":" ++ Bytes.decimal s.start ++ utf8 "-" ++ Bytes.decimal s.stop

end Span

end LineLexer
