/-
# `Text.Bytes` — texts as byte strings

Buffers, names and messages may hold any bytes, well-formed UTF-8 or not,
so a text is a list of bytes everywhere in this library.  This file has
the spellings that other modules build messages from: string literals,
decimal and hexadecimal numerals, joined lists.
-/

namespace LineLexer

/-- A text: a string of bytes, well-formed UTF-8 or not. -/
abbrev Bytes := List UInt8

/-- The UTF-8 bytes of a string. -/
def utf8 (s : String) : Bytes := s.toList.flatMap String.utf8EncodeChar

namespace Bytes

/-- The decimal numeral of `n`. -/
def decimal (n : Nat) : Bytes := (Nat.toDigits 10 n).flatMap String.utf8EncodeChar

/-- The decimal numeral of an integer, with a minus sign below zero. -/
def decimalInt : Int → Bytes
  | .ofNat n => decimal n
  | .negSucc n => utf8 "-" ++ decimal (n + 1)

/-- `s` after as many copies of `pad` as it takes to have `width` bytes. -/
def padLeft (width : Nat) (pad : UInt8) (s : Bytes) : Bytes :=
  List.replicate (width - s.length) pad ++ s

/-- The lower-case hexadecimal numeral of `n`, with at least `width` digits. -/
def hex (width n : Nat) : Bytes :=
  padLeft width 0x30 ((Nat.toDigits 16 n).flatMap String.utf8EncodeChar)

/-- The bytes of `s` as lower-case hexadecimal digit pairs. -/
def hexPairs (s : Bytes) : Bytes := s.flatMap fun b => hex 2 b.toNat

/-- The parts with `sep` between neighbours. -/
def join (sep : Bytes) (parts : List Bytes) : Bytes := sep.intercalate parts

/-- The bytes from offset `lo` up to offset `hi`, as far as `s` has them. -/
def slice (s : Bytes) (lo hi : Nat) : Bytes := (s.drop lo).take (hi - lo)

/-- The bytes from offset `lo` up to offset `hi`; none if `s` does not have them. -/
def slice? (s : Bytes) (lo hi : Nat) : Option Bytes :=
  if lo ≤ hi ∧ hi ≤ s.length then some (s.slice lo hi) else none

/-- The pieces of `s` between the occurrences of the byte `sep`; always at
least one piece. -/
def splitOn (sep : UInt8) : Bytes → List Bytes
  | [] => [[]]
  | b :: s =>
      if b = sep then [] :: splitOn sep s
      else match splitOn sep s with
        | [] => [[b]]
        | p :: ps => (b :: p) :: ps

/-- Whether `s` comes before `t` in the order of bytes, a shorter text before
its extensions. -/
def lt : Bytes → Bytes → Bool
  | _, [] => false
  | [], _ :: _ => true
  | a :: s, b :: t => a < b || (a == b && lt s t)

end Bytes

end LineLexer
