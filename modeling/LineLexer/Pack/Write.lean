/-
# `Pack.Write` — values in a packed binary form

A value starts with a code byte, which says what it is and often how long.
Numbers have their most significant byte first and keep the width of their
type.  A text takes the shortest code for its length; a record is a map from
the names of its fields.
-/
import LineLexer.Text.Bytes

namespace LineLexer.Pack

/-- A number in `width` bytes, the most significant one first. -/
def bigEndian : Nat → Nat → Bytes
  | 0, _ => []
  | width + 1, n => bigEndian width (n / 256) ++ [n.toUInt8]

/-- No value. -/
def nothing : Bytes := [0xC0]

def byte (n : UInt8) : Bytes := [0xCC, n]

def word (n : UInt16) : Bytes := 0xCD :: bigEndian 2 n.toNat

def long (n : UInt32) : Bytes := 0xCE :: bigEndian 4 n.toNat

/-- The code of a text of a given length. -/
def textHeader (n : Nat) : Bytes :=
  if n < 32 then [0xA0 + n.toUInt8]
  else if n < 0x100 then [0xD9, n.toUInt8]
  else if n < 0x10000 then 0xDA :: bigEndian 2 n
  else 0xDB :: bigEndian 4 n

def text (s : Bytes) : Bytes := textHeader s.length ++ s

/-- Up to 255 bytes that are no text. -/
def binary (s : Bytes) : Bytes := 0xC4 :: s.length.toUInt8 :: s

/-- The code of an array of a given length. -/
def arrayHeader (n : Nat) : Bytes :=
  if n < 16 then [0x90 + n.toUInt8]
  else if n < 0x10000 then 0xDC :: bigEndian 2 n
  else 0xDD :: bigEndian 4 n

/-- The items of a list, each written by `f`. -/
def array {α : Type} (f : α → Bytes) (xs : List α) : Bytes :=
  arrayHeader xs.length ++ xs.flatMap f

/-- A list of which the empty one is written as nothing. -/
def optionalArray {α : Type} (f : α → Bytes) (xs : List α) : Bytes :=
  if xs.isEmpty then nothing else array f xs

/-- A record of at most fifteen fields, given by name and written value. -/
def record (fields : List (String × Bytes)) : Bytes :=
  (0x80 + fields.length.toUInt8) :: fields.flatMap fun (name, value) => text (utf8 name) ++ value

end LineLexer.Pack
