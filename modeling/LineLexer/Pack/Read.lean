/-
# `Pack.Read` — reading the packed form

A reader takes a value over an old one: what the input leaves out stays as
it was.  So a record may give its fields in any order, leave some out and
give some twice, and fields it does not have are skipped.  A record may also
be an array of all its fields, and nothing stands for the record of zeros.

A list that is given again is read over the list before, item by item.  If
it is shorter, the items behind its end are out of sight, but not gone: a
longer list that comes later is read over them.
-/
import LineLexer.Text.Bytes

namespace LineLexer.Pack

/-- Reads a value over an old one, and gives the rest of the input. -/
abbrev Reader (α : Type) := α → Bytes → Option (α × Bytes)

/-- A list that can be read over: its items, and behind them what longer lists
left there. -/
structure Slots (α : Type) where
  items : List α := []
  spare : List α := []
deriving DecidableEq, Repr

/-- All slots, in their order. -/
def Slots.all {α : Type} (l : Slots α) : List α := l.items ++ l.spare

/-! ## Lengths and codes -/

/-- The first `n` bytes, if there are as many, and the rest. -/
def take? (n : Nat) (s : Bytes) : Option (Bytes × Bytes) :=
  let taken := s.take n
  if taken.length = n then some (taken, s.drop n) else none

/-- The number that bytes spell, the most significant one first. -/
def value (s : Bytes) : Nat := s.foldl (fun n b => n * 256 + b.toNat) 0

/-- A number in `width` bytes. -/
def number? (width : Nat) (s : Bytes) : Option (Nat × Bytes) :=
  (take? width s).map fun (digits, rest) => (value digits, rest)

/-- A number of `width` bytes that may be negative, as one of 64 bits. -/
def signed? (width : Nat) (s : Bytes) : Option (UInt64 × Bytes) :=
  (number? width s).map fun (n, rest) =>
    (if n < 1 <<< (8 * width - 1) then n.toUInt64
      else (n + 1 <<< 64 - 1 <<< (8 * width)).toUInt64, rest)

def unsigned? (width : Nat) (s : Bytes) : Option (UInt64 × Bytes) :=
  (number? width s).map fun (n, rest) => (n.toUInt64, rest)

/-- An integer of any width; nothing is zero. -/
def integer? : Bytes → Option (UInt64 × Bytes)
  | [] => none
  | c :: s =>
      if c < 0x80 then some (c.toUInt64, s)
      else if 0xE0 ≤ c then some ((c.toNat + 1 <<< 64 - 1 <<< 8).toUInt64, s)
      else match c with
        | 0xC0 => some (0, s)
        | 0xCC => unsigned? 1 s
        | 0xCD => unsigned? 2 s
        | 0xCE => unsigned? 4 s
        | 0xCF => unsigned? 8 s
        | 0xD0 => signed? 1 s
        | 0xD1 => signed? 2 s
        | 0xD2 => signed? 4 s
        | 0xD3 => signed? 8 s
        | _ => none

/-- The length of a text or of binary data; the inner `none` is nothing. -/
def textLength? : Bytes → Option (Option Nat × Bytes)
  | [] => none
  | c :: s =>
      if 0xA0 ≤ c ∧ c < 0xC0 then some (some (c.toNat - 0xA0), s)
      else match c with
        | 0xC0 => some (none, s)
        | 0xC4 | 0xD9 => (number? 1 s).map fun (n, s) => (some n, s)
        | 0xC5 | 0xDA => (number? 2 s).map fun (n, s) => (some n, s)
        | 0xC6 | 0xDB => (number? 4 s).map fun (n, s) => (some n, s)
        | _ => none

/-- The length of an array; the inner `none` is nothing. -/
def arrayLength? : Bytes → Option (Option Nat × Bytes)
  | [] => none
  | c :: s =>
      if 0x90 ≤ c ∧ c < 0xA0 then some (some (c.toNat - 0x90), s)
      else match c with
        | 0xC0 => some (none, s)
        | 0xDC => (number? 2 s).map fun (n, s) => (some n, s)
        | 0xDD => (number? 4 s).map fun (n, s) => (some n, s)
        | _ => none

/-- The length of a map; the inner `none` is nothing. -/
def mapLength? : Bytes → Option (Option Nat × Bytes)
  | [] => none
  | c :: s =>
      if 0x80 ≤ c ∧ c < 0x90 then some (some (c.toNat - 0x80), s)
      else match c with
        | 0xC0 => some (none, s)
        | 0xDE => (number? 2 s).map fun (n, s) => (some n, s)
        | 0xDF => (number? 4 s).map fun (n, s) => (some n, s)
        | _ => none

/-! ## Skipping -/

/-- The rest after `n` bytes. -/
def drop? (n : Nat) (s : Bytes) : Option Bytes := (take? n s).map (·.2)

/-- The rest after a length of `width` bytes, and as many bytes and `more`. -/
def dropCounted? (width more : Nat) (s : Bytes) : Option Bytes := do
  let (n, s) ← number? width s
  drop? (n + more) s

/-- How many values stand inside the value that a code begins, and the rest
behind its header and its own bytes. -/
def header? : Bytes → Option (Nat × Bytes)
  | [] => none
  | c :: s =>
      if c < 0x80 ∨ 0xE0 ≤ c then some (0, s)
      else if c < 0x90 then some (2 * (c.toNat - 0x80), s)
      else if c < 0xA0 then some (c.toNat - 0x90, s)
      else if c < 0xC0 then (drop? (c.toNat - 0xA0) s).map (0, ·)
      else match c with
        | 0xC0 | 0xC2 | 0xC3 => some (0, s)
        | 0xCC | 0xD0 => (drop? 1 s).map (0, ·)
        | 0xCD | 0xD1 => (drop? 2 s).map (0, ·)
        | 0xCE | 0xD2 | 0xCA => (drop? 4 s).map (0, ·)
        | 0xCF | 0xD3 | 0xCB => (drop? 8 s).map (0, ·)
        | 0xC4 | 0xD9 => (dropCounted? 1 0 s).map (0, ·)
        | 0xC5 | 0xDA => (dropCounted? 2 0 s).map (0, ·)
        | 0xC6 | 0xDB => (dropCounted? 4 0 s).map (0, ·)
        | 0xDC => number? 2 s
        | 0xDD => number? 4 s
        | 0xDE => (number? 2 s).map fun (n, s) => (2 * n, s)
        | 0xDF => (number? 4 s).map fun (n, s) => (2 * n, s)
        | 0xD4 => (drop? 2 s).map (0, ·)
        | 0xD5 => (drop? 3 s).map (0, ·)
        | 0xD6 => (drop? 5 s).map (0, ·)
        | 0xD7 => (drop? 9 s).map (0, ·)
        | 0xD8 => (drop? 17 s).map (0, ·)
        | 0xC7 => (dropCounted? 1 1 s).map (0, ·)
        | 0xC8 => (dropCounted? 2 1 s).map (0, ·)
        | 0xC9 => (dropCounted? 4 1 s).map (0, ·)
        | _ => none

/-- The rest after `pending` values, read in at most `fuel` headers. -/
def skipFrom : Nat → Nat → Bytes → Option Bytes
  | _, 0, s => some s
  | 0, _ + 1, _ => none
  | fuel + 1, pending + 1, s => do
      let (inner, s) ← header? s
      skipFrom fuel (inner + pending) s

/-- The rest after one value; each header takes a byte. -/
def skip? (s : Bytes) : Option Bytes := skipFrom s.length 1 s

/-! ## Values -/

namespace Reader

def byte : Reader UInt8 := fun _ s => (integer? s).map fun (n, s) => (n.toUInt8, s)

def word : Reader UInt16 := fun _ s => (integer? s).map fun (n, s) => (n.toUInt16, s)

def long : Reader UInt32 := fun _ s => (integer? s).map fun (n, s) => (n.toUInt32, s)

/-- A text or binary data; nothing is the empty text. -/
def text : Reader Bytes := fun _ s =>
  match textLength? s with
  | none => none
  | some (none, s) => some ([], s)
  | some (some n, s) => take? n s

/-- A block of fixed size, which is filled from the left; nothing leaves it. -/
def block {size : Nat} : Reader (Vector UInt8 size) := fun old s =>
  match textLength? s with
  | none => none
  | some (none, s) => some (old, s)
  | some (some n, s) =>
      if size < n then none
      else (take? n s).map fun (bytes, s) => (Vector.ofFn fun i => bytes[i.val]?.getD old[i], s)

/-- `n` items, each over the old one at its place, or over `zero`. -/
def items {α : Type} (zero : α) (item : Reader α) : Nat → List α → Bytes → Option (List α × Bytes)
  | 0, _, s => some ([], s)
  | n + 1, old, s => do
      let (x, s) ← item (old.head?.getD zero) s
      let (xs, s) ← items zero item n old.tail s
      return (x :: xs, s)

/-- A list; nothing is the empty one, with nothing behind it. -/
def list {α : Type} (zero : α) (item : Reader α) : Reader (Slots α) := fun old s =>
  match arrayLength? s with
  | none => none
  | some (none, s) => some ({}, s)
  | some (some n, s) =>
      (items zero item n old.all s).map fun (xs, s) => (⟨xs, old.all.drop n⟩, s)

/-! ## Records -/

/-- A field of a record: its name, and how it is read into the record. -/
structure Field (α : Type) where
  name : String
  read : Reader α

/-- The field with a name, seen through its getter and setter. -/
def field {α β : Type} (name : String) (get : α → β) (set : α → β → α) (read : Reader β) :
    Field α :=
  ⟨name, fun a s => (read (get a) s).map fun (b, s) => (set a b, s)⟩

/-- `n` fields by name, in any order. -/
def namedFields {α : Type} (fields : List (Field α)) : Nat → Reader α
  | 0, a, s => some (a, s)
  | n + 1, a, s => do
      let (name, s) ← text [] s
      match fields.find? fun f => utf8 f.name = name with
      | some f => do
          let (a, s) ← f.read a s
          namedFields fields n a s
      | none => do
          let s ← skip? s
          namedFields fields n a s

/-- All fields in their order. -/
def orderedFields {α : Type} : List (Field α) → Reader α
  | [], a, s => some (a, s)
  | f :: fs, a, s => do
      let (a, s) ← f.read a s
      orderedFields fs a s

/-- A record: a map from names, an array of all fields, or, for the record
`zero`, an empty array or nothing. -/
def record {α : Type} (zero : α) (fields : List (Field α)) : Reader α := fun old s =>
  match mapLength? s with
  | some (none, s) => some (zero, s)
  | some (some n, s) => namedFields fields n old s
  | none =>
      match arrayLength? s with
      | some (some 0, s) => some (zero, s)
      | some (some n, s) => if n = fields.length then orderedFields fields old s else none
      | _ => none

end Reader

end LineLexer.Pack
