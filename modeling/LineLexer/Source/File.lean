/-
# `Source.File` — buffers and their lines

A buffer is stored without a leading byte order mark and with every
carriage return before a line feed removed; flags remember that.  Lines are
counted from one and end at a line feed, which belongs to no line; a final
line feed opens no further line.  Columns count characters.

Offsets, line numbers and columns are kept in words of 32 bits.  `lineStart`,
`line`, `lines`, `position` and `text` are exact; the readings that a buffer
offers, `startWord`, `line?`, `lines?`, `position?` and `text?`, are what words
leave of them.  A number that does not fit its word is noticed, and then there
is no answer, except for a start or a column that is one too high: it comes out
as zero.
-/
import LineLexer.Text.Digest
import LineLexer.Text.Glyph
import LineLexer.Source.Span
import LineLexer.Token.Basic

namespace LineLexer

/-- The first number that does not fit a word of 32 bits. -/
def wordLimit : Nat := 0x100000000

/-- One source buffer. -/
structure File where
  id : Nat
  name : Bytes
  content : Bytes
  flags : UInt8
deriving DecidableEq, Repr

/-- One line of a buffer, with its number and the offset where it starts. -/
structure Line where
  file : Nat
  num : Nat
  start : Nat
  text : Bytes
deriving DecidableEq, Repr

namespace File

/-! ## Storing a buffer -/

/-- The buffer was handed over from memory. -/
def virtualFlag : UInt8 := 1

/-- A byte order mark was removed. -/
def markFlag : UInt8 := 2

/-- Carriage returns before line feeds were removed. -/
def returnsFlag : UInt8 := 4

/-- The content after a leading byte order mark, if it has one. -/
def withoutMark? : Bytes → Option Bytes
  | 0xEF :: 0xBB :: 0xBF :: rest => some rest
  | _ => none

/-- The content with each carriage return before a line feed removed. -/
def withoutReturns : Bytes → Bytes
  | [] => []
  | [b] => [b]
  | a :: b :: rest =>
      if a = 0x0D ∧ b = 0x0A then withoutReturns (b :: rest) else a :: withoutReturns (b :: rest)

/-- The buffer as it is stored under the number `id`. -/
def store (id : Nat) (name content : Bytes) (flags : UInt8) : File :=
  let unmarked := withoutMark? content
  let body := unmarked.getD content
  let plain := withoutReturns body
  let flags := if unmarked.isSome then flags ||| markFlag else flags
  let flags := if plain.length < body.length then flags ||| returnsFlag else flags
  ⟨id, name, plain, flags⟩

/-- The digest of the stored content. -/
def hash (f : File) : Bytes := Text.digest f.content

/-! ## Line ends -/

/-- The offsets, counted from `offset`, of the line feeds of a text. -/
def lineEndsFrom (offset : Nat) : Bytes → List Nat
  | [] => []
  | b :: s =>
      if b = 0x0A then offset :: lineEndsFrom (offset + 1) s else lineEndsFrom (offset + 1) s

/-- The offsets of the line feeds, in order. -/
def lineEnds (f : File) : List Nat := lineEndsFrom 0 f.content

/-- The number of lines; an empty buffer has none. -/
def lineCount (f : File) : Nat :=
  match f.content.getLast? with
  | none => 0
  | some b => if b = 0x0A then f.lineEnds.length else f.lineEnds.length + 1

/-- The offset where line `n` starts; zero if there is no such line start. -/
def lineStart (f : File) (n : Nat) : Nat :=
  if n ≤ 1 then 0 else (f.lineEnds[n - 2]?.map (· + 1)).getD 0

/-- The text of line `n`; empty if there is no such line. -/
def line (f : File) (n : Nat) : Bytes :=
  if n = 0 ∨ f.lineCount < n then []
  else f.content.slice (f.lineStart n) (f.lineEnds[n - 1]?.getD f.content.length)

/-- The length of the content; none if it does not fit a word. -/
def length? (f : File) : Option Nat :=
  if f.content.length < wordLimit then some f.content.length else none

/-- The offset where line `n` starts, as a word. -/
def startWord (f : File) (n : Nat) : Nat := f.lineStart n % wordLimit

/-- The text of line `n`, read with its bounds checked. -/
def line? (f : File) (n : Nat) : Option Bytes :=
  if n = 0 ∨ f.lineCount < n then some []
  else do
    let stop ← f.length?
    f.content.slice? (f.startWord n) (f.lineEnds[n - 1]?.getD stop)

/-- Numbers the given texts as lines of the buffer `file`, the first one being
line `num` at offset `start`. -/
def numberLines (file num start : Nat) : List Bytes → List Line
  | [] => []
  | t :: ts => ⟨file, num, start, t⟩ :: numberLines file (num + 1) (start + t.length + 1) ts

/-- The texts of all lines of a content, in order: the last piece counts only
if it is not empty. -/
def splitLines (content : Bytes) : List Bytes :=
  let pieces := content.splitOn 0x0A
  if pieces.getLast? = some [] then pieces.dropLast else pieces

/-- All lines, in order. -/
def lines (f : File) : List Line := numberLines f.id 1 0 (splitLines f.content)

/-- All lines, as they are read one after the other. -/
def lines? (f : File) : Option (List Line) := f.length?.map fun _ => f.lines

/-! ## Offsets and coordinates -/

/-- The number of the line that holds an offset, and the offset where that
line starts; a line feed belongs to the line it ends. -/
def lineOf (f : File) (offset : Nat) : Nat × Nat :=
  let ends := lineEndsFrom 0 (f.content.take offset)
  match ends.getLast? with
  | none => (1, 0)
  | some e => (ends.length + 1, e + 1)

/-- The coordinate of an offset.  The column counts the characters between
the line's start and the offset, a cut-off one included. -/
def position (f : File) (offset : Nat) : Coord :=
  let (line, start) := f.lineOf offset
  ⟨line, (f.content.slice start offset).charCount + 1⟩

/-- The number of the line that holds an offset and the offset where it starts;
none if the number does not fit a word. -/
def lineOf? (f : File) (offset : Nat) : Option (Nat × Nat) :=
  let (line, start) := f.lineOf offset
  if line < wordLimit then some (line, start) else none

/-- The coordinate of an offset, read with the bounds checked.  The characters
before it are counted in a word, and the column is one higher. -/
def position? (f : File) (offset : Nat) : Option Coord := do
  let (line, start) ← f.lineOf? offset
  let before ← f.content.slice? start (min offset f.content.length)
  if before.charCount < wordLimit then
    some ⟨line, (before.charCount + 1) % wordLimit⟩
  else none

/-- The bytes of a span, as far as the buffer has them; none for a span of
another buffer. -/
def text (f : File) (s : Span) : Bytes :=
  if s.file = f.id then f.content.slice s.start s.stop else []

/-- The bytes of a span, if the buffer is not longer than a word can say. -/
def text? (f : File) (s : Span) : Option Bytes :=
  if s.file = f.id then f.length?.map fun _ => f.text s else some []

end File

/-- Buffers by number, in the order in which they were added. -/
structure FileSet where
  files : Array File := #[]
deriving Repr

namespace FileSet

/-- The set without buffers. -/
def empty : FileSet := ⟨#[]⟩

def size (fs : FileSet) : Nat := fs.files.size

/-- The number that the next buffer gets. -/
def nextId (fs : FileSet) : Nat := fs.size

/-- The set with one more buffer, under a new number even if the name is in
use. -/
def add (fs : FileSet) (name content : Bytes) (flags : UInt8) : FileSet :=
  ⟨fs.files.push (File.store fs.nextId name content flags)⟩

/-- The same, if the offsets of the line feeds and the number of the buffer fit
their words. -/
def add? (fs : FileSet) (name content : Bytes) (flags : UInt8) : Option FileSet :=
  let f := File.store fs.nextId name content flags
  if f.id < wordLimit ∧ ∀ e ∈ f.lineEnds, e < wordLimit then some (fs.add name content flags)
  else none

/-- The buffer with a given number. -/
def get? (fs : FileSet) (id : Nat) : Option File := fs.files[id]?

/-- The number of the latest buffer with a given name. -/
def latest? (fs : FileSet) (name : Bytes) : Option Nat :=
  (fs.files.toList.reverse.find? fun f => f.name = name).map File.id

/-- The coordinates of the two ends of a span; none for an unknown buffer, or if
a number does not fit its word. -/
def resolve? (fs : FileSet) (s : Span) : Option (Coord × Coord) := do
  let f ← fs.get? s.file
  let start ← f.position? s.start
  let stop ← f.position? s.stop
  return (start, stop)

end FileSet

end LineLexer
