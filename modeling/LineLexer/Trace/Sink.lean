/-
# `Trace.Sink` — where events end up

A ring keeps the latest events in memory and overwrites the oldest; a
stream writes each event at once.  Both pass over events that their level
does not admit, number the rest from one, and give a time to an event that
has none.  What a stream writes goes to a writer, which may be able to
flush and to close, and may fail to.

The numbers of events have no bound.  No run comes to the end of 64 bits, so
they stand for words of that width as well.
-/
import LineLexer.Trace.Event

namespace LineLexer.Trace

/-- The event as a sink takes it in: with a number, and with the time `now` if
it has none. -/
def Event.admitted (e : Event) (seq : Nat) (now : Int) : Event :=
  { e with seq, time := some (e.time.getD now) }

/-! ## Rings -/

/-- The latest events, in slots that are used in turn. -/
structure Ring where
  level : Level
  /-- The number of slots. -/
  size : Nat
  slots : Array Event
  /-- How many events were taken in, overwritten ones included. -/
  total : Nat
deriving Repr

namespace Ring

/-- The number of slots of a ring for which none is given. -/
def defaultSize : Nat := 4096

/-- The most slots that fit a memory: a slot takes 96 bytes, and addresses have
48 bits. -/
def maxSize : Nat := (1 <<< 48) / 96

/-- An empty ring; a size of zero or below means the default.  None if no memory has
room for it. -/
def new? (size : Int) (level : Level) : Option Ring :=
  let size := if size ≤ 0 then defaultSize else size.toNat
  if size ≤ maxSize then some ⟨level, size, #[], 0⟩ else none

/-- The ring after an event. -/
def emit (r : Ring) (now : Int) (e : Event) : Ring :=
  if r.level.admits e.scope then
    let e := e.admitted (r.total + 1) now
    { r with
      slots :=
        if r.slots.size < r.size then r.slots.push e
        else r.slots.setIfInBounds (r.total % r.size) e
      total := r.total + 1 }
  else r

/-- The events kept, oldest first. -/
def snapshot (r : Ring) : List Event :=
  if r.total ≤ r.size then r.slots.toList
  else r.slots.toList.drop (r.total % r.size) ++ r.slots.toList.take (r.total % r.size)

/-- The events kept, written in a form. -/
def dump (r : Ring) (format : Format) : Bytes := r.snapshot.flatMap fun e => e.written format

/-- Changes the event with a given number, if it is still kept. -/
def amend (r : Ring) (seq : Nat) (f : Event → Event) : Ring :=
  { r with slots := r.slots.map fun e => if e.seq = seq then f e else e }

end Ring

/-! ## Writers -/

/-- What a writer can do besides writing. -/
structure WriterKind where
  flushes : Bool
  flushFails : Bool
  closes : Bool
  closeFails : Bool
deriving DecidableEq, Repr

namespace WriterKind

def plain : WriterKind := ⟨false, false, false, false⟩

end WriterKind

/-- What was written, and which other calls were made. -/
structure Writer where
  kind : WriterKind
  chunks : Array Bytes := #[]
  calls : Array Bytes := #[]

namespace Writer

/-- Everything written so far. -/
def text (w : Writer) : Bytes := w.chunks.toList.flatten

/-- The calls so far, with commas between them. -/
def log (w : Writer) : Bytes := Bytes.join (utf8 ",") w.calls.toList

def write (w : Writer) (s : Bytes) : Writer := { w with chunks := w.chunks.push s }

/-- The failure, if any, comes back as a message. -/
def flush (w : Writer) : Writer × Option Bytes :=
  if w.kind.flushes then
    ({ w with calls := w.calls.push (utf8 "flush") },
      if w.kind.flushFails then some (utf8 "flush failed") else none)
  else (w, none)

/-- Flushes first; a writer that cannot flush is not closed. -/
def close (w : Writer) : Writer × Option Bytes :=
  match w.flush with
  | (w, some failure) => (w, some failure)
  | (w, none) =>
      if w.kind.closes then
        ({ w with calls := w.calls.push (utf8 "close") },
          if w.kind.closeFails then some (utf8 "close failed") else none)
      else (w, none)

end Writer

/-! ## Streams -/

/-- Writes each event at once to the writer with the given number. -/
structure Stream where
  level : Level
  format : Format
  writer : Nat
  /-- How many events were written. -/
  seq : Nat
deriving DecidableEq, Repr

namespace Stream

def new (level : Level) (format : Format) (writer : Nat) : Stream := ⟨level, format, writer, 0⟩

/-- The stream after an event, and what it writes. -/
def emit (s : Stream) (now : Int) (e : Event) : Stream × Bytes :=
  if s.level.admits e.scope then
    ({ s with seq := s.seq + 1 }, (e.admitted (s.seq + 1) now).written s.format)
  else (s, [])

end Stream

/-- A ring or a stream. -/
inductive Sink
  | ring (r : Ring)
  | stream (s : Stream)

end LineLexer.Trace
