/-
# `Timing.Stopwatch` — how long phases take

A stopwatch reads a clock when a phase begins and when it ends.  The clock is
the list of times it will show; it stops at the last one.  Durations are
nanoseconds in 64 bits: a difference that does not fit is cut off at the
bounds, and the total wraps around.
-/
import LineLexer.Text.Fixed
import LineLexer.Text.Glyph

namespace LineLexer.Timing

/-- A phase that has begun. -/
structure Phase where
  name : Bytes
  start : Int
  duration : Int64 := 0
  note : Bytes := []
deriving DecidableEq, Repr

/-- A clock and the phases so far. -/
structure Stopwatch where
  /-- The times the clock will show. -/
  clock : List Int
  phases : List Phase := []
deriving DecidableEq, Repr

namespace Stopwatch

/-- The time now; a clock without times shows zero. -/
def now (t : Stopwatch) : Int := t.clock.head?.getD 0

/-- The stopwatch after its clock was read. -/
def tick (t : Stopwatch) : Stopwatch :=
  match t.clock with
  | _ :: time :: times => { t with clock := time :: times }
  | _ => t

/-- The time between two readings, within the bounds of 64 bits. -/
def elapsed (start stop : Int) : Int64 :=
  Int64.ofInt (max Int64.minValue.toInt (min (stop - start) Int64.maxValue.toInt))

/-- Begins a phase and gives its index. -/
def start (t : Stopwatch) (name : Bytes) : Stopwatch × Nat :=
  ({ t.tick with phases := t.phases ++ [⟨name, t.now, 0, []⟩] }, t.phases.length)

/-- Ends the phase with an index; an index without a phase leaves the stopwatch
and its clock alone. -/
def stop (t : Stopwatch) (index : Int) (note : Bytes) : Stopwatch :=
  if 0 ≤ index ∧ index < t.phases.length then
    { t.tick with
      phases := t.phases.modify index.toNat fun p =>
        { p with duration := elapsed p.start t.now, note } }
  else t

/-- The sum of all durations. -/
def total (t : Stopwatch) : Int64 := t.phases.foldl (fun n p => n + p.duration) 0

end Stopwatch

/-- A duration in milliseconds. -/
def millis (d : Int64) : Float := d.toFloat / 1000000.0

/-- A name and a duration in columns. -/
def row (name : Bytes) (d : Int64) : Bytes :=
  utf8 "  " ++ name.padRight 12 ++ utf8 " " ++ Bytes.padLeft 7 0x20 (Text.fixed 2 (millis d))
    ++ utf8 " ms"

/-- The row of a phase, with its note. -/
def Phase.row (p : Phase) : Bytes :=
  Timing.row p.name p.duration ++ (if p.note.isEmpty then [] else utf8 "  // " ++ p.note)

/-- All phases and their sum as a table. -/
def Stopwatch.summary (t : Stopwatch) : Bytes :=
  utf8 "timings:\n" ++ t.phases.flatMap (fun p => p.row ++ utf8 "\n")
    ++ row (utf8 "total") t.total ++ utf8 "\n"

end LineLexer.Timing
