/-
# `Scan.Scanner` — a buffer, line by line

A scanner reads a line of its buffer when all results of the lines before
have been delivered.  It keeps the number of that line in a word of 32 bits.
Behind the last number of a word comes line zero, which is empty, and then
the buffer again, so a buffer with that many lines has no end.

A call gives no answer if it does not come to an end, as in a buffer without
end that has no results, and if the buffer is too long to be read.
-/
import LineLexer.Scan.Delivery

namespace LineLexer

namespace File

/-- The line with a number; line zero is empty. -/
def numbered (file : File) (lines : Array Line) (n : UInt32) : Line :=
  if n = 0 then ⟨file.id, 0, 0, []⟩
  else lines[n.toNat - 1]?.getD ⟨file.id, n.toNat, 0, []⟩

/-- Reads lines from line `n` on up to the first one that has results, or up to
the end; gives the number of the line behind them. -/
def fetch (file : File) (lines : Array Line) (n : UInt32) : Option (List ScannedLine × UInt32) :=
  if lines.size < n.toNat then some ([], n)
  else
    let results := (file.numbered lines n).walk
    if results.isEmpty then do
      let (more, behind) ← file |>.fetch lines (n + 1)
      return (⟨n.toNat, results⟩ :: more, behind)
    else some ([⟨n.toNat, results⟩], n + 1)
partial_fixpoint

end File

/-- A scan in progress. -/
structure Scanner where
  /-- What was read and has not been delivered, and what was delivered so far. -/
  delivery : Delivery
  /-- The lines of the buffer; none if it is too long to be read. -/
  lines? : Option (Array Line)
  /-- The number of the line to be read next. -/
  upcoming : UInt32
deriving Repr

namespace Scanner

/-- A scan of a buffer from its beginning. -/
def new (file : File) (level : Trace.Level) : Scanner :=
  ⟨.ofLines file level [], file.lines?.map List.toArray, 1⟩

/-- A scan of a text, as the only buffer of a set; none if it cannot be added. -/
def ofText? (text : Bytes) (level : Trace.Level) : Option Scanner := do
  let fs ← FileSet.empty.add? (utf8 "<string>") text File.virtualFlag
  let file ← fs.get? 0
  return new file level

/-- What was delivered so far. -/
def stats (s : Scanner) : Stats := s.delivery.stats

/-- Whether the end has been reported. -/
def done (s : Scanner) : Bool := s.delivery.done

/-- The next result, or none at the end. -/
def next (s : Scanner) : Option (Option Result × Scanner × List Signal) :=
  if s.delivery.pending.isEmpty && !s.done then do
    let lines ← s.lines?
    let (ahead, upcoming) ← s.delivery.file.fetch lines s.upcoming
    let (r, delivery, signals) := (s.delivery.onto ahead).next
    return (r, ⟨delivery, lines, upcoming⟩, signals)
  else
    let (r, delivery, signals) := s.delivery.next
    some (r, ⟨delivery, s.lines?, s.upcoming⟩, signals)

/-- Up to `n` further results, and the signals that came with them. -/
def take (s : Scanner) : Nat → Option (List Result × Scanner × List Signal)
  | 0 => some ([], s, [])
  | n + 1 => do
      match ← s.next with
      | (none, s, signals) => return ([], s, signals)
      | (some r, s, signals) =>
          let (rs, s, more) ← s.take n
          return (r :: rs, s, signals ++ more)

/-- All further results; after that the scanner has reported its end. -/
def drain (s : Scanner) : Option (List Result × Scanner × List Signal) := do
  match ← s.next with
  | (none, s, signals) => return ([], s, signals)
  | (some r, s, signals) =>
      let (rs, s, more) ← s |>.drain
      return (r :: rs, s, signals ++ more)
partial_fixpoint

/-- The results of a loop, which is broken off after `stop` of them or goes on
to the end. -/
def all (s : Scanner) (stop : Option Nat) : Option (List Result × Scanner × List Signal) :=
  match stop with
  | some n => s.take n
  | none => s.drain

/-- The same loop, over tokens and errors side by side. -/
def tokens (s : Scanner) (stop : Option Nat) :
    Option (List (Token × Option LexError) × Scanner × List Signal) := do
  let (rs, s, signals) ← s.all stop
  return (rs.map Result.pair, s, signals)

/-- All further results, the tokens apart from the errors. -/
def collect (s : Scanner) : Option ((List Token × List LexError) × Scanner × List Signal) := do
  let (rs, s, signals) ← s.all none
  return ((rs.filterMap Result.token?, rs.filterMap Result.error?), s, signals)

end Scanner

end LineLexer
