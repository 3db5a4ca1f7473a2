/-
# `Trace.Level` — how much is recorded, and in which form

Events have a scope, from a whole batch down to one token; a level admits
the coarser scopes up to one of them.  Levels, scopes and kinds of event
are numbers of which only some have names.
-/
import LineLexer.Text.Lowercase
import LineLexer.Text.Quoted

namespace LineLexer.Trace

/-- The name that a number has in a table; `unknown` if the table has none. -/
def nameIn (names : List (UInt8 × String)) (n : UInt8) : Bytes :=
  utf8 ((names.lookup n).getD "unknown")

/-- The granularity of an event; the coarser, the smaller. -/
structure Scope where
  rank : UInt8
deriving DecidableEq, Repr

namespace Scope

/-- A batch of buffers, or the work on one of them. -/
def driver : Scope := ⟨1⟩

/-- One scan of one buffer. -/
def pass : Scope := ⟨2⟩

def line : Scope := ⟨3⟩

/-- One token or lexical error. -/
def token : Scope := ⟨4⟩

def name (s : Scope) : Bytes :=
  nameIn [(1, "driver"), (2, "pass"), (3, "line"), (4, "token")] s.rank

end Scope

/-- Whether an event opens a span, closes it, or stands alone. -/
structure EventKind where
  code : UInt8
deriving DecidableEq, Repr

namespace EventKind

def spanBegin : EventKind := ⟨1⟩
def spanEnd : EventKind := ⟨2⟩
def point : EventKind := ⟨3⟩

def name (k : EventKind) : Bytes := nameIn [(1, "begin"), (2, "end"), (3, "point")] k.code

/-- The sign in front of an event. -/
def sign (k : EventKind) : Bytes :=
  if k = spanBegin then utf8 "→ "
  else if k = spanEnd then utf8 "← "
  else if k = point then utf8 "• "
  else []

end EventKind

/-- How fine-grained the record is. -/
structure Level where
  rank : UInt8
deriving DecidableEq, Repr

namespace Level

def off : Level := ⟨0⟩

/-- The levels by name. -/
def names : List (UInt8 × String) :=
  [(0, "off"), (1, "error"), (2, "phase"), (3, "detail"), (4, "debug")]

def name (l : Level) : Bytes := nameIn names l.rank

/-- Whether anything is recorded at all, for tracers of this level. -/
def isEnabled (l : Level) : Bool := 0 < l.rank

/-- The rank of the finest scope that a level admits; zero if it admits none. -/
def finest (l : Level) : UInt8 :=
  match l.rank with
  | 2 => Scope.pass.rank
  | 3 => Scope.line.rank
  | 4 => Scope.token.rank
  | _ => 0

/-- Whether events of a scope are recorded. -/
def admits (l : Level) (s : Scope) : Bool := s.rank ≠ 0 && s.rank ≤ l.finest

/-- The level with a given name in any case; the empty name means off. -/
def ofName? (s : Bytes) : Option Level :=
  let s := Text.lowercase s
  if s.isEmpty then some off
  else (names.find? fun (_, name) => utf8 name = s).map fun (rank, _) => ⟨rank⟩

/-- The complaint about a name that no level has. -/
def unknownMessage (s : Bytes) : Bytes :=
  utf8 "invalid trace level: " ++ Text.quoted (Text.lowercase s)
    ++ utf8 " (expected: off|error|phase|detail|debug)"

end Level

/-- The form of a written event. -/
inductive Format
  | text
  | ndjson
deriving DecidableEq, Repr

namespace Format

/-- Number 1 is one JSON object per line, any other number plain text. -/
def ofCode (n : Nat) : Format := if n = 1 then ndjson else text

def code : Format → Nat
  | text => 0
  | ndjson => 1

/-- The format with a given name in any case; the empty name means text. -/
def ofName? (s : Bytes) : Option Format :=
  let s := Text.lowercase s
  if s.isEmpty ∨ s = utf8 "text" then some text
  else if s = utf8 "ndjson" ∨ s = utf8 "json" then some ndjson
  else none

/-- The complaint about a name that no format has. -/
def unknownMessage (s : Bytes) : Bytes :=
  utf8 "invalid trace format: " ++ Text.quoted s ++ utf8 " (expected: text|ndjson)"

end Format

/-- Where events are kept. -/
structure Storage where
  code : UInt8
deriving DecidableEq, Repr

namespace Storage

/-- Written at once. -/
def stream : Storage := ⟨1⟩

/-- The last ones in memory. -/
def ring : Storage := ⟨2⟩

def both : Storage := ⟨3⟩

def names : List (UInt8 × String) := [(1, "stream"), (2, "ring"), (3, "both")]

def name (m : Storage) : Bytes := nameIn names m.code

/-- The storage with a given name in any case. -/
def ofName? (s : Bytes) : Option Storage :=
  (names.find? fun (_, name) => utf8 name = Text.lowercase s).map fun (code, _) => ⟨code⟩

/-- The complaint about a name that no storage has. -/
def unknownMessage (s : Bytes) : Bytes :=
  utf8 "invalid storage mode: " ++ Text.quoted (Text.lowercase s)
    ++ utf8 " (expected: stream|ring|both)"

end Storage

end LineLexer.Trace
