/-
# `Report.Name` — how the name of a buffer is shown

In full, by its last part, or by its last part only if it is long.  Names in
angle brackets belong to no file and stay as they are.
-/
import LineLexer.Text.Bytes

namespace LineLexer.Report

/-- How much of a name is shown. -/
inductive NameMode
  | automatic
  | full
  | last
deriving DecidableEq, Repr

namespace NameMode

/-- Numbers 1 and 2 mean in full and by the last part, others automatic. -/
def ofCode (n : UInt8) : NameMode := if n = 1 then full else if n = 2 then last else automatic

def code : NameMode → Nat
  | automatic => 0
  | full => 1
  | last => 2

end NameMode

/-- The longest name, in bytes, that is shown in full automatically. -/
def nameLimit : Nat := 40

/-- The last part of a path with slashes; slashes at the end do not count, and
a path of slashes only is one slash. -/
def lastPart (path : Bytes) : Bytes :=
  match path.reverse.dropWhile (· = 0x2F) with
  | [] => utf8 "/"
  | s => (s.takeWhile (· ≠ 0x2F)).reverse

/-- The last part of a name, in which backslashes count as slashes. -/
def baseName (name : Bytes) : Bytes :=
  if name.isEmpty ∨ name.head? = some 0x3C then name
  else lastPart (name.map fun b => if b = 0x5C then 0x2F else b)

/-- A name as it is shown. -/
def displayName (mode : NameMode) (name : Bytes) : Bytes :=
  match mode with
  | .full => name
  | .last => baseName name
  | .automatic => if nameLimit < name.length then baseName name else name

end LineLexer.Report
