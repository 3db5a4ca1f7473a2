/-
# `Diagnostic.Bag` — findings up to a limit

A bag keeps findings in the order in which they came, up to a limit of at
most 65535, and counts those that found no room, in 64 bits.  Sorting orders
by place, worst first at one place; removing repeats keeps the first finding
of each code and primary span.
-/
import Std.Data.HashSet
import LineLexer.Diagnostic.Basic

namespace LineLexer

/-- The elements whose key has not occurred earlier in the list, given the
keys seen before it. -/
def distinctFrom {α κ : Type} [BEq κ] [Hashable κ] (key : α → κ) (seen : Std.HashSet κ) :
    List α → List α
  | [] => []
  | x :: xs =>
      if seen.contains (key x) then distinctFrom key seen xs
      else x :: distinctFrom key (seen.insert (key x)) xs

/-- The first element of each key, in order. -/
def distinctBy {α κ : Type} [BEq κ] [Hashable κ] (key : α → κ) (xs : List α) : List α :=
  distinctFrom key ∅ xs

/-- The highest limit a bag can have. -/
def bagCeiling : Nat := 65535

/-- Findings up to a limit, and the number of those that did not fit. -/
structure Bag where
  items : Array Diagnostic
  limit : Nat
  /-- A bag that is merged brings its count along, so the sum may wrap around. -/
  dropped : Int64
deriving Repr

namespace Bag

/-- An empty bag; a limit below zero counts as zero, one above the ceiling as
the ceiling. -/
def withLimit (limit : Int) : Bag := ⟨#[], min limit.toNat bagCeiling, 0⟩

def size (b : Bag) : Nat := b.items.size

/-- Whether the next finding is only counted. -/
def isFull (b : Bag) : Bool := b.limit ≤ b.size

/-- The bag after one more finding. -/
def add (b : Bag) (d : Diagnostic) : Bag :=
  if b.isFull then { b with dropped := b.dropped + 1 } else { b with items := b.items.push d }

/-- The bag after more findings, in order. -/
def addAll (b : Bag) (ds : List Diagnostic) : Bag := ds.foldl add b

/-- The bag with its limit raised, if need be, to hold `total` findings. -/
def raise (b : Bag) (total : Nat) : Bag :=
  if b.limit < total then { b with limit := min total bagCeiling } else b

/-- The bag with the items of another one added; its count of dropped findings
is not yet carried over. -/
def takeItems (b : Bag) (items : List Diagnostic) : Bag :=
  (b.raise (b.size + items.length)).addAll items

/-- The bag with the given number of findings counted as dropped. -/
def countDropped (b : Bag) (n : Int64) : Bag := { b with dropped := b.dropped + n }

/-- The bag with everything that another bag holds or dropped. -/
def merge (b other : Bag) : Bag := (b.takeItems other.items.toList).countDropped other.dropped

/-- The order of findings: by buffer, start and end of the primary span, then
the worst first, then by code. -/
def compare (x y : Diagnostic) : Ordering :=
  (Ord.compare x.primary.file y.primary.file)
    |>.then (Ord.compare x.primary.start y.primary.start)
    |>.then (Ord.compare x.primary.stop y.primary.stop)
    |>.then (Ord.compare y.severity.rank x.severity.rank)
    |>.then (Ord.compare x.code.num y.code.num)

/-- The bag with its items in order; findings of one place, severity and code
stay in the order in which they came. -/
def sort (b : Bag) : Bag :=
  { b with items := (b.items.toList.mergeSort fun x y => (compare x y).isLE).toArray }

/-- The bag with the first finding of each code and primary span. -/
def dedup (b : Bag) : Bag :=
  { b with items := (distinctBy (fun d => (d.code, d.primary)) b.items.toList).toArray }

/-- Whether some item is at least this serious. -/
def hasAtLeast (b : Bag) (s : Severity) : Bool := b.items.any fun d => s.rank ≤ d.severity.rank

def hasErrors (b : Bag) : Bool := b.hasAtLeast .error

def hasWarnings (b : Bag) : Bool := b.hasAtLeast .warning

end Bag

end LineLexer
