/-
# `Diagnostic.Reporting` — where findings go

A reporter passes findings through a chain of filters to a target: a bag, a
log, or nowhere.  A filter lets through the first of equal findings, where
notes and fixes do not count.  Bags, filters and the log are shared: two
reporters may write to one bag, and a filter may stand in several chains.
They live on a `Desk`, and reporters refer to them by number.
-/
import Std.Data.HashSet
import LineLexer.Diagnostic.Bag

namespace LineLexer

/-- What makes two findings the same report. -/
structure Identity where
  code : Code
  severity : Severity
  primary : Span
  message : Bytes
deriving DecidableEq, Hashable

def Diagnostic.identity (d : Diagnostic) : Identity := ⟨d.code, d.severity, d.primary, d.message⟩

/-- The identities of the findings that have passed. -/
structure Filter where
  seen : Std.HashSet Identity := ∅

namespace Filter

/-- The filter that nothing has passed. -/
def fresh : Filter := ⟨∅⟩

/-- Whether a finding would be held back. -/
def holds (f : Filter) (d : Diagnostic) : Bool := f.seen.contains d.identity

/-- The filter after a finding. -/
def record (f : Filter) (d : Diagnostic) : Filter := ⟨f.seen.insert d.identity⟩

end Filter

/-- A bag that takes findings, with a filter in front of it or without. -/
structure Collector where
  bag : Bag
  filter? : Option Filter

namespace Collector

/-- An empty bag of the given limit, with a filter if `dedup`. -/
def new (limit : Int) (dedup : Bool) : Collector :=
  ⟨.withLimit limit, if dedup then some .fresh else none⟩

/-- Takes one finding. -/
def report (c : Collector) (d : Diagnostic) : Collector :=
  match c.filter? with
  | none => { c with bag := c.bag.add d }
  | some f => if f.holds d then c else ⟨c.bag.add d, some (f.record d)⟩

end Collector

/-- Where a chain of filters ends. -/
inductive Target
  | bag (id : Nat)
  | log
  | nowhere
deriving DecidableEq, Repr

/-- A chain of filters, the first one first, and its target. -/
structure Reporter where
  filters : List Nat
  target : Target
deriving DecidableEq, Repr

/-- The reporter that takes no notice. -/
def Reporter.silent : Reporter := ⟨[], .nowhere⟩

/-- The bags, filters and the log that reporters write to. -/
structure Desk where
  bags : Array Bag := #[]
  filters : Array Filter := #[]
  log : Array Diagnostic := #[]

namespace Desk

/-- One more bag; its number is the number of bags before. -/
def addBag (k : Desk) (b : Bag) : Desk := { k with bags := k.bags.push b }

def bag? (k : Desk) (id : Nat) : Option Bag := k.bags[id]?

/-- Changes the bag `id`. -/
def modifyBag (k : Desk) (id : Nat) (f : Bag → Bag) : Desk := { k with bags := k.bags.modify id f }

/-- A reporter with a new filter in front of `next`. -/
def filtered (k : Desk) (next : Reporter) : Desk × Reporter :=
  ({ k with filters := k.filters.push .fresh },
    { next with filters := k.filters.size :: next.filters })

/-- A finding arrives at a target. -/
def deliver (k : Desk) (d : Diagnostic) : Target → Desk
  | .bag id => k.modifyBag id (·.add d)
  | .log => { k with log := k.log.push d }
  | .nowhere => k

/-- A finding goes through the filters to the target. -/
def pass (k : Desk) (d : Diagnostic) (target : Target) : List Nat → Desk
  | [] => k.deliver d target
  | id :: rest =>
      match k.filters[id]? with
      | none => k
      | some f =>
          let k := { k with filters := k.filters.modify id (·.record d) }
          if f.holds d then k else pass k d target rest

/-- A finding is reported. -/
def report (k : Desk) (r : Reporter) (d : Diagnostic) : Desk := k.pass d r.target r.filters

/-- Whether the first filter of a reporter would hold a finding back; a
reporter without filters cannot tell. -/
def suppressed? (k : Desk) (r : Reporter) (d : Diagnostic) : Option Bool :=
  match r.filters with
  | [] => none
  | id :: _ => k.filters[id]?.map fun f => f.holds d

/-- The bag `id` takes what the bag `other` holds and has dropped; a bag may
take its own contents once more. -/
def merge (k : Desk) (id other : Nat) : Desk :=
  match k.bag? other with
  | none => k
  | some o =>
      let k := k.modifyBag id (·.takeItems o.items.toList)
      k.modifyBag id fun b => b.countDropped ((k.bag? other).map Bag.dropped |>.getD 0)

end Desk

end LineLexer
