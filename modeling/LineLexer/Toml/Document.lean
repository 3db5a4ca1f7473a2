/-
# `Toml.Document` — the table that a settings text describes

Statements are read one after another into a `Draft`: the tables so far,
which of them came into being only on the way to another one, which keys
hold arrays, and the keys that were written.

A key may be given once.  Two kinds of key can be given again:

    a table that only lay on the way to another    (it keeps its contents)
    an array                                       (it is replaced)

A table header opens a table for the assignments that follow; an array of
tables is entered at its last table.
-/
import Std.Data.HashSet
import LineLexer.Toml.Syntax

namespace LineLexer.Toml

/-- A value of a document.  `other` stands for floats, dates and arrays, which
no setting has. -/
inductive Node
  | string (s : Bytes)
  | integer (n : Int)
  | boolean (b : Bool)
  | other
  | table (entries : List (Bytes × Node))
  /-- An array of tables, of which only the last one can still be entered. -/
  | tables (last : List (Bytes × Node))

/-- Nodes by their name. -/
abbrev Table := List (Bytes × Node)

namespace Table

/-- Gives a name to a node, in the place of the node that had it. -/
def put (name : Bytes) (node : Node) : Table → Table
  | [] => [(name, node)]
  | (n, m) :: t => if n = name then (n, node) :: t else (n, m) :: put name node t

/-- The table that a key leads to; none if the way goes through a value. -/
def tableAt? : Key → Table → Option Table
  | [], t => some t
  | k :: ks, t =>
      match t.lookup k with
      | some (.table u) => tableAt? ks u
      | some (.tables u) => tableAt? ks u
      | _ => none

/-- Changes the table that a key leads to. -/
def modifyAt (f : Table → Table) : Key → Table → Table
  | [], t => f t
  | k :: ks, t =>
      match t.lookup k with
      | some (.table u) => t.put k (.table (modifyAt f ks u))
      | some (.tables u) => t.put k (.tables (modifyAt f ks u))
      | _ => t

end Table

/-- What has been read so far. -/
structure Draft where
  root : Table := []
  /-- Tables that so far only lie on the way to others. -/
  passing : Std.HashSet Key := ∅
  /-- Keys whose last value is an array. -/
  arrays : Std.HashSet Key := ∅
  /-- The keys that were written, the last one first. -/
  written : List Key := []

namespace Draft

/-- Notes that a table lies only on the way to another. -/
def addPassing (d : Draft) (key : Key) : Draft := { d with passing := d.passing.insert key }

def removePassing (d : Draft) (key : Key) : Draft := { d with passing := d.passing.erase key }

/-- Notes that a key was written. -/
def record (d : Draft) (key : Key) : Draft := { d with written := key :: d.written }

def putAt (d : Draft) (place : Key) (name : Bytes) (node : Node) : Draft :=
  { d with root := d.root.modifyAt (Table.put name node) place }

/-- Notes whether a name in a table has an array.  An empty name stands for the
table itself, if that has a name. -/
def mark (d : Draft) (place : Key) (name : Bytes) (isArray : Bool) : Draft :=
  let key := if name.isEmpty && !place.isEmpty then place else place ++ [name]
  { d with arrays := if isArray then d.arrays.insert key else d.arrays.erase key }

/-- Gives a name in a table to a node. -/
def define? (d : Draft) (place : Key) (name : Bytes) (node : Node) : Option Draft := do
  let t ← d.root.tableAt? place
  let key := place ++ [name]
  match t.lookup name with
  | none => some (d.putAt place name node)
  | some _ =>
      if key ∈ d.arrays then some ((d.removePassing key).putAt place name node)
      else if key ∈ d.passing then some (d.removePassing key)
      else none

/-- Adds an empty table to the array of tables that has a name. -/
def append? (d : Draft) (place : Key) (name : Bytes) : Option Draft := do
  let t ← d.root.tableAt? place
  match t.lookup name with
  | none => some (d.putAt place name (.tables []))
  | some (.tables _) => some (d.putAt place name (.tables []))
  | some _ => none

/-- Makes the tables on the rest of a way.  `back` is the way so far, the last
part first, and `t` the table it has led to. -/
def paveFrom? (d : Draft) (back : Key) (t : Table) : Key → Option Draft
  | [] => some d
  | k :: ks =>
      match t.lookup k with
      | none =>
          ((d.addPassing (k :: back).reverse).putAt back.reverse k (.table [])).paveFrom?
            (k :: back) [] ks
      | some (.table u) => d.paveFrom? (k :: back) u ks
      | some (.tables u) => d.paveFrom? (k :: back) u ks
      | some _ => if ks.isEmpty then some d else none

/-- Makes the tables on a way. -/
def pave? (d : Draft) (way : Key) : Option Draft := d.paveFrom? [] d.root way

/-- Opens a table, or one more table of an array. -/
def open? (d : Draft) (key : Key) (inArray : Bool) : Option Draft := do
  let place := key.dropLast
  let name := key.getLast?.getD []
  let d ← d.pave? place
  if inArray then d.append? place name else d.define? place name (.table [])

/-- Opens the tables of a key with dots, from `place` on. -/
def openDotted? (d : Draft) (place : Key) : Key → Option Draft
  | [] => some d
  | k :: ks => do
      let here := place ++ [k]
      let d ← (d.addPassing here).open? here false
      openDotted? d here ks

mutual

/-- Reads a value for a name in a table, with the tables that stand in it. -/
def place? (d : Draft) (place : Key) (name : Bytes) (inArray : Bool) :
    Value → Option (Draft × Node)
  | .string s => some (d, .string s)
  | .integer n => some (d, .integer n)
  | .boolean b => some (d, .boolean b)
  | .float => some (d, .other)
  | .dateTime => some (d, .other)
  | .array items => do
      let d ← placeItems? (d.mark place name true) place name items
      return (d, .other)
  | .inlineTable fields => do
      let here := place ++ [name]
      let d ← (d.addPassing here).open? here inArray
      let (d, entries) ← placeFields? d here [] fields
      return (d, .table entries)

/-- Reads the items of an array. -/
def placeItems? (d : Draft) (place : Key) (name : Bytes) : List Value → Option Draft
  | [] => some d
  | v :: vs => do
      let (d, _) ← place? d place name true v
      placeItems? d place name vs

/-- Reads assignments in a table, and gathers their values by the last parts of
their keys. -/
def placeFields? (d : Draft) (place : Key) (entries : Table) :
    List (Key × Value) → Option (Draft × Table)
  | [] => some (d, entries)
  | (key, v) :: fields => do
      let inner := place ++ key.dropLast
      let name := key.getLast?.getD []
      let d ← d.openDotted? place key.dropLast
      let (d, node) ← place? (d.record (inner ++ [name])) inner name false v
      let d ← d.define? inner name node
      let isArray := match v with
        | .array _ => true
        | _ => false
      placeFields? (d.mark inner name isArray) place (entries.put name node) fields

end

/-- Reads a header, which opens the table for the assignments behind it. -/
def header? (d : Draft) (key : Key) (inArray : Bool) : Option Draft := do
  let d ← d.open? key inArray
  return (d.mark key [] false).record key

/-- Reads statements; `place` is the table that the last header opened. -/
def read? (d : Draft) (place : Key) : List Statement → Option Draft
  | [] => some d
  | .table key :: ss => do read? (← d.header? key false) key ss
  | .arrayTable key :: ss => do read? (← d.header? key true) key ss
  | .assign key value :: ss => do
      let (d, _) ← placeFields? d place [] [(key, value)]
      read? d place ss

end Draft

/-- The table that a settings text describes, and the keys in the order in
which they were written. -/
structure Document where
  root : Table
  keys : List Key

/-- Reads a settings text; none if it is not well formed, or gives a key twice. -/
def Document.parse? (text : Bytes) : Option Document := do
  let d ← Draft.read? {} [] (← statements? text)
  return ⟨d.root, d.written.reverse⟩

/-! ## Keys as text -/

/-- A byte of a key in quotes. -/
def escapedByte (b : UInt8) : Bytes :=
  if b = 0x22 then utf8 "\\\""
  else if b = 0x5C then utf8 "\\\\"
  else if b = 0x08 then utf8 "\\b"
  else if b = 0x09 then utf8 "\\t"
  else if b = 0x0A then utf8 "\\n"
  else if b = 0x0C then utf8 "\\f"
  else if b = 0x0D then utf8 "\\r"
  else if b < 0x20 ∨ b = 0x7F then utf8 "\\u00" ++ Bytes.hexPairs [b]
  else [b]

/-- Whether a byte may stand in a key without quotes. -/
def isBareByte (b : UInt8) : Bool :=
  (0x41 ≤ b && b ≤ 0x5A) || (0x61 ≤ b && b ≤ 0x7A) || (0x30 ≤ b && b ≤ 0x39) || b == 0x5F
    || b == 0x2D

/-- One part of a key, in quotes where it needs them. -/
def partText (part : Bytes) : Bytes :=
  if !part.isEmpty && part.all isBareByte then part
  else utf8 "\"" ++ part.flatMap escapedByte ++ utf8 "\""

/-- A key as it is written. -/
def Key.text (key : Key) : Bytes := Bytes.join (utf8 ".") (key.map partText)

end LineLexer.Toml
