/-
# `Settings.Decode` — settings from their text

The tables `scan`, `trace` and `render` hold the settings.  A name matches a
setting as it is, or else in any case.  A setting of the wrong kind is a
fault of the text; so is a key that no setting has.
-/
import LineLexer.Settings.Basic
import LineLexer.Toml.Document

namespace LineLexer.Settings

open Toml (Node Table Key Document)

/-! ## Names -/

/-- A character without its case; two signs of other scripts count as letters. -/
def foldChar (c : Char) : Char :=
  if c.toNat = 0x17F then 's' else if c.toNat = 0x212A then 'k' else c.toLower

/-- Whether two names differ in case only. -/
def sameFolded (s t : Bytes) : Bool :=
  (glyphs s).map (foldChar ·.char) = (glyphs t).map (foldChar ·.char)

/-- The name of a list that a key means: the same one, or else one that differs
in case only. -/
def matching? (names : List String) (key : Bytes) : Option String :=
  (names.find? fun n => utf8 n = key).orElse fun _ => names.find? fun n => sameFolded (utf8 n) key

/-! ## Fields -/

def integer? : Node → Option Int
  | .integer n => some n
  | _ => none

def boolean? : Node → Option Bool
  | .boolean b => some b
  | _ => none

def string? : Node → Option Bytes
  | .string s => some s
  | _ => none

/-- Sets a field of a section; none if the node is of the wrong kind. -/
def Scan.set? (s : Scan) (field : String) (n : Node) : Option Scan :=
  match field with
  | "max_diagnostics" => (integer? n).map fun v => { s with maxDiagnostics := v }
  | "dedup" => (boolean? n).map fun v => { s with dedup := v }
  | "jobs" => (integer? n).map fun v => { s with jobs := v }
  | _ => some s

@[inherit_doc Scan.set?]
def Trace.set? (s : Settings.Trace) (field : String) (n : Node) : Option Settings.Trace :=
  match field with
  | "level" => (string? n).map fun v => { s with level := v }
  | "format" => (string? n).map fun v => { s with format := v }
  | "mode" => (string? n).map fun v => { s with mode := v }
  | "ring_size" => (integer? n).map fun v => { s with ringSize := v }
  | _ => some s

@[inherit_doc Scan.set?]
def Render.set? (s : Render) (field : String) (n : Node) : Option Render :=
  match field with
  | "color" => (boolean? n).map fun v => { s with color := v }
  | "context" => (integer? n).map fun v => { s with context := v }
  | "tab_width" => (integer? n).map fun v => { s with tabWidth := v }
  | "tokens" => (string? n).map fun v => { s with tokens := v }
  | _ => some s

/-- The fields of each section. -/
def fieldNames (sectionName : String) : List String :=
  match sectionName with
  | "scan" => ["max_diagnostics", "dedup", "jobs"]
  | "trace" => ["level", "format", "mode", "ring_size"]
  | "render" => ["color", "context", "tab_width", "tokens"]
  | _ => []

def sectionNames : List String := ["scan", "trace", "render"]

/-- Sets a field of a section that has a name. -/
def setField? (s : Settings) (sectionName field : String) (n : Node) : Option Settings :=
  match sectionName with
  | "scan" => (s.scan.set? field n).map fun v => { s with scan := v }
  | "trace" => (s.trace.set? field n).map fun v => { s with trace := v }
  | "render" => (s.render.set? field n).map fun v => { s with render := v }
  | _ => some s

/-! ## Tables -/

/-- Settings with the keys that gave them. -/
structure Reading where
  settings : Settings := {}
  used : List Key := []

/-- Reads the fields of a section whose key is `key`. -/
def readFields? (sectionName : String) (key : Bytes) (r : Reading) : Table → Option Reading
  | [] => some r
  | (name, node) :: t => do
      match matching? (fieldNames sectionName) name with
      | none => readFields? sectionName key r t
      | some field => do
          let s ← r.settings.setField? sectionName field node
          readFields? sectionName key ⟨s, [key, name] :: r.used⟩ t

/-- Reads the sections of a document. -/
def readSections? (r : Reading) : Table → Option Reading
  | [] => some r
  | (name, node) :: t => do
      match matching? sectionNames name, node with
      | none, _ => readSections? r t
      | some sectionName, .table fields => do
          let r ← readFields? sectionName name { r with used := [name] :: r.used } fields
          readSections? r t
      | some _, _ => none

/-! ## The whole text -/

/-- Why a text gives no settings. -/
inductive DecodeError
  | malformed
  | unknownKeys (keys : List Key)
  | invalid (violations : List Violation)

/-- The complaint about a text with a name. -/
def DecodeError.message (name : Bytes) : DecodeError → Bytes
  | malformed => name ++ utf8 ": failed to parse TOML"
  | unknownKeys keys =>
      name ++ utf8 ": unknown keys: " ++ Bytes.join (utf8 ", ") (keys.map Toml.Key.text)
  | invalid vs => name ++ utf8 ": " ++ Violation.messages vs

/-- The keys of a document that gave no setting, in the order of the text. -/
def unusedKeys (d : Document) (r : Reading) : List Key := d.keys.filter (· ∉ r.used)

/-- The settings that a text gives. -/
def decode (text : Bytes) : Except DecodeError Settings :=
  match Document.parse? text with
  | none => .error .malformed
  | some d =>
      match readSections? {} d.root with
      | none => .error .malformed
      | some r =>
          if !(unusedKeys d r).isEmpty then .error (.unknownKeys (unusedKeys d r))
          else if !r.settings.violations.isEmpty then .error (.invalid r.settings.violations)
          else .ok r.settings

end LineLexer.Settings
