/-
# `Listing.Basic` — what is kept of a scan

A listing holds the name and digest of a buffer, its tokens and its
findings.  Its records have numbers of fixed width, and their spans name no
buffer: they are bound to one when the listing is used.
-/
import LineLexer.Diagnostic.Basic
import LineLexer.Source.File

namespace LineLexer

namespace Listing

structure TokenRecord where
  kind : UInt8 := 0
  lexeme : Bytes := []
  line : UInt32 := 0
  column : UInt32 := 0
deriving DecidableEq, Repr

structure NoteRecord where
  start : UInt32 := 0
  stop : UInt32 := 0
  message : Bytes := []
deriving DecidableEq, Repr

structure EditRecord where
  start : UInt32 := 0
  stop : UInt32 := 0
  text : Bytes := []
deriving DecidableEq, Repr

structure FixRecord where
  title : Bytes := []
  edits : List EditRecord := []
deriving DecidableEq, Repr

structure DiagnosticRecord where
  severity : UInt8 := 0
  code : UInt16 := 0
  message : Bytes := []
  start : UInt32 := 0
  stop : UInt32 := 0
  notes : List NoteRecord := []
  fixes : List FixRecord := []
deriving DecidableEq, Repr

end Listing

/-- What is kept of a scan. -/
structure Listing where
  /-- The version of the layout. -/
  schema : UInt16 := 0
  name : Bytes := []
  /-- The digest of the buffer. -/
  hash : Vector UInt8 32 := Vector.replicate 32 0
  tokens : List Listing.TokenRecord := []
  diagnostics : List Listing.DiagnosticRecord := []
deriving DecidableEq, Repr

namespace Listing

/-- The version of the layout that is in use. -/
def currentSchema : UInt16 := 1

/-! ## From a scan -/

def TokenRecord.ofToken (t : Token) : TokenRecord :=
  ⟨t.kind.code, t.lexeme, t.coord.line.toUInt32, t.coord.column.toUInt32⟩

def NoteRecord.ofNote (n : Note) : NoteRecord :=
  ⟨n.span.start.toUInt32, n.span.stop.toUInt32, n.message⟩

def EditRecord.ofEdit (e : Edit) : EditRecord :=
  ⟨e.span.start.toUInt32, e.span.stop.toUInt32, e.text⟩

def FixRecord.ofFix (f : Fix) : FixRecord := ⟨f.title, f.edits.map EditRecord.ofEdit⟩

def DiagnosticRecord.ofDiagnostic (d : Diagnostic) : DiagnosticRecord :=
  ⟨d.severity.rank, d.code.num, d.message, d.primary.start.toUInt32, d.primary.stop.toUInt32,
    d.notes.map NoteRecord.ofNote, d.fixes.map FixRecord.ofFix⟩

/-- The listing of a buffer with its tokens and findings. -/
def ofScan (f : File) (ts : List Token) (ds : List Diagnostic) : Listing where
  schema := currentSchema
  name := f.name
  hash := Vector.ofFn fun i => f.hash[i.val]?.getD 0
  tokens := ts.map TokenRecord.ofToken
  diagnostics := ds.map DiagnosticRecord.ofDiagnostic

/-! ## Back to tokens and findings -/

/-- A token whose kind is a number that names none. -/
structure BadKind where
  index : Nat
  kind : UInt8
deriving DecidableEq, Repr

def BadKind.message (e : BadKind) : Bytes :=
  utf8 "token " ++ Bytes.decimal e.index ++ utf8 ": invalid kind " ++ Bytes.decimal e.kind.toNat

def TokenRecord.toToken (r : TokenRecord) : Token :=
  ⟨.ofCode r.kind, r.lexeme, ⟨r.line.toNat, r.column.toNat⟩⟩

/-- The tokens of records, of which the first has the given index. -/
def tokensFrom (index : Nat) : List TokenRecord → Except BadKind (List Token)
  | [] => .ok []
  | r :: rs =>
      if (Kind.ofCode r.kind).isValid then (tokensFrom (index + 1) rs).map (r.toToken :: ·)
      else .error ⟨index, r.kind⟩

/-- The tokens; the first one without a valid kind is an error. -/
def tokenList (l : Listing) : Except BadKind (List Token) := tokensFrom 0 l.tokens

def NoteRecord.toNote (file : Nat) (r : NoteRecord) : Note :=
  ⟨⟨file, r.start.toNat, r.stop.toNat⟩, r.message⟩

def EditRecord.toEdit (file : Nat) (r : EditRecord) : Edit :=
  ⟨⟨file, r.start.toNat, r.stop.toNat⟩, r.text⟩

def FixRecord.toFix (file : Nat) (r : FixRecord) : Fix := ⟨r.title, r.edits.map (·.toEdit file)⟩

def DiagnosticRecord.toDiagnostic (file : Nat) (r : DiagnosticRecord) : Diagnostic :=
  ⟨⟨r.severity⟩, ⟨r.code⟩, r.message, ⟨file, r.start.toNat, r.stop.toNat⟩,
    r.notes.map (·.toNote file), r.fixes.map (·.toFix file)⟩

/-- The findings, with all spans in the given buffer. -/
def diagnosticList (l : Listing) (file : Nat) : List Diagnostic :=
  l.diagnostics.map (·.toDiagnostic file)

end Listing

end LineLexer
