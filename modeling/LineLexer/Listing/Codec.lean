/-
# `Listing.Codec` — listings as bytes

Each record is written as a map from the names of its fields.  A listing is
read over the draft of zeros; one of another version is refused.
-/
import LineLexer.Listing.Draft
import LineLexer.Pack.Write

namespace LineLexer.Listing

/-! ## Writing -/

def TokenRecord.encode (r : TokenRecord) : Bytes :=
  Pack.record [("Kind", Pack.byte r.kind), ("Lexeme", Pack.text r.lexeme),
    ("Line", Pack.long r.line), ("Column", Pack.long r.column)]

def NoteRecord.encode (r : NoteRecord) : Bytes :=
  Pack.record [("Start", Pack.long r.start), ("End", Pack.long r.stop),
    ("Msg", Pack.text r.message)]

def EditRecord.encode (r : EditRecord) : Bytes :=
  Pack.record [("Start", Pack.long r.start), ("End", Pack.long r.stop),
    ("NewText", Pack.text r.text)]

def FixRecord.encode (r : FixRecord) : Bytes :=
  Pack.record [("Title", Pack.text r.title),
    ("Edits", Pack.optionalArray EditRecord.encode r.edits)]

def DiagnosticRecord.encode (r : DiagnosticRecord) : Bytes :=
  Pack.record [("Severity", Pack.byte r.severity), ("Code", Pack.word r.code),
    ("Message", Pack.text r.message), ("Start", Pack.long r.start), ("End", Pack.long r.stop),
    ("Notes", Pack.optionalArray NoteRecord.encode r.notes),
    ("Fixes", Pack.optionalArray FixRecord.encode r.fixes)]

/-- The listing as bytes. -/
def encode (l : Listing) : Bytes :=
  Pack.record [("Schema", Pack.word l.schema), ("Name", Pack.text l.name),
    ("Hash", Pack.binary l.hash.toList), ("Tokens", Pack.array TokenRecord.encode l.tokens),
    ("Diagnostics", Pack.array DiagnosticRecord.encode l.diagnostics)]

/-! ## Reading -/

/-- Why bytes are no listing. -/
inductive DecodeError
  | malformed
  | schema (found : UInt16)
deriving DecidableEq, Repr

def DecodeError.message : DecodeError → Bytes
  | malformed => utf8 "malformed listing"
  | schema found =>
      utf8 "listing schema " ++ Bytes.decimal found.toNat ++ utf8 ", expected "
        ++ Bytes.decimal currentSchema.toNat

/-- The listing that bytes start with. -/
def decode (s : Bytes) : Except DecodeError Listing :=
  match Draft.reader {} s with
  | none => .error .malformed
  | some (d, _) =>
      if d.schema = currentSchema then .ok d.toListing else .error (.schema d.schema)

end LineLexer.Listing
