/-
# `Proofs.Listing.RoundTrip` — a listing survives being written

A written listing is read back whole, whatever stands behind it
(`Listing.decode_encode`), provided that its texts and lists are not longer
than the packed form can say (`Listing.Sized`).  The same holds for a listing
in which lists are missing (`Listing.Sparse`): they are written as nothing and
come back empty.

The records of a listing have numbers of 32 bits and no buffers.  For tokens
and findings whose numbers fit, the listing of a scan gives back its tokens,
and its findings bound to the buffer that is asked for.
-/
import LineLexer.Listing.Codec
import LineLexer.Proofs.Pack.RoundTrip

namespace LineLexer

namespace Listing

open Pack

/-! ## Sizes -/

def TokenRecord.Sized (r : TokenRecord) : Prop := r.lexeme.length < sizeLimit

def NoteRecord.Sized (r : NoteRecord) : Prop := r.message.length < sizeLimit

def EditRecord.Sized (r : EditRecord) : Prop := r.text.length < sizeLimit

structure FixRecord.Sized (r : FixRecord) : Prop where
  title : r.title.length < sizeLimit
  edits : r.edits.length < sizeLimit
  edit : ∀ e ∈ r.edits, e.Sized

structure DiagnosticRecord.Sized (r : DiagnosticRecord) : Prop where
  message : r.message.length < sizeLimit
  notes : r.notes.length < sizeLimit
  note : ∀ n ∈ r.notes, n.Sized
  fixes : r.fixes.length < sizeLimit
  fix : ∀ f ∈ r.fixes, f.Sized

instance (r : TokenRecord) : Decidable r.Sized := inferInstanceAs (Decidable (_ < _))

instance (r : NoteRecord) : Decidable r.Sized := inferInstanceAs (Decidable (_ < _))

instance (r : EditRecord) : Decidable r.Sized := inferInstanceAs (Decidable (_ < _))

instance (r : FixRecord) : Decidable r.Sized :=
  decidable_of_iff (r.title.length < sizeLimit ∧ r.edits.length < sizeLimit ∧
      ∀ e ∈ r.edits, e.Sized)
    ⟨fun ⟨h₁, h₂, h₃⟩ => ⟨h₁, h₂, h₃⟩, fun ⟨h₁, h₂, h₃⟩ => ⟨h₁, h₂, h₃⟩⟩

instance (r : DiagnosticRecord) : Decidable r.Sized :=
  decidable_of_iff (r.message.length < sizeLimit ∧ r.notes.length < sizeLimit ∧
      (∀ n ∈ r.notes, n.Sized) ∧ r.fixes.length < sizeLimit ∧ ∀ f ∈ r.fixes, f.Sized)
    ⟨fun ⟨h₁, h₂, h₃, h₄, h₅⟩ => ⟨h₁, h₂, h₃, h₄, h₅⟩,
      fun ⟨h₁, h₂, h₃, h₄, h₅⟩ => ⟨h₁, h₂, h₃, h₄, h₅⟩⟩

end Listing

/-- The texts and lists of a listing are not too long to be written. -/
structure Listing.Sized (l : Listing) : Prop where
  name : l.name.length < Pack.sizeLimit
  tokens : l.tokens.length < Pack.sizeLimit
  token : ∀ t ∈ l.tokens, t.Sized
  diagnostics : l.diagnostics.length < Pack.sizeLimit
  diagnostic : ∀ d ∈ l.diagnostics, d.Sized

namespace Listing

instance (l : Listing) : Decidable l.Sized :=
  decidable_of_iff (l.name.length < Pack.sizeLimit ∧ l.tokens.length < Pack.sizeLimit ∧
      (∀ t ∈ l.tokens, t.Sized) ∧ l.diagnostics.length < Pack.sizeLimit ∧
      ∀ d ∈ l.diagnostics, d.Sized)
    ⟨fun ⟨h₁, h₂, h₃, h₄, h₅⟩ => ⟨h₁, h₂, h₃, h₄, h₅⟩,
      fun ⟨h₁, h₂, h₃, h₄, h₅⟩ => ⟨h₁, h₂, h₃, h₄, h₅⟩⟩

open Pack

/-! ## Lists that are missing

A list of a listing may be missing, which says the same as an empty list but is
not written the same.  A listing itself leaves out the empty lists of its
findings and none of its own. -/

/-- A fix whose edits may be missing. -/
structure FixRecord.Sparse where
  title : Bytes
  edits : Option (List EditRecord)
deriving DecidableEq, Repr

/-- A finding whose notes and fixes may be missing. -/
structure DiagnosticRecord.Sparse where
  severity : UInt8
  code : UInt16
  message : Bytes
  start : UInt32
  stop : UInt32
  notes : Option (List NoteRecord)
  fixes : Option (List FixRecord.Sparse)
deriving DecidableEq, Repr

/-- A listing in which lists may be missing. -/
structure Sparse where
  schema : UInt16
  name : Bytes
  hash : Vector UInt8 32
  tokens : Option (List TokenRecord)
  diagnostics : Option (List DiagnosticRecord.Sparse)
deriving DecidableEq, Repr

def FixRecord.Sparse.encode (r : FixRecord.Sparse) : Bytes :=
  record [("Title", text r.title), ("Edits", presentArray EditRecord.encode r.edits)]

def DiagnosticRecord.Sparse.encode (r : DiagnosticRecord.Sparse) : Bytes :=
  record [("Severity", byte r.severity), ("Code", word r.code), ("Message", text r.message),
    ("Start", long r.start), ("End", long r.stop),
    ("Notes", presentArray NoteRecord.encode r.notes),
    ("Fixes", presentArray FixRecord.Sparse.encode r.fixes)]

def Sparse.encode (l : Sparse) : Bytes :=
  record [("Schema", word l.schema), ("Name", text l.name), ("Hash", binary l.hash.toList),
    ("Tokens", presentArray TokenRecord.encode l.tokens),
    ("Diagnostics", presentArray DiagnosticRecord.Sparse.encode l.diagnostics)]

/-- The fix, with nothing for what is missing. -/
def FixRecord.Sparse.toRecord (r : FixRecord.Sparse) : FixRecord := ⟨r.title, r.edits.getD []⟩

def DiagnosticRecord.Sparse.toRecord (r : DiagnosticRecord.Sparse) : DiagnosticRecord :=
  ⟨r.severity, r.code, r.message, r.start, r.stop, r.notes.getD [],
    (r.fixes.getD []).map FixRecord.Sparse.toRecord⟩

def Sparse.toListing (l : Sparse) : Listing :=
  ⟨l.schema, l.name, l.hash, l.tokens.getD [],
    (l.diagnostics.getD []).map DiagnosticRecord.Sparse.toRecord⟩

/-! ## Records -/

theorem TokenRecord.encode_reads {r : TokenRecord} (h : r.Sized) :
    Reads TokenRecord.reader r.encode {} r :=
  record_reads (by simp) <|
    .cons rfl (by decide) (field_reads _ (byte_reads r.kind _)) <|
    .cons rfl (by decide) (field_reads _ (text_reads h _)) <|
    .cons rfl (by decide) (field_reads _ (long_reads r.line _)) <|
    .cons rfl (by decide) (field_reads _ (long_reads r.column _)) (.nil _)

theorem NoteRecord.encode_reads {r : NoteRecord} (h : r.Sized) :
    Reads NoteRecord.reader r.encode {} r :=
  record_reads (by simp) <|
    .cons rfl (by decide) (field_reads _ (long_reads r.start _)) <|
    .cons rfl (by decide) (field_reads _ (long_reads r.stop _)) <|
    .cons rfl (by decide) (field_reads _ (text_reads h _)) (.nil _)

theorem EditRecord.encode_reads {r : EditRecord} (h : r.Sized) :
    Reads EditRecord.reader r.encode {} r :=
  record_reads (by simp) <|
    .cons rfl (by decide) (field_reads _ (long_reads r.start _)) <|
    .cons rfl (by decide) (field_reads _ (long_reads r.stop _)) <|
    .cons rfl (by decide) (field_reads _ (text_reads h _)) (.nil _)

/-- The draft of a fix that was read once. -/
def FixDraft.ofRecord (r : FixRecord) : FixDraft := ⟨r.title, ⟨r.edits, []⟩⟩

theorem FixRecord.Sparse.encode_reads {r : FixRecord.Sparse} (h : r.toRecord.Sized) :
    Reads FixDraft.reader r.encode {} (.ofRecord r.toRecord) := by
  have hedits := presentArray_reads (g := id) h.edits fun e he =>
    EditRecord.encode_reads (h.edit e he)
  rw [List.map_id] at hedits
  exact record_reads (by simp) <|
    .cons rfl (by decide) (field_reads _ (text_reads h.title _)) <|
    .cons rfl (by decide) (field_reads _ hedits) (.nil _)

/-- The draft of a finding that was read once. -/
def DiagnosticDraft.ofRecord (r : DiagnosticRecord) : DiagnosticDraft :=
  ⟨r.severity, r.code, r.message, r.start, r.stop, ⟨r.notes, []⟩,
    ⟨r.fixes.map FixDraft.ofRecord, []⟩⟩

theorem DiagnosticRecord.Sparse.encode_reads {r : DiagnosticRecord.Sparse}
    (h : r.toRecord.Sized) :
    Reads DiagnosticDraft.reader r.encode {} (.ofRecord r.toRecord) := by
  have hnotes := presentArray_reads (g := id) h.notes fun n hn =>
    NoteRecord.encode_reads (h.note n hn)
  rw [List.map_id] at hnotes
  have hlen : (r.fixes.getD []).length < sizeLimit := by
    rw [← List.length_map FixRecord.Sparse.toRecord]
    exact h.fixes
  have hfixes := presentArray_reads (g := FixDraft.ofRecord ∘ FixRecord.Sparse.toRecord) hlen
    fun f hf => FixRecord.Sparse.encode_reads (h.fix f.toRecord (List.mem_map_of_mem hf))
  rw [← List.map_map] at hfixes
  exact record_reads (by simp) <|
    .cons rfl (by decide) (field_reads _ (byte_reads r.severity _)) <|
    .cons rfl (by decide) (field_reads _ (word_reads r.code _)) <|
    .cons rfl (by decide) (field_reads _ (text_reads h.message _)) <|
    .cons rfl (by decide) (field_reads _ (long_reads r.start _)) <|
    .cons rfl (by decide) (field_reads _ (long_reads r.stop _)) <|
    .cons rfl (by decide) (field_reads _ hnotes) <|
    .cons rfl (by decide) (field_reads _ hfixes) (.nil _)

/-! ## Listings -/

/-- The draft of a listing that was read once. -/
def Draft.ofListing (l : Listing) : Draft :=
  ⟨l.schema, l.name, l.hash, ⟨l.tokens, []⟩,
    ⟨l.diagnostics.map DiagnosticDraft.ofRecord, []⟩⟩

theorem Sparse.encode_reads {l : Sparse} (h : l.toListing.Sized) :
    Reads Draft.reader l.encode {} (.ofListing l.toListing) := by
  have htokens := presentArray_reads (g := id) h.tokens fun t ht =>
    TokenRecord.encode_reads (h.token t ht)
  rw [List.map_id] at htokens
  have hlen : (l.diagnostics.getD []).length < sizeLimit := by
    rw [← List.length_map DiagnosticRecord.Sparse.toRecord]
    exact h.diagnostics
  have hdiags := presentArray_reads
    (g := DiagnosticDraft.ofRecord ∘ DiagnosticRecord.Sparse.toRecord) hlen fun d hd =>
      DiagnosticRecord.Sparse.encode_reads (h.diagnostic d.toRecord (List.mem_map_of_mem hd))
  rw [← List.map_map] at hdiags
  exact record_reads (by simp) <|
    .cons rfl (by decide) (field_reads _ (word_reads l.schema _)) <|
    .cons rfl (by decide) (field_reads _ (text_reads h.name _)) <|
    .cons rfl (by decide) (field_reads _ (block_reads (by decide) l.hash _)) <|
    .cons rfl (by decide) (field_reads _ htokens) <|
    .cons rfl (by decide) (field_reads _ hdiags) (.nil _)

theorem DiagnosticDraft.toRecord_ofRecord (r : DiagnosticRecord) : (ofRecord r).toRecord = r := by
  have hfixes : (r.fixes.map FixDraft.ofRecord).map FixDraft.toRecord = r.fixes := by
    rw [List.map_map]
    exact List.map_id r.fixes
  rw [toRecord, ofRecord]
  dsimp only
  rw [hfixes]

theorem Draft.toListing_ofListing (l : Listing) : (ofListing l).toListing = l := by
  have hid : DiagnosticDraft.toRecord ∘ DiagnosticDraft.ofRecord = id :=
    funext DiagnosticDraft.toRecord_ofRecord
  rw [toListing, ofListing]
  dsimp only
  rw [List.map_map, hid, List.map_id]

/-- **A listing of the current version is read back whole**, whatever follows it
and whichever of its lists are missing. -/
theorem Sparse.decode_encode {l : Sparse} (h : l.toListing.Sized)
    (hschema : l.schema = currentSchema) (rest : Bytes) :
    decode (l.encode ++ rest) = .ok l.toListing := by
  have hschema' : (Draft.ofListing l.toListing).schema = currentSchema := hschema
  rw [decode, encode_reads h rest]
  dsimp only
  rw [if_pos hschema', Draft.toListing_ofListing]

/-! ## Listings without missing lists -/

/-- The list, missing if it is empty. -/
def present {α : Type} (xs : List α) : Option (List α) := if xs.isEmpty then none else some xs

theorem getD_present {α : Type} (xs : List α) : (present xs).getD [] = xs := by
  cases xs <;> rfl

theorem presentArray_present {α : Type} (f : α → Bytes) (xs : List α) :
    presentArray f (present xs) = optionalArray f xs := by
  cases xs <;> rfl

theorem array_map {α β : Type} (f : β → Bytes) (g : α → β) (xs : List α) :
    array f (xs.map g) = array (fun x => f (g x)) xs := by
  rw [array, array, List.length_map, List.flatMap_map]

theorem optionalArray_map {α β : Type} (f : β → Bytes) (g : α → β) (xs : List α) :
    optionalArray f (xs.map g) = optionalArray (fun x => f (g x)) xs := by
  rw [optionalArray, optionalArray, array_map, List.isEmpty_map]

/-- The fix, without its edits if it has none. -/
def FixRecord.sparse (r : FixRecord) : FixRecord.Sparse := ⟨r.title, present r.edits⟩

def DiagnosticRecord.sparse (r : DiagnosticRecord) : DiagnosticRecord.Sparse :=
  ⟨r.severity, r.code, r.message, r.start, r.stop, present r.notes,
    present (r.fixes.map FixRecord.sparse)⟩

/-- The listing as it is written: its own lists are there even if they are empty. -/
def sparse (l : Listing) : Sparse :=
  ⟨l.schema, l.name, l.hash, some l.tokens, some (l.diagnostics.map DiagnosticRecord.sparse)⟩

theorem FixRecord.encode_sparse (r : FixRecord) : r.sparse.encode = r.encode := by
  rw [Sparse.encode, sparse, presentArray_present]
  rfl

theorem DiagnosticRecord.encode_sparse (r : DiagnosticRecord) : r.sparse.encode = r.encode := by
  rw [Sparse.encode, sparse, presentArray_present, presentArray_present, optionalArray_map,
    funext FixRecord.encode_sparse]
  rfl

theorem encode_sparse (l : Listing) : l.sparse.encode = l.encode := by
  rw [Sparse.encode, sparse]
  dsimp only [presentArray]
  rw [array_map, funext DiagnosticRecord.encode_sparse]
  rfl

theorem FixRecord.toRecord_sparse (r : FixRecord) : r.sparse.toRecord = r := by
  rw [Sparse.toRecord, sparse, getD_present]

theorem DiagnosticRecord.toRecord_sparse (r : DiagnosticRecord) : r.sparse.toRecord = r := by
  have hid : FixRecord.Sparse.toRecord ∘ FixRecord.sparse = id := funext FixRecord.toRecord_sparse
  rw [Sparse.toRecord, sparse, getD_present, getD_present, List.map_map, hid, List.map_id]

theorem toListing_sparse (l : Listing) : l.sparse.toListing = l := by
  have hid : DiagnosticRecord.Sparse.toRecord ∘ DiagnosticRecord.sparse = id :=
    funext DiagnosticRecord.toRecord_sparse
  rw [Sparse.toListing, sparse]
  dsimp only [Option.getD_some]
  rw [List.map_map, hid, List.map_id]

theorem decode_encode {l : Listing} (h : l.Sized) (hschema : l.schema = currentSchema)
    (rest : Bytes) : decode (l.encode ++ rest) = .ok l := by
  have hsized : l.sparse.toListing.Sized := by rwa [toListing_sparse]
  rw [← encode_sparse, Sparse.decode_encode hsized hschema, toListing_sparse]

/-! ## Scans

Records keep 32 bits of a number.  What they keep is enough as long as the
numbers are not larger. -/

end Listing

/-- The offsets of a span fit into a record. -/
structure Span.Recordable (s : Span) : Prop where
  start_lt : s.start < Pack.sizeLimit
  stop_lt : s.stop < Pack.sizeLimit

/-- A token can be put down in a record. -/
structure Token.Recordable (t : Token) : Prop where
  valid : t.kind.isValid = true
  line_lt : t.coord.line < Pack.sizeLimit
  column_lt : t.coord.column < Pack.sizeLimit

/-- A finding can be put down in a record. -/
structure Diagnostic.Recordable (d : Diagnostic) : Prop where
  primary : d.primary.Recordable
  note : ∀ n ∈ d.notes, n.span.Recordable
  edit : ∀ f ∈ d.fixes, ∀ e ∈ f.edits, e.span.Recordable

instance (s : Span) : Decidable s.Recordable :=
  decidable_of_iff (s.start < Pack.sizeLimit ∧ s.stop < Pack.sizeLimit)
    ⟨fun ⟨h₁, h₂⟩ => ⟨h₁, h₂⟩, fun ⟨h₁, h₂⟩ => ⟨h₁, h₂⟩⟩

instance (t : Token) : Decidable t.Recordable :=
  decidable_of_iff (t.kind.isValid = true ∧ t.coord.line < Pack.sizeLimit ∧
      t.coord.column < Pack.sizeLimit)
    ⟨fun ⟨h₁, h₂, h₃⟩ => ⟨h₁, h₂, h₃⟩, fun ⟨h₁, h₂, h₃⟩ => ⟨h₁, h₂, h₃⟩⟩

instance (d : Diagnostic) : Decidable d.Recordable :=
  decidable_of_iff (d.primary.Recordable ∧ (∀ n ∈ d.notes, n.span.Recordable) ∧
      ∀ f ∈ d.fixes, ∀ e ∈ f.edits, e.span.Recordable)
    ⟨fun ⟨h₁, h₂, h₃⟩ => ⟨h₁, h₂, h₃⟩, fun ⟨h₁, h₂, h₃⟩ => ⟨h₁, h₂, h₃⟩⟩

theorem Kind.ofCode_code {k : Kind} (h : k.isValid = true) : ofCode k.code = k := by
  cases k with
  | unknown code => cases h
  | punctuation => rfl
  | keyword => rfl
  | identifier => rfl
  | intLiteral => rfl
  | stringLiteral => rfl

namespace Listing

theorem toNat_toUInt32 {n : Nat} (h : n < Pack.sizeLimit) : n.toUInt32.toNat = n := by
  rw [Nat.toUInt32, UInt32.toNat_ofNat']
  exact Nat.mod_eq_of_lt h

theorem TokenRecord.toToken_ofToken {t : Token} (h : t.Recordable) : (ofToken t).toToken = t := by
  rw [toToken, ofToken]
  dsimp only
  rw [Kind.ofCode_code h.valid, toNat_toUInt32 h.line_lt, toNat_toUInt32 h.column_lt]

theorem tokensFrom_ofToken : ∀ (index : Nat) {ts : List Token}, (∀ t ∈ ts, t.Recordable) →
    tokensFrom index (ts.map TokenRecord.ofToken) = .ok ts
  | _, [], _ => rfl
  | index, t :: ts, h => by
      have ht := h t List.mem_cons_self
      have hts := tokensFrom_ofToken (index + 1) fun t' ht' =>
        h t' (List.mem_cons_of_mem t ht')
      have hvalid : (Kind.ofCode (TokenRecord.ofToken t).kind).isValid = true := by
        rw [TokenRecord.ofToken, Kind.ofCode_code ht.valid, ht.valid]
      rw [List.map_cons, tokensFrom, if_pos hvalid, hts, TokenRecord.toToken_ofToken ht]
      rfl

theorem toSpan_ofSpan {s : Span} (h : s.Recordable) (file : Nat) :
    (⟨file, s.start.toUInt32.toNat, s.stop.toUInt32.toNat⟩ : Span) = { s with file } := by
  rw [toNat_toUInt32 h.start_lt, toNat_toUInt32 h.stop_lt]

theorem NoteRecord.toNote_ofNote {n : Note} (h : n.span.Recordable) (file : Nat) :
    (ofNote n).toNote file = { n with span := { n.span with file } } := by
  rw [toNote, ofNote, toSpan_ofSpan h]

theorem EditRecord.toEdit_ofEdit {e : Edit} (h : e.span.Recordable) (file : Nat) :
    (ofEdit e).toEdit file = { e with span := { e.span with file } } := by
  rw [toEdit, ofEdit, toSpan_ofSpan h]

theorem FixRecord.toFix_ofFix {f : Fix} (h : ∀ e ∈ f.edits, e.span.Recordable) (file : Nat) :
    (ofFix f).toFix file =
      { f with edits := f.edits.map fun e => { e with span := { e.span with file } } } := by
  rw [toFix, ofFix, List.map_map]
  exact congrArg _ (List.map_congr_left fun e he => EditRecord.toEdit_ofEdit (h e he) file)

/-- What a record keeps of a finding is all but its buffer. -/
theorem DiagnosticRecord.toDiagnostic_ofDiagnostic {d : Diagnostic} (h : d.Recordable)
    (file : Nat) : (ofDiagnostic d).toDiagnostic file = d.inFile file := by
  rw [toDiagnostic, ofDiagnostic, Diagnostic.inFile, toSpan_ofSpan h.primary, List.map_map,
    List.map_map]
  have hnotes := List.map_congr_left fun n hn => NoteRecord.toNote_ofNote (h.note n hn) file
  have hfixes := List.map_congr_left fun f hf => FixRecord.toFix_ofFix (h.edit f hf) file
  exact congr (congrArg _ hnotes) hfixes

/-- The listing of a scan gives back its tokens. -/
theorem tokenList_ofScan (f : File) {ts : List Token} (h : ∀ t ∈ ts, t.Recordable)
    (ds : List Diagnostic) : (ofScan f ts ds).tokenList = .ok ts :=
  tokensFrom_ofToken 0 h

/-- The listing of a scan gives back its findings, bound to a buffer. -/
theorem diagnosticList_ofScan (f : File) (ts : List Token) {ds : List Diagnostic}
    (h : ∀ d ∈ ds, d.Recordable) (file : Nat) :
    (ofScan f ts ds).diagnosticList file = ds.map (·.inFile file) := by
  rw [diagnosticList, ofScan, List.map_map]
  exact List.map_congr_left fun d hd =>
    DiagnosticRecord.toDiagnostic_ofDiagnostic (h d hd) file

/-- **Nothing is lost on the way through bytes**, whatever follows them: a listing
of the current version comes back whole, also if lists of it are missing, and
the listing of tokens and findings gives them back, the findings bound to any
buffer. -/
theorem survives_writing (rest : Bytes) :
    (∀ l : Listing, l.Sized → l.schema = currentSchema → decode (l.encode ++ rest) = .ok l) ∧
      (∀ l : Sparse, l.toListing.Sized → l.schema = currentSchema →
        decode (l.encode ++ rest) = .ok l.toListing) ∧
      ∀ (f : File) (ts : List Token) (ds : List Diagnostic),
        (∀ t ∈ ts, t.Recordable) → (∀ d ∈ ds, d.Recordable) → (ofScan f ts ds).Sized →
        ∃ l, decode ((ofScan f ts ds).encode ++ rest) = .ok l ∧ l.tokenList = .ok ts ∧
          ∀ file, l.diagnosticList file = ds.map (·.inFile file) := by
  refine ⟨fun l hl hschema => decode_encode hl hschema rest,
    fun l hl hschema => l.decode_encode hl hschema rest, ?_⟩
  intro f ts ds hts hds hsized
  refine ⟨ofScan f ts ds, decode_encode hsized rfl rest, ?_, ?_⟩
  · exact tokenList_ofScan f hts ds
  · exact diagnosticList_ofScan f ts hds

/-- A finding with an empty list of notes, and with a fix whose edits are missing
beside one that has an edit, in a listing without tokens; and a token and a
finding with a note and a fix. -/
theorem survives_writing_sparse :
    let finding : DiagnosticRecord.Sparse :=
      ⟨2, 1002, [0xFF, 0x00], 3, 5, some [], some [⟨[], none⟩, ⟨[0xC0], some [⟨5, 5, [0x22]⟩]⟩]⟩
    let l : Sparse := ⟨currentSchema, [0x61], Vector.replicate 32 0xC1, none, some [finding]⟩
    let f : File := ⟨7, [0x61], [0x78, 0x20, 0x22], 0⟩
    let ts : List Token := [⟨.identifier, [0x78], ⟨1, 1⟩⟩]
    let ds : List Diagnostic := [⟨.error, .unexpectedLineEnd, [0xFF], ⟨7, 2, 3⟩,
      [⟨⟨7, 0, 1⟩, [0x6E]⟩], [⟨[0x66], [⟨⟨7, 3, 3⟩, [0x22]⟩]⟩]⟩]
    (l.toListing.Sized ∧ decode (l.encode ++ [0xC1]) = .ok l.toListing) ∧
      (∀ t ∈ ts, t.Recordable) ∧ (∀ d ∈ ds, d.Recordable) ∧ (ofScan f ts ds).Sized ∧
      decode ((ofScan f ts ds).encode ++ [0xC1]) = .ok (ofScan f ts ds) ∧
      ∃ l, decode ((ofScan f ts ds).encode ++ [0xC1]) = .ok l ∧ l.tokenList = .ok ts ∧
        ∀ file, l.diagnosticList file = ds.map (·.inFile file) := by
  intro finding l f ts ds
  have hl : l.toListing.Sized := by decide
  have hts : ∀ t ∈ ts, t.Recordable := by decide
  have hds : ∀ d ∈ ds, d.Recordable := by decide
  have hsized : (ofScan f ts ds).Sized := by decide
  obtain ⟨hwhole, hsparse, hscan⟩ := survives_writing [0xC1]
  exact ⟨⟨hl, hsparse l hl rfl⟩, hts, hds, hsized, hwhole _ hsized rfl,
    hscan f ts ds hts hds hsized⟩

end Listing

end LineLexer
