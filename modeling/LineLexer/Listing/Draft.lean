/-
# `Listing.Draft` — a listing while it is read

Fields of a listing may be given more than once, so its lists are kept in
slots until all of them have been read.  Only then does a draft become a
listing: what is left behind the end of a list is dropped.
-/
import LineLexer.Listing.Basic
import LineLexer.Pack.Read

namespace LineLexer.Listing

/-- A fix while it is read. -/
structure FixDraft where
  title : Bytes := []
  edits : Pack.Slots EditRecord := {}
deriving DecidableEq, Repr

/-- A finding while it is read. -/
structure DiagnosticDraft where
  severity : UInt8 := 0
  code : UInt16 := 0
  message : Bytes := []
  start : UInt32 := 0
  stop : UInt32 := 0
  notes : Pack.Slots NoteRecord := {}
  fixes : Pack.Slots FixDraft := {}
deriving DecidableEq, Repr

/-- A listing while it is read. -/
structure Draft where
  schema : UInt16 := 0
  name : Bytes := []
  hash : Vector UInt8 32 := Vector.replicate 32 0
  tokens : Pack.Slots TokenRecord := {}
  diagnostics : Pack.Slots DiagnosticDraft := {}
deriving DecidableEq, Repr

/-! ## What was read -/

def FixDraft.toRecord (d : FixDraft) : FixRecord := ⟨d.title, d.edits.items⟩

def DiagnosticDraft.toRecord (d : DiagnosticDraft) : DiagnosticRecord :=
  ⟨d.severity, d.code, d.message, d.start, d.stop, d.notes.items,
    d.fixes.items.map FixDraft.toRecord⟩

def Draft.toListing (d : Draft) : Listing :=
  ⟨d.schema, d.name, d.hash, d.tokens.items, d.diagnostics.items.map DiagnosticDraft.toRecord⟩

/-! ## Reading -/

open Pack

def TokenRecord.reader : Reader TokenRecord := Reader.record {} [
  Reader.field "Kind" TokenRecord.kind (fun r v => { r with kind := v }) Reader.byte,
  Reader.field "Lexeme" TokenRecord.lexeme (fun r v => { r with lexeme := v }) Reader.text,
  Reader.field "Line" TokenRecord.line (fun r v => { r with line := v }) Reader.long,
  Reader.field "Column" TokenRecord.column (fun r v => { r with column := v }) Reader.long]

def NoteRecord.reader : Reader NoteRecord := Reader.record {} [
  Reader.field "Start" NoteRecord.start (fun r v => { r with start := v }) Reader.long,
  Reader.field "End" NoteRecord.stop (fun r v => { r with stop := v }) Reader.long,
  Reader.field "Msg" NoteRecord.message (fun r v => { r with message := v }) Reader.text]

def EditRecord.reader : Reader EditRecord := Reader.record {} [
  Reader.field "Start" EditRecord.start (fun r v => { r with start := v }) Reader.long,
  Reader.field "End" EditRecord.stop (fun r v => { r with stop := v }) Reader.long,
  Reader.field "NewText" EditRecord.text (fun r v => { r with text := v }) Reader.text]

def FixDraft.reader : Reader FixDraft := Reader.record {} [
  Reader.field "Title" FixDraft.title (fun d v => { d with title := v }) Reader.text,
  Reader.field "Edits" FixDraft.edits (fun d v => { d with edits := v })
    (Reader.list {} EditRecord.reader)]

def DiagnosticDraft.reader : Reader DiagnosticDraft := Reader.record {} [
  Reader.field "Severity" DiagnosticDraft.severity (fun d v => { d with severity := v })
    Reader.byte,
  Reader.field "Code" DiagnosticDraft.code (fun d v => { d with code := v }) Reader.word,
  Reader.field "Message" DiagnosticDraft.message (fun d v => { d with message := v }) Reader.text,
  Reader.field "Start" DiagnosticDraft.start (fun d v => { d with start := v }) Reader.long,
  Reader.field "End" DiagnosticDraft.stop (fun d v => { d with stop := v }) Reader.long,
  Reader.field "Notes" DiagnosticDraft.notes (fun d v => { d with notes := v })
    (Reader.list {} NoteRecord.reader),
  Reader.field "Fixes" DiagnosticDraft.fixes (fun d v => { d with fixes := v })
    (Reader.list {} FixDraft.reader)]

def Draft.reader : Reader Draft := Reader.record {} [
  Reader.field "Schema" Draft.schema (fun d v => { d with schema := v }) Reader.word,
  Reader.field "Name" Draft.name (fun d v => { d with name := v }) Reader.text,
  Reader.field "Hash" Draft.hash (fun d v => { d with hash := v }) Reader.block,
  Reader.field "Tokens" Draft.tokens (fun d v => { d with tokens := v })
    (Reader.list {} TokenRecord.reader),
  Reader.field "Diagnostics" Draft.diagnostics (fun d v => { d with diagnostics := v })
    (Reader.list {} DiagnosticDraft.reader)]

end LineLexer.Listing
