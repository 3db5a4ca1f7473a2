/-
# `Proofs.Scan.Rebinding` — a buffer by another number

The number of a buffer goes into the spans of its errors and nowhere else.  So
two buffers of the same content have the same tokens and the same counts, and
their findings differ by their buffer only (`File.findings_eq_map`).
-/
import LineLexer.Proofs.Scan.Delivery
import LineLexer.Proofs.Scan.LongestMatch

namespace LineLexer

/-- The span in another buffer. -/
abbrev Span.rebind (file : Nat) (s : Span) : Span := { s with file }

/-- The fix with its edits in another buffer. -/
def Fix.rebind (file : Nat) (f : Fix) : Fix :=
  { f with edits := f.edits.map fun e => { e with span := e.span.rebind file } }

/-- The error with its spans in another buffer. -/
def LexError.rebind (file : Nat) (e : LexError) : LexError :=
  { e with span := e.span.rebind file, fixes := e.fixes.map (Fix.rebind file) }

/-- The result with its spans in another buffer. -/
def Result.rebind (file : Nat) : Result → Result
  | token t => token t
  | error e => error (e.rebind file)

/-- The line, as one of another buffer. -/
def Line.rebind (file : Nat) (ln : Line) : Line := { ln with file }

theorem LexError.diagnostic_rebind (file : Nat) (e : LexError) :
    (e.rebind file).diagnostic = e.diagnostic.inFile file := rfl

theorem Line.offers_rebind (ln : Line) (file : Nat) (here : Mark) (g : Glyph) :
    (ln.rebind file).offers here g = (ln.offers here g).map (Fix.rebind file) := by
  rw [offers, offers, List.map_map]
  rfl

/-- A result follows its line into another buffer. -/
theorem Segment.result?_rebind (s : Segment) (ln : Line) (file : Nat) (here : Mark) :
    s.result? (ln.rebind file) here = (s.result? ln here).map (Result.rebind file) := by
  cases s with
  | orphan g next =>
      cases next with
      | none =>
          rw [result?, result?, Line.offers_rebind]
          rfl
      | some n =>
          rw [result?, result?, Line.offers_rebind]
          rfl
  | blank g => rfl
  | string quote body close => rfl
  | openString quote body => rfl
  | run sort gs => rfl
  | brokenRun sort gs bad => rfl
  | symbol sym => rfl
  | stray g => rfl

namespace Line

theorem resultsFrom_rebind (ln : Line) (file : Nat) : ∀ (ss : List Segment) (here : Mark),
    (ln.rebind file).resultsFrom here ss = (ln.resultsFrom here ss).map (Result.rebind file)
  | [], _ => rfl
  | s :: ss, here => by
      rw [resultsFrom, resultsFrom, List.map_append, ln.resultsFrom_rebind file ss,
        s.result?_rebind]
      cases s.result? ln here <;> rfl

theorem scan_rebind (ln : Line) (file : Nat) :
    (ln.rebind file).scan = ln.scan.map (Result.rebind file) := by
  rw [scan_eq_resultsFrom, scan_eq_resultsFrom]
  exact ln.resultsFrom_rebind file _ _

end Line

namespace File

theorem numberLines_rebind (file file' : Nat) : ∀ (ts : List Bytes) (num start : Nat),
    numberLines file' num start ts = (numberLines file num start ts).map (Line.rebind file')
  | [], _, _ => rfl
  | t :: ts, num, start => by
      rw [numberLines, numberLines, List.map_cons, ← numberLines_rebind file file' ts]
      rfl

variable {f g : File}

/-- Buffers of the same content have the same results, up to the buffer. -/
theorem results_eq_map (h : f.content = g.content) :
    f.results = g.results.map (Result.rebind f.id) := by
  rw [results, results, lines, lines, h, numberLines_rebind g.id f.id, List.flatMap_map,
    List.map_flatMap]
  exact congrArg (List.flatMap · _) (funext fun ln => ln.scan_rebind f.id)

theorem tokens_eq (h : f.content = g.content) : f.tokens = g.tokens := by
  have htoken : (fun r : Result => (r.rebind f.id).token?) = Result.token? := by
    funext r
    cases r <;> rfl
  rw [tokens, tokens, results_eq_map h, List.filterMap_map]
  exact congrArg (List.filterMap · _) htoken

theorem errors_eq_map (h : f.content = g.content) :
    f.errors = g.errors.map (LexError.rebind f.id) := by
  have herror : (fun r : Result => (r.rebind f.id).error?)
      = fun r => r.error?.map (LexError.rebind f.id) := by
    funext r
    cases r <;> rfl
  rw [errors, errors, results_eq_map h, List.filterMap_map, List.map_filterMap]
  exact congrArg (List.filterMap · _) herror

/-- The findings differ by the buffer only. -/
theorem findings_eq_map (h : f.content = g.content) :
    f.findings = g.findings.map (·.inFile f.id) := by
  rw [findings, findings, errors_eq_map h, List.map_map, List.map_map]
  exact List.map_congr_left fun e _ => e.diagnostic_rebind f.id

end File

end LineLexer
