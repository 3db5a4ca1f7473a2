/-
# `Session.Batch` — several buffers in one call

The buffers are tokenized one after another, in the order given.  The first
failure cancels what comes after it and is the failure of the whole batch;
the results up to it are kept.
-/
import LineLexer.Session.Tokenize

namespace LineLexer.Session

/-- The results of a batch by position, and the first failure. -/
structure BatchResult where
  results : List (Option Outcome)
  failure : Option Failure

/-- Tokenizes buffers one after another; `failure` is the first failure so
far. -/
def batchFrom (fs : FileSet) (o : Options) (failure : Option Failure) (s : State) (c : Call) :
    List Nat → State × Call × BatchResult
  | [] => (s, c, ⟨[], failure⟩)
  | id :: ids =>
      if failure.isSome || c.cancelled then
        let (s, c, rest) := batchFrom fs o (some (failure.getD .cancelled)) s c ids
        (s, c, { rest with results := none :: rest.results })
      else
        match tokenize fs id o s c with
        | (s, c, .ok r) =>
            let (s, c, rest) := batchFrom fs o none s c ids
            (s, c, { rest with results := some r :: rest.results })
        | (s, c, .error e) =>
            let (s, c, rest) := batchFrom fs o (some e) s c ids
            (s, c, { rest with results := none :: rest.results })

/-- Tokenizes several buffers inside a span of their own; no buffers leave no
trace. -/
def tokenizeAll (fs : FileSet) (ids : List Nat) (o : Options) (s : State) (c : Call) :
    State × Call × BatchResult :=
  if ids.isEmpty then (s, c, ⟨[], none⟩)
  else
    withinSpan s (traced c o) (utf8 "tokenize-all") (utf8 "files") (Bytes.decimal ids.length)
      fun _ s c => batchFrom fs o none s c ids

end LineLexer.Session
