/-
# `Session.Render` — a result as text

The list of tokens, and below it the findings, if there are any.
-/
import LineLexer.Report.Tokens
import LineLexer.Session.Tokenize

namespace LineLexer.Session

/-- Why a result cannot be rendered. -/
inductive RenderError
  /-- A token has a kind without a name. -/
  | tokens (file : Bytes)
  /-- A finding cannot be shown: it has a note or an edit in an unknown buffer, or
  a line with tabs too wide for it. -/
  | findings
deriving DecidableEq, Repr

def RenderError.message : RenderError → Bytes
  | tokens file => utf8 "render " ++ file ++ utf8 ": tokens"
  | findings => utf8 "findings cannot be shown"

/-- A result as text. -/
def render (fs : FileSet) (r : Outcome) (o : RenderOptions) : Except RenderError Bytes :=
  let listing := match o.listing with
    | .json => Report.tokensStructured? r.tokens
    | .pretty => some (Report.tokensPretty o.color r.tokens)
  match listing with
  | none => .error (.tokens r.file.name)
  | some listing =>
      match Report.pretty? fs o.pretty r.bag.items.toList with
      | none => .error .findings
      | some findings => .ok (listing ++ findings)

end LineLexer.Session
