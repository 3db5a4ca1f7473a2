/-
# `Report.Tokens` — lists of tokens

For people, one token a line, with its number and the kind in its colour;
for programs, as JSON.
-/
import LineLexer.Report.Color
import LineLexer.Text.Json
import LineLexer.Token.Basic

namespace LineLexer.Report

/-- How the name of a kind looks. -/
def kindStyle : Kind → Style
  | .punctuation => [.white]
  | .keyword => [.magenta, .bold]
  | .identifier => [.cyan]
  | .intLiteral => [.yellow]
  | .stringLiteral => [.green]
  | .unknown _ => []

/-- The line of the `n`-th token. -/
def tokenLine (color : Bool) (n : Nat) (t : Token) : Bytes :=
  Bytes.padLeft 3 0x20 (Bytes.decimal n) ++ utf8 ": "
    ++ paint color (kindStyle t.kind) (t.kind.name.padRight 13) ++ utf8 " "
    ++ Text.quoted t.lexeme ++ utf8 " at " ++ t.coord.text ++ utf8 "\n"

/-- Tokens for people. -/
def tokensPretty (color : Bool) (ts : List Token) : Bytes :=
  ts.zipIdx.flatMap fun (t, i) => tokenLine color (i + 1) t

/-- A token for programs; none if its kind has no name. -/
def tokenJson? (t : Token) : Option Json :=
  match t.kind.spelling with
  | .error _ => none
  | .ok kind => some (.obj [Json.field "kind" (.str kind), Json.field "lexeme" (.str t.lexeme),
      Json.field "coord" (.obj [Json.field "line" (.nat t.coord.line),
        Json.field "column" (.nat t.coord.column)])])

/-- Tokens for programs; none if a kind has no name. -/
def tokensStructured? (ts : List Token) : Option Bytes :=
  (ts.mapM tokenJson?).map fun items => (Json.arr items).indented

end LineLexer.Report
