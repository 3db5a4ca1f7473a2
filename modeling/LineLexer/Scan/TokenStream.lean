/-
# `Scan.TokenStream` — tokens with one of lookahead

A stream shows only tokens, one of them ahead of time, and sets the errors
it comes across aside.  A token can be taken as it is, only if it fits, or
on pain of a mismatch.  A call gives no answer where its scanner gives none.
-/
import LineLexer.Scan.Scanner

namespace LineLexer

/-- The tokens of a scanner. -/
structure TokenStream where
  scanner : Scanner
  /-- The token looked at but not taken. -/
  look : Option Token
  /-- The errors set aside so far. -/
  errors : List LexError
deriving Repr

/-- A token that does not fit, or the end where one was expected. -/
structure Mismatch where
  want : Kind
  /-- The wanted lexeme; empty if any will do. -/
  lexeme : Bytes
  /-- What came instead; none at the end. -/
  got : Option Token
deriving DecidableEq, Repr

/-- The wording of a mismatch. -/
def Mismatch.message (m : Mismatch) : Bytes :=
  utf8 "expected " ++ m.want.name
    ++ (if m.lexeme.isEmpty then [] else utf8 " " ++ Text.quoted m.lexeme)
    ++ utf8 ", got " ++ (match m.got with
      | none => utf8 "end of input"
      | some t => t.text)

/-- Pulls results until one is a token; the errors in front of it come along. -/
def Scanner.toToken (scanner : Scanner) : Option (List LexError × Option Token × Scanner) := do
  match ← scanner.next with
  | (none, scanner, _) => return ([], none, scanner)
  | (some (.token t), scanner, _) => return ([], some t, scanner)
  | (some (.error e), scanner, _) =>
      let (errors, look, scanner) ← scanner |>.toToken
      return (e :: errors, look, scanner)
partial_fixpoint

namespace TokenStream

/-- Looks at the next token, unless one is being looked at already. -/
def fill (s : TokenStream) : Option TokenStream :=
  match s.look with
  | some _ => some s
  | none => do
      let (errors, look, scanner) ← s.scanner.toToken
      return ⟨scanner, look, s.errors ++ errors⟩

/-- The next token, not taken. -/
def peek (s : TokenStream) : Option (Option Token × TokenStream) := do
  let s ← s.fill
  return (s.look, s)

/-- Takes the next token. -/
def consume (s : TokenStream) : Option (Option Token × TokenStream) := do
  let s ← s.fill
  return (s.look, { s with look := none })

/-- Takes the next token if it has the wanted kind and, unless `lexeme` is
empty, the wanted lexeme. -/
def expect (s : TokenStream) (kind : Kind) (lexeme : Bytes) :
    Option (Except Mismatch Token × TokenStream) := do
  let s ← s.fill
  match s.look with
  | none => return (.error ⟨kind, lexeme, none⟩, s)
  | some t =>
      if t.fits kind lexeme then return (.ok t, { s with look := none })
      else return (.error ⟨kind, lexeme, some t⟩, s)

/-- Takes the next token if it fits. -/
def accept (s : TokenStream) (kind : Kind) (lexeme : Bytes) :
    Option (Option Token × TokenStream) := do
  match ← s.expect kind lexeme with
  | (.ok t, s) => return (some t, s)
  | (.error _, s) => return (none, s)

/-- Whether no token is left. -/
def atEnd (s : TokenStream) : Option (Bool × TokenStream) := do
  let s ← s.fill
  return (s.look.isNone, s)

end TokenStream

end LineLexer
