/-
# `Token.Kind` — the five kinds of token

Punctuation, keywords, identifiers, integer literals and string literals.
Token lists may also come from outside, with a number that names no kind;
such a kind can be carried and shown, but has no spelling that reads back.
-/
import LineLexer.Text.Quoted

namespace LineLexer

/-- What a token is. -/
inductive Kind
  | punctuation
  | keyword
  | identifier
  | intLiteral
  | stringLiteral
  /-- A number that names no kind. -/
  | unknown (code : UInt8)
deriving DecidableEq, Repr

namespace Kind

/-- The kinds that have names, in the order of their numbers. -/
def named : List (Kind × Bytes) := [
  (punctuation, utf8 "Punctuation"),
  (keyword, utf8 "Keyword"),
  (identifier, utf8 "Id"),
  (intLiteral, utf8 "IntLiteral"),
  (stringLiteral, utf8 "StringLiteral")]

/-- The kind with a given number. -/
def ofCode (code : UInt8) : Kind :=
  match code with
  | 0 => punctuation
  | 1 => keyword
  | 2 => identifier
  | 3 => intLiteral
  | 4 => stringLiteral
  | code => unknown code

/-- The number of a kind. -/
def code : Kind → UInt8
  | punctuation => 0
  | keyword => 1
  | identifier => 2
  | intLiteral => 3
  | stringLiteral => 4
  | unknown code => code

/-- Whether the kind is one of the five. -/
def isValid : Kind → Bool
  | unknown _ => false
  | _ => true

/-- How a kind is shown. -/
def name : Kind → Bytes
  | unknown code => utf8 "Kind(" ++ Bytes.decimal code.toNat ++ utf8 ")"
  | k => (named.lookup k).getD []

/-- Why a kind has no spelling, or a spelling no kind. -/
inductive Error
  | noKind (name : Bytes)
  | noName (code : UInt8)
deriving DecidableEq, Repr

/-- The wording of an error. -/
def Error.message : Error → Bytes
  | noKind name => utf8 "unknown token kind " ++ Text.quoted name
  | noName code => utf8 "cannot marshal invalid token kind " ++ Bytes.decimal code.toNat

/-- The spelling of a kind in a written listing. -/
def spelling : Kind → Except Error Bytes
  | unknown code => .error (.noName code)
  | k => .ok k.name

/-- The kind with a given spelling. -/
def ofSpelling (s : Bytes) : Except Error Kind :=
  match named.find? fun (_, name) => name = s with
  | some (k, _) => .ok k
  | none => .error (.noKind s)

end Kind

end LineLexer
