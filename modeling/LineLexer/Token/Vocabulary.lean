/-
# `Token.Vocabulary` — reserved spellings

A vocabulary is a list of distinct, non-empty spellings in the order of
their declaration, with the same spellings as a set, an index by first
character and the length of the longest spelling.  Two vocabularies are
fixed: the keywords and the symbols.  The index is keyed by code point, so
that a number that no character has simply starts no entry.
-/
import LineLexer.Text.Glyph
import LineLexer.Token.Kind

namespace LineLexer

/-- A set of reserved spellings. -/
structure Vocabulary where
  /-- The distinct entries in order of declaration. -/
  entries : List Bytes
  /-- The entries as a set; their order means nothing. -/
  members : List Bytes
  /-- The entries by the code point of their first character. -/
  byFirst : List (Int × List Bytes)
  /-- The number of bytes of the longest entry. -/
  maxLength : Nat
deriving DecidableEq, Repr

namespace Vocabulary

/-- The vocabulary without entries. -/
def empty : Vocabulary := ⟨[], [], [], 0⟩

/-- The code point of the first character of an entry; U+FFFD if the entry
does not start with a well-formed one. -/
def firstCode : Bytes → Int
  | [] => replacement.toNat
  | b :: s => (Glyph.first b s).char.toNat

/-- The index with `entry` added at the end of the entries under `code`. -/
def addUnder (code : Int) (entry : Bytes) : List (Int × List Bytes) → List (Int × List Bytes)
  | [] => [(code, [entry])]
  | (c, es) :: rest =>
      if c = code then (c, es ++ [entry]) :: rest else (c, es) :: addUnder code entry rest

/-- Whether a text is one of the entries. -/
def contains (v : Vocabulary) (s : Bytes) : Bool := v.members.contains s

/-- The vocabulary with one more entry; an entry it has already adds nothing. -/
def insert (v : Vocabulary) (entry : Bytes) : Vocabulary :=
  if v.contains entry then v
  else
    ⟨v.entries ++ [entry], entry :: v.members, addUnder (firstCode entry) entry v.byFirst,
      max v.maxLength entry.length⟩

/-- The vocabulary with one more entry; none if the entry is empty. -/
def insert? (v : Vocabulary) (entry : Bytes) : Option Vocabulary :=
  if entry.isEmpty then none else some (v.insert entry)

/-- The vocabulary of a list of spellings, which are taken one after the other
up to the first that is empty; if one is, there is none. -/
def ofList? (entries : List Bytes) : Option Vocabulary := entries.foldlM insert? empty

/-- The complaint about an empty spelling. -/
def emptyEntryMessage : Bytes := utf8 "token: empty vocabulary entry"

/-- The entries that start with the character of the given code point, in
order of declaration. -/
def startingWith (v : Vocabulary) (code : Int) : List Bytes :=
  (v.byFirst.lookup code).getD []

/-- Whether some entry starts with the character of the given code point. -/
def startsAny (v : Vocabulary) (code : Int) : Bool := !(v.startingWith code).isEmpty

end Vocabulary

/-- The keywords. -/
def keywords : Vocabulary :=
  ([ "and", "or", "not",
     "true", "false",
     "length", "call", "print", "return",
     "var", "func",
     "while", "if", "else",
     "bool", "int",
     "string" ].map utf8).foldl .insert .empty

/-- The operators and delimiters. -/
def symbols : Vocabulary :=
  ([ ":", ",", "&", "[", "]", "\x7b", "\x7d", "(", ")",
     "*", "/", "%", "+", "-", "=",
     "|",
     "<=", "<", ">", ">=", "==", "!=",
     "<<", ">>", "~" ].map utf8).foldl .insert .empty

/-- Whether a word is a keyword. -/
def isKeyword (word : Bytes) : Bool := keywords.contains word

/-- The kind of a word: keyword, or else identifier. -/
def Kind.ofWord (word : Bytes) : Kind := if isKeyword word then .keyword else .identifier

end LineLexer
