/-
# `Toml.Syntax` — a settings text as a list of statements

A settings text is a list of statements, one per line: a table header, a
header of one more table in an array, or a key with its value.  This file
reads the text; what the statements mean together is said in
`Toml.Document`.
-/
import LineLexer.Toml.Number

namespace LineLexer.Toml

/-- A key: its parts, which a dot separates. -/
abbrev Key := List Bytes

/-- A value as it is written. -/
inductive Value
  | string (s : Bytes)
  | integer (n : Int)
  | boolean (b : Bool)
  | float
  | dateTime
  | array (items : List Value)
  | inlineTable (fields : List (Key × Value))

/-- One statement. -/
inductive Statement
  | table (key : Key)
  | arrayTable (key : Key)
  | assign (key : Key) (value : Value)

/-! ## Space -/

def skipBlanks (cs : List Char) : List Char := cs.dropWhile isBlank

def skipComment (cs : List Char) : List Char := cs.dropWhile fun c => !isBreak c

/-- Skips blanks, line breaks and comments; `inComment` says whether a comment
has begun. -/
def skipFiller (inComment : Bool) : List Char → List Char
  | [] => []
  | c :: cs =>
      if inComment then skipFiller (!isBreak c) cs
      else if isBlank c || isBreak c then skipFiller false cs
      else if c = '#' then skipFiller true cs
      else c :: cs

/-- The rest after the end of a line, which may have a comment. -/
def lineEnd? (cs : List Char) : Option (List Char) :=
  match skipBlanks cs with
  | [] => some []
  | c :: cs => if c = '#' then some (skipComment cs) else if isBreak c then some cs else none

/-! ## Keys -/

/-- Whether a character may stand in a key without quotes. -/
def isBareChar (c : Char) : Bool := c.isAlphanum || c = '_' || c = '-'

/-- One part of a key. -/
def keyPart? (cs : List Char) : Option (Bytes × List Char) :=
  match cs with
  | '"' :: _ | '\'' :: _ => shortString? cs
  | cs =>
      let name := cs.takeWhile isBareChar
      if name.isEmpty then none else some (verbatim name, cs.drop name.length)

/-- A key of at most `n` parts, and the rest after the blanks behind it. -/
def key? : Nat → List Char → Option (Key × List Char)
  | 0, _ => none
  | n + 1, cs => do
      let (part, cs) ← keyPart? (skipBlanks cs)
      match skipBlanks cs with
      | '.' :: cs => do
          let (parts, cs) ← key? n cs
          return (part :: parts, cs)
      | cs => return ([part], cs)

/-! ## Values -/

/-- The characters that can go on with a date. -/
def isDateChar (c : Char) : Bool := c.isDigit || "-:Tt .Zz+".contains c

/-- The characters that can go on with a float. -/
def isFloatChar (c : Char) : Bool := c.isDigit || "_.-+eE".contains c

/-- The rest of a text behind a beginning that it has. -/
def behind? (start : String) (cs : List Char) : Option (List Char) :=
  if start.toList.isPrefixOf cs then some (cs.drop start.length) else none

/-- A decimal number: a float if a point or an exponent follows the digits. -/
def decimal? (cs : List Char) : Option (Value × List Char) :=
  let digits := (unsigned cs).takeWhile fun c => c.isDigit || c = '_'
  let numeral := cs.take (signSize cs + digits.length)
  let rest := cs.drop numeral.length
  match rest with
  | '.' :: _ | 'e' :: _ | 'E' :: _ =>
      let tail := rest.takeWhile isFloatChar
      if isFloat (numeral ++ tail) then some (.float, rest.drop tail.length) else none
  | rest => (integer? numeral).map fun n => (.integer n, rest)

/-- A number with a base mark, of which `isDigit` are the digits. -/
def based? (isDigit : Char → Bool) (cs : List Char) : Option (Value × List Char) :=
  let body := (cs.drop 2).takeWhile fun c => isDigit c || c = '_'
  if (body.head?.map isDigit).getD false then
    (integer? (cs.take 2 ++ body)).map fun n => (.integer n, cs.drop (2 + body.length))
  else none

/-- A date, a time of day, or both.  None starts with a zero on its own. -/
def dateTime? (cs : List Char) : Option (Value × List Char) :=
  let text := cs.takeWhile isDateChar
  let trimmed := (text.reverse.dropWhile (· = ' ')).reverse
  if cs.takeWhile Char.isDigit ≠ ['0'] ∧ isDateTime trimmed then
    some (.dateTime, cs.drop text.length)
  else none

/-- A number or a date that starts with a digit. -/
def numberOrDate? (cs : List Char) : Option (Value × List Char) :=
  match cs.dropWhile Char.isDigit with
  | '-' :: _ | ':' :: _ => dateTime? cs
  | _ =>
      match cs with
      | '0' :: 'x' :: _ => based? isHexDigit cs
      | '0' :: 'o' :: _ => based? (fun c => '0' ≤ c && c ≤ '7') cs
      | '0' :: 'b' :: _ => based? (fun c => c = '0' || c = '1') cs
      | cs => decimal? cs

/-- A number with a sign. -/
def signed? (cs : List Char) : Option (Value × List Char) :=
  match cs.tail with
  | '0' :: 'x' :: _ | '0' :: 'o' :: _ | '0' :: 'b' :: _ => none
  | c :: _ =>
      if c.isDigit then decimal? cs
      else ((behind? "inf" cs.tail).orElse fun _ => behind? "nan" cs.tail).map (.float, ·)
  | [] => none

/-- A value that is a word. -/
def word? (cs : List Char) : Option (Value × List Char) :=
  match cs.takeWhile Char.isAlpha with
  | ['t', 'r', 'u', 'e'] => some (.boolean true, cs.drop 4)
  | ['f', 'a', 'l', 's', 'e'] => some (.boolean false, cs.drop 5)
  | ['i', 'n', 'f'] | ['n', 'a', 'n'] => some (.float, cs.drop 3)
  | _ => none

mutual

/-- A value behind blanks, nested at most `n` deep and long. -/
def valueOf? : Nat → List Char → Option (Value × List Char)
  | 0, _ => none
  | n + 1, cs =>
      match skipBlanks cs with
      | '[' :: cs => (itemsOf? n cs).map fun (items, cs) => (.array items, cs)
      | '\x7b' :: cs =>
          match skipBlanks cs with
          | '\x7d' :: cs => some (.inlineTable [], cs)
          | cs => (fieldsOf? n cs).map fun (fields, cs) => (.inlineTable fields, cs)
      | c :: cs =>
          if c = '"' ∨ c = '\'' then (string? (c :: cs)).map fun (s, cs) => (.string s, cs)
          else if c.isDigit then numberOrDate? (c :: cs)
          else if c = '+' ∨ c = '-' then signed? (c :: cs)
          else word? (c :: cs)
      | [] => none

/-- The items of an array from the next one on, and the rest behind the closing
bracket.  A comma may follow the last item. -/
def itemsOf? : Nat → List Char → Option (List Value × List Char)
  | 0, _ => none
  | n + 1, cs =>
      match skipFiller false cs with
      | ']' :: cs => some ([], cs)
      | cs => do
          let (item, cs) ← valueOf? n cs
          match skipFiller false cs with
          | ']' :: cs => return ([item], cs)
          | ',' :: cs => do
              let (items, cs) ← itemsOf? n cs
              return (item :: items, cs)
          | _ => none

/-- The fields of an inline table from the next one on, and the rest behind the
closing brace.  There is at least one more field. -/
def fieldsOf? : Nat → List Char → Option (List (Key × Value) × List Char)
  | 0, _ => none
  | n + 1, cs => do
      let (key, cs) ← key? n cs
      let (value, cs) ← valueOf? n (← after? '=' cs)
      match skipBlanks cs with
      | '\x7d' :: cs => return ([(key, value)], cs)
      | ',' :: cs => do
          let (fields, cs) ← fieldsOf? n cs
          return ((key, value) :: fields, cs)
      | _ => none

end

/-- A value in a text of at most `size` characters.  Each step into it or along
it takes a character, with one more step where an item or a field begins. -/
def value? (size : Nat) (cs : List Char) : Option (Value × List Char) := valueOf? (2 * size + 2) cs

/-! ## Statements -/

/-- One statement, which a text of at most `size` characters starts with, and
the rest behind its line. -/
def statement? (size : Nat) (cs : List Char) : Option (Statement × List Char) :=
  match cs with
  | '[' :: '[' :: cs => do
      let (key, cs) ← key? size cs
      return (.arrayTable key, ← lineEnd? (← after? ']' (← after? ']' cs)))
  | '[' :: cs => do
      let (key, cs) ← key? size cs
      return (.table key, ← lineEnd? (← after? ']' cs))
  | cs => do
      let (key, cs) ← key? size cs
      let (value, cs) ← value? size (← after? '=' cs)
      return (.assign key value, ← lineEnd? cs)

/-- The statements of a text of at most `n` characters; each takes some. -/
def statementsOf? : Nat → List Char → Option (List Statement)
  | 0, _ => none
  | n + 1, cs =>
      match skipFiller false cs with
      | [] => some []
      | cs => do
          let (s, cs) ← statement? n cs
          return s :: (← statementsOf? n cs)

/-- The statements of a settings text. -/
def statements? (text : Bytes) : Option (List Statement) := do
  let cs ← characters? text
  statementsOf? (cs.length + 1) cs

end LineLexer.Toml
