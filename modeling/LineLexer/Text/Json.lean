/-
# `Text.Json` — writing JSON

Values with their fields in the order given.  Strings are written so that
they may stand inside a web page: `<`, `>`, `&` and the two Unicode line
separators go by number, and so does each byte outside UTF-8, as U+FFFD.
There are two layouts: on one line, and indented by two spaces.
-/
import LineLexer.Text.Glyph

namespace LineLexer

/-- A JSON value. -/
inductive Json
  | null
  | bool (b : Bool)
  | num (n : Int)
  | str (s : Bytes)
  | arr (items : List Json)
  | obj (fields : List (Bytes × Json))

namespace Json

/-- A field with a literal name. -/
def field (name : String) (value : Json) : Bytes × Json := (utf8 name, value)

/-- A field that is left out if `absent`. -/
def optional (absent : Bool) (name : String) (value : Json) : List (Bytes × Json) :=
  if absent then [] else [field name value]

/-- A number written as a natural one. -/
def nat (n : Nat) : Json := num n

/-- One character inside a JSON string. -/
def escape (g : Glyph) : Bytes :=
  if g.isBroken then utf8 "\\ufffd"
  else match g.char.toNat with
    | 0x22 => utf8 "\\\""
    | 0x5C => utf8 "\\\\"
    | 0x08 => utf8 "\\b"
    | 0x0C => utf8 "\\f"
    | 0x0A => utf8 "\\n"
    | 0x0D => utf8 "\\r"
    | 0x09 => utf8 "\\t"
    | n =>
        if n < 0x20 ∨ n = 0x3C ∨ n = 0x3E ∨ n = 0x26 ∨ n = 0x2028 ∨ n = 0x2029 then
          utf8 "\\u" ++ Bytes.hex 4 n
        else g.bytes

/-- A JSON string. -/
def string (s : Bytes) : Bytes := utf8 "\"" ++ (glyphs s).flatMap escape ++ utf8 "\""

/-- The text of the values that have no parts. -/
def bool.text (b : Bool) : Bytes := if b then utf8 "true" else utf8 "false"

mutual

/-- The value on one line. -/
def compact : Json → Bytes
  | null => utf8 "null"
  | bool b => bool.text b
  | num n => Bytes.decimalInt n
  | str s => string s
  | arr items => utf8 "[" ++ Bytes.join (utf8 ",") (compactItems items) ++ utf8 "]"
  | obj fields => utf8 "\x7b" ++ Bytes.join (utf8 ",") (compactFields fields) ++ utf8 "\x7d"

/-- The items of an array, each on one line. -/
def compactItems : List Json → List Bytes
  | [] => []
  | j :: rest => j.compact :: compactItems rest

/-- The fields of an object, each on one line. -/
def compactFields : List (Bytes × Json) → List Bytes
  | [] => []
  | (k, v) :: rest => (string k ++ utf8 ":" ++ v.compact) :: compactFields rest

end

/-- A line break and the indentation of the given depth. -/
def newline (depth : Nat) : Bytes := utf8 "\n" ++ List.replicate (2 * depth) 0x20

/-- The parts between two brackets, each on a line of its own. -/
def block (left right : Bytes) (depth : Nat) (parts : List Bytes) : Bytes :=
  if parts.isEmpty then left ++ right
  else
    left ++ newline (depth + 1) ++ Bytes.join (utf8 "," ++ newline (depth + 1)) parts
      ++ newline depth ++ right

mutual

/-- The value with its parts on lines of their own, from the given depth on. -/
def indentedAt (depth : Nat) : Json → Bytes
  | null => utf8 "null"
  | bool b => bool.text b
  | num n => Bytes.decimalInt n
  | str s => string s
  | arr items => block (utf8 "[") (utf8 "]") depth (indentedItems (depth + 1) items)
  | obj fields => block (utf8 "\x7b") (utf8 "\x7d") depth (indentedFields (depth + 1) fields)

/-- The items of an array, from the given depth on. -/
def indentedItems (depth : Nat) : List Json → List Bytes
  | [] => []
  | j :: rest => j.indentedAt depth :: indentedItems depth rest

/-- The fields of an object, from the given depth on. -/
def indentedFields (depth : Nat) : List (Bytes × Json) → List Bytes
  | [] => []
  | (k, v) :: rest => (string k ++ utf8 ": " ++ v.indentedAt depth) :: indentedFields depth rest

end

/-- The value indented, with a line break at the end. -/
def indented (j : Json) : Bytes := j.indentedAt 0 ++ utf8 "\n"

end Json

end LineLexer
