/-
# `Trace.Event` — one record of the log

An event has a place in its sink's sequence, a time, a kind and a scope,
the span it opens or closes, the span around it, and named attributes.  As
text it is one line with the attributes in the order of their names; the
other form is one JSON object per line.
-/
import LineLexer.Text.Json
import LineLexer.Trace.Level

namespace LineLexer.Trace

/-- Named attributes; a name occurs at most once. -/
abbrev Attributes := List (Bytes × Bytes)

namespace Attributes

/-- The attributes with one set to a value. -/
def set (as : Attributes) (key value : Bytes) : Attributes :=
  match as with
  | [] => [(key, value)]
  | (k, v) :: rest => if k = key then (k, value) :: rest else (k, v) :: set rest key value

/-- The attributes in the order of their names. -/
def sorted (as : Attributes) : Attributes := as.mergeSort fun x y => !y.1.lt x.1

end Attributes

/-- One record of the log. -/
structure Event where
  /-- Nanoseconds since the start of 1970. -/
  time : Option Int
  seq : Nat
  kind : EventKind
  scope : Scope
  /-- The span that begins or ends; zero for points. -/
  span : Nat
  /-- The span around; zero if there is none. -/
  parent : Nat
  name : Bytes
  detail : Bytes
  extra : Attributes
deriving DecidableEq, Repr

/-! ## Times -/

/-- A day of the calendar. -/
structure Date where
  year : Int
  month : Nat
  day : Nat

/-- The date of a day counted from the start of 1970: whole eras of 400 years
that begin in March, then years of the era, then days of the year. -/
def Date.ofDays (days : Int) : Date :=
  let z := days + 719468
  let era := z.fdiv 146097
  let doe := (z - era * 146097).toNat
  let yoe := (doe - doe / 1460 + doe / 36524 - doe / 146096) / 365
  let doy := doe - (365 * yoe + yoe / 4 - yoe / 100)
  let mp := (5 * doy + 2) / 153
  let day := doy - (153 * mp + 2) / 5 + 1
  let month := if mp < 10 then mp + 3 else mp - 9
  ⟨Int.ofNat yoe + era * 400 + (if month ≤ 2 then 1 else 0), month, day⟩

/-- A number with at least `width` digits. -/
def padded (width n : Nat) : Bytes := Bytes.padLeft width 0x30 (Bytes.decimal n)

/-- The fraction of a second without its final zeros; nothing for none. -/
def fraction (nanos : Nat) : Bytes :=
  let digits := ((padded 9 nanos).reverse.dropWhile (· = 0x30)).reverse
  if digits.isEmpty then [] else utf8 "." ++ digits

/-- A time as date and time of day at Greenwich. -/
def timestamp (nanos : Int) : Bytes :=
  let seconds := nanos.fdiv 1000000000
  let days := seconds.fdiv 86400
  let date := Date.ofDays days
  let inDay := (seconds - days * 86400).toNat
  padded 4 date.year.toNat ++ utf8 "-" ++ padded 2 date.month ++ utf8 "-" ++ padded 2 date.day
    ++ utf8 "T" ++ padded 2 (inDay / 3600) ++ utf8 ":" ++ padded 2 (inDay / 60 % 60)
    ++ utf8 ":" ++ padded 2 (inDay % 60) ++ fraction (nanos - seconds * 1000000000).toNat
    ++ utf8 "Z"

namespace Event

/-- The event on one line of text. -/
def text (e : Event) : Bytes :=
  utf8 "[" ++ Bytes.padLeft 6 0x20 (Bytes.decimal e.seq) ++ utf8 "] "
    ++ (if e.parent = 0 then [] else utf8 "  ")
    ++ e.kind.sign ++ e.scope.name ++ utf8 " " ++ e.name
    ++ (if e.detail.isEmpty then [] else utf8 " (" ++ e.detail ++ utf8 ")")
    ++ (if e.extra.isEmpty then []
        else utf8 " \x7b"
          ++ Bytes.join (utf8 ", ") (e.extra.sorted.map fun (k, v) => k ++ utf8 "=" ++ v)
          ++ utf8 "\x7d")
    ++ utf8 "\n"

/-- The event as a JSON object. -/
def json (e : Event) : Json :=
  .obj
    ((match e.time with
      | none => []
      | some t => [Json.field "time" (.str (timestamp t))])
    ++ [Json.field "seq" (.nat e.seq), Json.field "kind" (.str e.kind.name),
        Json.field "scope" (.str e.scope.name)]
    ++ Json.optional (e.span = 0) "span_id" (.nat e.span)
    ++ Json.optional (e.parent = 0) "parent_id" (.nat e.parent)
    ++ [Json.field "name" (.str e.name)]
    ++ Json.optional e.detail.isEmpty "detail" (.str e.detail)
    ++ Json.optional e.extra.isEmpty "extra"
        (.obj (e.extra.sorted.map fun (k, v) => (k, .str v))))

/-- The event in a given form, with a line break at the end. -/
def written (e : Event) : Format → Bytes
  | .text => e.text
  | .ndjson => e.json.compact ++ utf8 "\n"

end Event

end LineLexer.Trace
