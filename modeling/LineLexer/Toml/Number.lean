/-
# `Toml.Number` — numbers and dates of a settings text

Integers are decimal with an optional sign, or have a base mark; they fit
64 bits.  Underscores stand between digits.  Of floats and dates only their
form and range count, since no setting has such a value.
-/
import LineLexer.Toml.Strings

namespace LineLexer.Toml

/-! ## Integers -/

/-- Whether each underscore follows a digit, and a digit comes last.  `ready`
says whether an underscore may come next. -/
def underscoresFit (ready : Bool) : List Char → Bool
  | [] => ready
  | c :: cs => if c = '_' && !ready then false else underscoresFit (isHexDigit c) cs

/-- Whether a numeral starts with a zero that is not its only digit and no part
of a base mark. -/
def hasLeadingZero : List Char → Bool
  | '0' :: c :: _ => !(c = 'b' || c = 'o' || c = 'x')
  | '-' :: '0' :: _ :: _ => true
  | '+' :: '0' :: _ :: _ => true
  | _ => false

/-- The number that a numeral without underscores writes. -/
def numeralValue : List Char → Int
  | '-' :: cs => -Int.ofNat (ofDigits 10 cs)
  | '+' :: cs => Int.ofNat (ofDigits 10 cs)
  | '0' :: 'x' :: cs => Int.ofNat (ofDigits 16 cs)
  | '0' :: 'o' :: cs => Int.ofNat (ofDigits 8 cs)
  | '0' :: 'b' :: cs => Int.ofNat (ofDigits 2 cs)
  | cs => Int.ofNat (ofDigits 10 cs)

/-- The integer that a numeral writes. -/
def integer? (cs : List Char) : Option Int :=
  let n := numeralValue (cs.filter (· != '_'))
  if underscoresFit false cs && !hasLeadingZero cs && Int64.minValue.toInt ≤ n
      && n ≤ Int64.maxValue.toInt then some n
  else none

/-! ## Floats -/

/-- The number of characters of the sign, if there is one. -/
def signSize : List Char → Nat
  | '-' :: _ => 1
  | '+' :: _ => 1
  | _ => 0

/-- The text with its sign taken off. -/
def unsigned (cs : List Char) : List Char := cs.drop (signSize cs)

/-- The exponent that digits write.  No more digits are read once it has come to
ten thousand, which is beyond every double. -/
def exponentOf (digits : List Char) : Nat :=
  digits.foldl (fun n c => if n < 10000 then n * 10 + digitValue c else n) 0

/-- The parts of a float: whole digits, digits behind the point, exponent.
None unless each part that is marked has digits. -/
def floatParts? (cs : List Char) : Option (List Char × List Char × Int) :=
  let cs := unsigned cs
  let whole := cs.takeWhile Char.isDigit
  let cs := cs.dropWhile Char.isDigit
  let (fraction, cs, pointFits) := match cs with
    | '.' :: cs =>
        let digits := cs.takeWhile Char.isDigit
        (digits, cs.dropWhile Char.isDigit, !digits.isEmpty)
    | cs => ([], cs, true)
  let exponent? : Option Int := match cs with
    | [] => some 0
    | e :: cs =>
        let digits := unsigned cs
        if (e = 'e' || e = 'E') && !digits.isEmpty && digits.all Char.isDigit then
          some ((if cs.head? = some '-' then -1 else 1) * Int.ofNat (exponentOf digits))
        else none
  if whole.isEmpty || !pointFits then none else exponent?.map (whole, fraction, ·)

/-- The least number that is too large for a double: half a unit in the last
place above the largest one. -/
def doubleBound : Nat := 1 <<< 1024 - 1 <<< 970

/-- Whether the number that digits write, times `10 ^ exponent`, fits a double. -/
def fitsDouble (digits : List Char) (exponent : Int) : Bool :=
  let digits := digits.dropWhile (· = '0')
  let size := Int.ofNat digits.length + exponent
  if digits.isEmpty ∨ size < 300 then true
  else if 320 < size then false
  else if 0 ≤ exponent then ofDigits 10 digits * Nat.pow 10 exponent.toNat < doubleBound
  else ofDigits 10 digits < doubleBound * Nat.pow 10 (-exponent).toNat

/-- The text cut at points and exponent marks. -/
def floatPieces : List Char → List (List Char)
  | [] => [[]]
  | c :: cs =>
      if c = '.' || c = 'e' || c = 'E' then [] :: floatPieces cs
      else match floatPieces cs with
        | [] => [[c]]
        | p :: ps => (c :: p) :: ps

/-- Whether a text is a float that fits a double. -/
def isFloat (cs : List Char) : Bool :=
  let pieces := (floatPieces cs).filter fun p => !p.isEmpty
  let leading := match pieces with
    | [] => false
    | p :: _ => hasLeadingZero p
  pieces.all (underscoresFit false) && !leading &&
    match floatParts? (cs.filter (· != '_')) with
    | none => false
    | some (whole, fraction, exponent) =>
        fitsDouble (whole ++ fraction) (exponent - Int.ofNat fraction.length)

/-! ## Dates and times -/

/-- The digits in front of a text, if there are exactly `count`, and the rest. -/
def digits? (count : Nat) (cs : List Char) : Option (Nat × List Char) :=
  let ds := cs.take count
  if ds.length = count ∧ ds.all Char.isDigit then some (ofDigits 10 ds, cs.drop count) else none

/-- The rest of a text after a given character. -/
def after? (c : Char) : List Char → Option (List Char)
  | d :: cs => if d = c then some cs else none
  | [] => none

def isLeapYear (y : Nat) : Bool := y % 4 == 0 && (y % 100 != 0 || y % 400 == 0)

def daysInMonth (year month : Nat) : Nat :=
  if month = 2 then (if isLeapYear year then 29 else 28)
  else if month = 4 ∨ month = 6 ∨ month = 9 ∨ month = 11 then 30 else 31

/-- The rest of a text after a date that the calendar has. -/
def afterDate? (cs : List Char) : Option (List Char) := do
  let (year, cs) ← digits? 4 cs
  let (month, cs) ← digits? 2 (← after? '-' cs)
  let (day, cs) ← digits? 2 (← after? '-' cs)
  if 1 ≤ month ∧ month ≤ 12 ∧ 1 ≤ day ∧ day ≤ daysInMonth year month then some cs else none

/-- The hour in front of a text, in two digits or one. -/
def hour? (cs : List Char) : Option (Nat × List Char) :=
  (digits? 2 cs).orElse fun _ => digits? 1 cs

/-- The rest of a text after a time of day with seconds and, if it has one, a
fraction. -/
def afterTime? (cs : List Char) : Option (List Char) := do
  let (hour, cs) ← hour? cs
  let (minute, cs) ← digits? 2 (← after? ':' cs)
  let (second, cs) ← digits? 2 (← after? ':' cs)
  if 24 ≤ hour ∨ 60 ≤ minute ∨ 60 ≤ second then none
  else match cs with
    | '.' :: d :: cs =>
        if d.isDigit then some (cs.dropWhile Char.isDigit) else some ('.' :: d :: cs)
    | cs => some cs

/-- Whether a text is the offset of a time zone. -/
def isOffset : List Char → Bool
  | ['Z'] => true
  | sign :: cs =>
      (sign = '+' || sign = '-') &&
        match (do
          let (hours, cs) ← digits? 2 cs
          let (minutes, cs) ← digits? 2 (← after? ':' cs)
          some (hours ≤ 24 && minutes ≤ 60 && cs.isEmpty)) with
        | some ok => ok
        | none => false
  | [] => false

/-- Whether a text is a date, a time of day, or both, then with or without an
offset.  A blank may stand for the `T` between date and time. -/
def isDateTime (cs : List Char) : Bool :=
  let cs := cs.map fun c => if c = 't' || c = ' ' then 'T' else if c = 'z' then 'Z' else c
  match afterDate? cs with
  | some [] => true
  | some ('T' :: cs) =>
      match afterTime? cs with
      | some [] => true
      | some cs => isOffset cs
      | none => false
  | some _ => false
  | none => afterTime? cs == some []

end LineLexer.Toml
