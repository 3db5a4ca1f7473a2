/-
# `Text.Fixed` — a double with a fixed number of places

A finite double is `± m · 2 ^ q` for whole numbers `m` and `q`, so its decimal
places can be computed exactly.  A half goes to the even neighbour, and a
negative number keeps its sign even where it rounds to zero.
-/
import LineLexer.Text.Bytes

namespace LineLexer.Text

/-- A quotient rounded to the nearest whole number, a half to the even one. -/
def roundDiv (num den : Nat) : Nat :=
  let q := num / den
  let r := num % den
  if den < 2 * r ∨ (2 * r = den ∧ q % 2 = 1) then q + 1 else q

/-- The parts of a finite double. -/
structure Dyadic where
  negative : Bool
  mantissa : Nat
  exponent : Int
deriving DecidableEq, Repr

/-- The finite double with the given bits. -/
def Dyadic.ofBits (bits : UInt64) : Dyadic :=
  let n := bits.toNat
  let scale := (n >>> 52) % (1 <<< 11)
  let fraction := n % (1 <<< 52)
  let negative := 1 <<< 63 ≤ n
  if scale = 0 then ⟨negative, fraction, -1074⟩
  else ⟨negative, fraction + 1 <<< 52, Int.ofNat scale - 1075⟩

/-- The size of the number in units of `10 ^ -places`, rounded. -/
def Dyadic.scaled (d : Dyadic) (places : Nat) : Nat :=
  let n := d.mantissa * Nat.pow 10 places
  if 0 ≤ d.exponent then n <<< d.exponent.toNat else roundDiv n (1 <<< (-d.exponent).toNat)

/-- The number with a fixed number of places behind the point. -/
def Dyadic.fixed (d : Dyadic) (places : Nat) : Bytes :=
  let n := d.scaled places
  (if d.negative then utf8 "-" else []) ++ Bytes.decimal (n / Nat.pow 10 places) ++ utf8 "."
    ++ Bytes.padLeft places 0x30 (Bytes.decimal (n % Nat.pow 10 places))

/-- A finite double with a fixed number of places behind the point. -/
def fixed (places : Nat) (x : Float) : Bytes := (Dyadic.ofBits x.toBits).fixed places

end LineLexer.Text
