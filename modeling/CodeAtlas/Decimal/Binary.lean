/-! Binary floating point values as exact fractions: a sign, a mantissa and a power of two, with the
two half-way points that bound the numbers rounding to the value. -/

namespace CodeAtlas.Decimal

/-- A positive value `mantissa * 2 ^ power`; `narrow` says that the gap to the next smaller value is
half the gap to the next larger one, as it is at a power of two. -/
structure Magnitude where
  mantissa : Nat
  power : Int
  narrow : Bool
  deriving Repr, DecidableEq

inductive Binary where
  | nan
  | infinite (negative : Bool)
  | zero (negative : Bool)
  | finite (negative : Bool) (value : Magnitude)
  deriving Repr, DecidableEq

namespace Binary

/-- The value with the given fields, in a format with `digits` stored mantissa bits and exponents
counted from `lowest`. -/
def ofFields (digits : Nat) (lowest : Int) (top : Nat) (negative : Bool) (exponent mantissa : Nat) :
    Binary :=
  if exponent = top then
    if mantissa = 0 then .infinite negative else .nan
  else if exponent = 0 then
    if mantissa = 0 then .zero negative else .finite negative ⟨mantissa, lowest, false⟩
  else
    .finite negative
      ⟨1 <<< digits + mantissa, lowest + (exponent - 1 : Nat), mantissa = 0 && exponent ≠ 1⟩

def ofBits64 (bits : Nat) : Binary :=
  ofFields 52 (-1074) 2047 ((bits >>> 63) % 2 = 1) ((bits >>> 52) % 2048) (bits % 1 <<< 52)

def ofBits32 (bits : Nat) : Binary :=
  ofFields 23 (-149) 255 ((bits >>> 31) % 2 = 1) ((bits >>> 23) % 256) (bits % 1 <<< 23)

def ofFloat (x : Float) : Binary := ofBits64 x.toBits.toNat

def ofFloat32 (x : Float32) : Binary := ofBits32 x.toBits.toNat

end Binary

structure Fraction where
  num : Nat
  den : Nat
  deriving Repr, DecidableEq

namespace Fraction

def le (a b : Fraction) : Bool := a.num * b.den ≤ b.num * a.den

def lt (a b : Fraction) : Bool := a.num * b.den < b.num * a.den

def scale (a : Fraction) (k : Int) : Fraction :=
  ⟨a.num * Nat.pow 10 k.toNat, a.den * Nat.pow 10 (-k).toNat⟩

def floor (a : Fraction) : Nat := a.num / a.den

def round (a : Fraction) : Nat :=
  let low := a.num / a.den
  let twice := 2 * (a.num % a.den)
  if twice < a.den then low
  else if a.den < twice then low + 1
  else if low % 2 = 0 then low else low + 1

/-- Position of the leading decimal digit: `e` with `10 ^ (e - 1) ≤ a < 10 ^ e`, for `a`
above zero. -/
def decimalExponent (a : Fraction) : Int :=
  if a.den ≤ a.num then (Nat.toDigits 10 (a.num / a.den)).length
  else
    -- below one: count the places needed to reach it
    let rec places (fuel num : Nat) : Nat :=
      match fuel with
      | 0 => 0
      | fuel + 1 => if a.den ≤ num then 0 else places fuel (num * 10) + 1
    1 - (places (Nat.toDigits 10 a.den).length a.num : Int)

end Fraction

namespace Magnitude

def bounds (v : Magnitude) : Fraction × Fraction × Fraction :=
  let unit := 1 <<< v.power.toNat
  let den := 4 <<< (-v.power).toNat
  let num := 4 * v.mantissa * unit
  (⟨num, den⟩, ⟨num - (if v.narrow then 1 else 2) * unit, den⟩, ⟨num + 2 * unit, den⟩)

def toFraction (v : Magnitude) : Fraction := v.bounds.1

end Magnitude

end CodeAtlas.Decimal
