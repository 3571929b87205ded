import CodeAtlas.Decimal.Binary

/-! The shortest decimal that reads back as a given binary value, and its printed forms. -/

namespace CodeAtlas.Decimal

structure Scientific where
  digits : Nat
  exponent : Int
  deriving Repr, DecidableEq

namespace Scientific

def strip (fuel : Nat) (d : Scientific) : Scientific :=
  match fuel with
  | 0 => d
  | fuel + 1 =>
    if d.digits ≠ 0 ∧ d.digits % 10 = 0 then strip fuel ⟨d.digits / 10, d.exponent + 1⟩ else d

def text (d : Scientific) : List Char := Nat.toDigits 10 d.digits

def point (d : Scientific) : Int := d.text.length + d.exponent

end Scientific

inductive Tie where
  | larger
  | even
  deriving Repr, DecidableEq

def Tie.takesLower (tie : Tie) (lower : Nat) : Bool :=
  match tie with
  | .larger => false
  | .even => lower % 2 = 0

namespace Magnitude

/-- Whether a decimal reads back as the value: it lies between the half-way points, which belong to
the value when its mantissa is even. -/
def accepts (v : Magnitude) (candidate : Fraction) : Bool :=
  let (_, lower, upper) := v.bounds
  if v.mantissa % 2 = 0 then lower.le candidate && candidate.le upper
  else lower.lt candidate && candidate.lt upper

def neighbour? (v : Magnitude) (tie : Tie) (leading : Int) (count : Nat) : Option Scientific :=
  let exponent := leading - count
  let scaled := v.toFraction.scale (-exponent)
  let low := scaled.floor
  let fits (n : Nat) : Bool := v.accepts ((Fraction.mk n 1).scale exponent)
  let twice := 2 * (scaled.num - low * scaled.den)
  let nearLow : Bool := twice < scaled.den || (twice = scaled.den && tie.takesLower low)
  if fits low && (nearLow || !fits (low + 1)) then some ⟨low, exponent⟩
  else if fits (low + 1) then some ⟨low + 1, exponent⟩
  else none

/-- The fewest digits, at most seventeen, that read back as the value. -/
def shortest (v : Magnitude) (tie : Tie) : Scientific :=
  let leading := v.toFraction.decimalExponent
  match (List.range 17).findSome? fun k => v.neighbour? tie leading (k + 1) with
  | some d => d.strip 20
  | none => ⟨0, 0⟩

end Magnitude

/-- How a format writes numbers: which point positions are written without an exponent, whether a
whole number keeps `.0`, the sign of a non-negative exponent, and which way ties go. -/
structure Layout where
  positional : Int → Bool
  keepPoint : Bool
  exponentSign : String
  tie : Tie
  nan : String
  infinity : String

namespace Layout

private def zeros (n : Nat) : String := String.ofList (List.replicate n '0')

def signed (negative : Bool) (text : String) : String := if negative then "-" ++ text else text

def unsigned (f : Layout) (d : Scientific) : String :=
  let digits := d.text
  let point := d.point
  if f.positional point then
    if digits.length ≤ point then
      String.ofList digits ++ zeros (point.toNat - digits.length) ++
        (if f.keepPoint then ".0" else "")
    else if 0 < point then
      String.ofList (digits.take point.toNat) ++ "." ++ String.ofList (digits.drop point.toNat)
    else "0." ++ zeros (-point).toNat ++ String.ofList digits
  else
    let exponent := point - 1
    let tail := digits.drop 1
    String.ofList (digits.take 1) ++ (if tail.isEmpty then "" else "." ++ String.ofList tail) ++ "e"
      ++ (if exponent < 0 then "-" else f.exponentSign) ++ toString exponent.natAbs

def write (f : Layout) : Binary → String
  | .nan => f.nan
  | .infinite negative => signed negative f.infinity
  | .zero negative =>
    signed negative (if f.positional 1 then (if f.keepPoint then "0.0" else "0") else "0e0")
  | .finite negative v => signed negative (f.unsigned (v.shortest f.tie))

def plain : Layout := ⟨fun _ => true, false, "", .larger, "NaN", "inf"⟩

def scientific : Layout := ⟨fun _ => false, false, "", .larger, "NaN", "inf"⟩

def settings : Layout := ⟨fun _ => true, true, "", .larger, "nan", "inf"⟩

/-- Single precision in JSON: positional from 1e-6 up to 1e13; what is not finite is `null`. -/
def json : Layout := ⟨fun point => -6 < point && point ≤ 13, true, "+", .even, "null", "null"⟩

end Layout

end CodeAtlas.Decimal
