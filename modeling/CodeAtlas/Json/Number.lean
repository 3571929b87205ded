import CodeAtlas.Decimal.Read

/-! The value of a JSON number: an integer of 64 bits where the text is one, a double otherwise. -/

namespace CodeAtlas.Json

inductive Number where
  | integer (negative : Bool) (magnitude : UInt64)
  | real (value : Float)

structure Mantissa where
  digits : UInt64 := 0
  power : Int := 0

namespace Mantissa

def fits (m : Mantissa) (digit : Nat) : Bool := m.digits.toNat * 10 + digit < UInt64.size

def extend (m : Mantissa) (digit : Nat) : UInt64 := m.digits * 10 + digit.toUInt64

def addWhole (m : Mantissa) : List Char → Mantissa
  | [] => m
  | c :: rest =>
    let digit := Decimal.digitValue c
    if m.fits digit then addWhole { m with digits := m.extend digit } rest
    else { m with power := m.power + (rest.length + 1 : Nat) }

def addFraction (m : Mantissa) : List Char → Mantissa
  | [] => m
  | c :: rest =>
    let digit := Decimal.digitValue c
    if m.fits digit then addFraction ⟨m.extend digit, m.power - 1⟩ rest else m

def tenTo (k : Nat) : Float := Float.ofScientific 1 false k

/-- The value times ten to a power, `none` beyond the range of doubles. Small powers are divided out
in steps of 308, of which three leave nothing of any mantissa. -/
def scaled (steps : Nat) (value : Float) (power : Int) : Option Float :=
  if value == 0 then some value
  else if 308 < power then none
  else if 0 ≤ power then
    let product := value * tenTo power.toNat
    if product.isInf then none else some product
  else if -308 ≤ power then some (value / tenTo (-power).toNat)
  else match steps with
    | 0 => some 0
    | steps + 1 => scaled steps (value / tenTo 308) (power + 308)

end Mantissa

structure NumberParts where
  whole : List Char
  fraction : Option (List Char)
  exponent : Option Int

namespace NumberParts

def ofText (text : List Char) : NumberParts :=
  let (whole, rest) := text.span Char.isDigit
  let (fraction, rest) := match rest with
    | '.' :: r => let (f, r) := r.span Char.isDigit; (some f, r)
    | r => (none, r)
  let exponent := match rest with
    | _ :: '-' :: digits => some (-(Decimal.ofDigits digits : Int))
    | _ :: '+' :: digits => some (Decimal.ofDigits digits : Int)
    | _ :: digits => some (Decimal.ofDigits digits : Int)
    | [] => none
  ⟨whole, fraction, exponent⟩

/-- `none` for what is too large for a double. -/
def value? (p : NumberParts) (negative : Bool) : Option Number :=
  let whole := ({} : Mantissa).addWhole p.whole
  let isInteger := p.fraction.isNone && p.exponent.isNone && whole.power = 0
  if isInteger && (!negative || whole.digits.toNat ≤ UInt64.size / 2) then
    some (.integer negative whole.digits)
  else
    let m := whole.addFraction (p.fraction.getD [])
    (Mantissa.scaled 3 m.digits.toFloat (m.power + p.exponent.getD 0)).map fun x =>
      .real (if negative then -x else x)

end NumberParts

/-- The value of the text of a number, `none` if it is out of range. -/
def Number.ofText? (text : List Char) : Option Number :=
  match text with
  | '-' :: rest => (NumberParts.ofText rest).value? true
  | text => (NumberParts.ofText text).value? false

def Number.toFloat32 : Number → Float32
  | .integer false n => n.toFloat32
  | .integer true n => -n.toFloat32
  | .real x => x.toFloat32

end CodeAtlas.Json
