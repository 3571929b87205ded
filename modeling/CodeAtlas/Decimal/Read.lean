/-! Decimal text read as the nearest binary floating point number. -/

namespace CodeAtlas.Decimal

/-- The value `digits * 10 ^ exponent`. Beyond the range of the format the answer is zero or
infinite whatever the digits, so the power is formed only inside it. -/
def toFloat (negative : Bool) (digits : Nat) (exponent : Int) : Float :=
  let size : Int := (Nat.toDigits 10 digits).length
  let magnitude : Float :=
    if digits = 0 then 0
    else if size + exponent < -400 then 0
    else if 400 < size + exponent then 1.0 / 0.0
    else Float.ofScientific digits (exponent < 0) exponent.natAbs
  if negative then -magnitude else magnitude

def natOfDigits (base : Nat) (value : Char → Nat) (digits : List Char) : Nat :=
  digits.foldl (fun n c => n * base + value c) 0

def digitValue (c : Char) : Nat := c.toNat - '0'.toNat

def ofDigits (digits : List Char) : Nat := natOfDigits 10 digitValue digits

def ofParts (negative : Bool) (whole fraction : List Char) (exponent : Int) : Float :=
  toFloat negative (ofDigits (whole ++ fraction)) (exponent - fraction.length)

/-- Reads `digits [. digits] [(e|E) [sign] digits]` with an optional leading sign, at least one
digit before or after the point, and the words `inf`, `infinity` and `nan` in any case. -/
def parseFloat? (text : List Char) : Option Float :=
  let (negative, body) := sign text
  match body.map Char.toLower with
  | ['i', 'n', 'f'] | ['i', 'n', 'f', 'i', 'n', 'i', 't', 'y'] =>
    some (if negative then -1.0 / 0.0 else 1.0 / 0.0)
  | ['n', 'a', 'n'] => some (if negative then -(0.0 / 0.0) else 0.0 / 0.0)
  | _ =>
    let (whole, rest) := body.span Char.isDigit
    let (fraction, rest) := match rest with
      | '.' :: r => r.span Char.isDigit
      | _ => ([], rest)
    if whole.isEmpty && fraction.isEmpty then none
    else match rest with
      | [] => some (ofParts negative whole fraction 0)
      | c :: r =>
        if c = 'e' ∨ c = 'E' then
          let (down, digits) := sign r
          if digits.isEmpty || !digits.all Char.isDigit then none
          else
            let size : Int := ofDigits digits
            some (ofParts negative whole fraction (if down then -size else size))
        else none
where
  sign : List Char → Bool × List Char
    | '-' :: r => (true, r)
    | '+' :: r => (false, r)
    | r => (false, r)

end CodeAtlas.Decimal
