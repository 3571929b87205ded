import CodeAtlas.Decimal.Shortest

/-! Decimals with a fixed number of digits, rounded from the exact binary value; a half goes to the
even neighbour. -/

namespace CodeAtlas.Decimal

def significant (count : Nat) : Binary → String
  | .nan => "NaN"
  | .infinite negative => Layout.signed negative "inf"
  | .zero _ => "0"
  | .finite negative v =>
    let leading := v.toFraction.decimalExponent
    let rounded := (v.toFraction.scale (count - leading)).round
    let carried := rounded = Nat.pow 10 count
    let digits := Nat.toDigits 10 (if carried then rounded / 10 else rounded)
    let exponent := if carried then leading else leading - 1
    Layout.signed negative
      (String.ofList (digits.take 1) ++ "." ++ String.ofList (digits.drop 1) ++
        "e" ++ toString exponent)

def fixed (places : Nat) : Binary → String
  | .nan => "NaN"
  | .infinite negative => Layout.signed negative "inf"
  | .zero negative => Layout.signed negative (write 0)
  | .finite negative v => Layout.signed negative (write (v.toFraction.scale places).round)
where
  write (n : Nat) : String :=
    let digits := Nat.toDigits 10 n
    let padded := List.replicate (places + 1 - digits.length) '0' ++ digits
    let whole := padded.length - places
    String.ofList (padded.take whole)
      ++ (if places = 0 then "" else "." ++ String.ofList (padded.drop whole))

end CodeAtlas.Decimal
