import CodeAtlas.Decimal.Read
import CodeAtlas.Toml.Text
import CodeAtlas.Toml.Table

/-! Numbers, dates and times of configuration text. -/

namespace CodeAtlas.Toml

def digitsAfter (isDigit : Char → Bool) : List Char → Option (List Char × List Char)
  | [] => some ([], [])
  | c :: rest =>
    if c = '_' then match rest with
      | d :: _ => if isDigit d then digitsAfter isDigit rest else none
      | [] => none
    else if isDigit c then (digitsAfter isDigit rest).map fun (ds, r) => (c :: ds, r)
    else some ([], c :: rest)

def digits? (isDigit : Char → Bool) : List Char → Option (List Char × List Char)
  | [] => none
  | c :: rest =>
    if isDigit c then (digitsAfter isDigit rest).map fun (ds, r) => (c :: ds, r) else none

def sign : List Char → Bool × List Char
  | '-' :: rest => (true, rest)
  | '+' :: rest => (false, rest)
  | text => (false, text)

def whole? : List Char → Option (List Char × List Char)
  | '0' :: rest => some (['0'], rest)
  | text => digits? Char.isDigit text

def exponent? : List Char → Option (Int × List Char)
  | c :: rest =>
    if c = 'e' || c = 'E' then
      let (negative, rest) := sign rest
      (digits? Char.isDigit rest).map fun (ds, r) =>
        let size : Int := Decimal.ofDigits ds
        (if negative then -size else size, r)
    else none
  | [] => none

/-- A float; one that is too large above zero is refused. -/
def float (negative : Bool) (whole fraction : List Char) (exponent : Int) : Option Value :=
  let x := Decimal.ofParts negative whole fraction exponent
  if x.isInf && !negative then none else some (.float x)

def integer (n : Int) : Option Value :=
  if -9223372036854775808 ≤ n ∧ n < 9223372036854775808 then some (.integer n) else none

def decimal? (text : List Char) : Option (Value × List Char) := do
  let (negative, body) := sign text
  let (whole, rest) ← whole? body
  match rest with
  | '.' :: r =>
    let (fraction, r) ← digits? Char.isDigit r
    let (exponent, r) := (exponent? r).getD (0, r)
    return (← float negative whole fraction exponent, r)
  | r =>
    match exponent? r with
    | some (exponent, r) => return (← float negative whole [] exponent, r)
    | none =>
      let n : Int := Decimal.ofDigits whole
      return (← integer (if negative then -n else n), r)

def based? (base : Nat) (text : List Char) : Option (Value × List Char) := do
  let value (c : Char) : Option Nat := (Text.hexValue? c).filter (· < base)
  let (ds, rest) ← digits? (fun c => (value c).isSome) text
  let n := Decimal.natOfDigits base (fun c => (value c).getD 0) ds
  return (← integer n, rest)

def special? (text : List Char) : Option (Value × List Char) :=
  let (negative, body) := sign text
  match body with
  | 'i' :: 'n' :: 'f' :: rest =>
    let x : Float := 1.0 / 0.0
    some (.float (if negative then -x else x), rest)
  | 'n' :: 'a' :: 'n' :: rest => some (.float (0.0 / 0.0), rest)
  | _ => none

def number? (text : List Char) : Option (Value × List Char) :=
  match text with
  | '0' :: 'x' :: rest => based? 16 rest
  | '0' :: 'o' :: rest => based? 8 rest
  | '0' :: 'b' :: rest => based? 2 rest
  | text => (special? text).or (decimal? text)

def pair? (low high : Nat) : List Char → Option (List Char × List Char)
  | a :: b :: rest =>
    let n := Decimal.ofDigits [a, b]
    if a.isDigit && b.isDigit && low ≤ n && n ≤ high then some ([a, b], rest) else none
  | _ => none

def expect? (c : Char) : List Char → Option (List Char)
  | d :: rest => if c = d then some rest else none
  | [] => none

/-- A part of a second, cut to nine digits, without zeros at the end. -/
def secondPart (digits : List Char) : List Char :=
  match ((digits.take 9).reverse.dropWhile (· = '0')).reverse with
  | [] => []
  | kept => '.' :: kept

def time? (text : List Char) : Option (List Char × List Char) := do
  let (hours, rest) ← pair? 0 23 text
  let (minutes, rest) ← pair? 0 59 (← expect? ':' rest)
  let (seconds, rest) ← pair? 0 60 (← expect? ':' rest)
  let clock := hours ++ ':' :: minutes ++ ':' :: seconds
  match rest with
  | '.' :: d :: r =>
    if d.isDigit then
      let (digits, r) := (d :: r).span Char.isDigit
      return (clock ++ secondPart digits, r)
    else return (clock, rest)
  | _ => return (clock, rest)

/-- Hours and minutes from universal time; an offset of nothing is positive. -/
def offset? (text : List Char) : Option (List Char × List Char) :=
  match text with
  | 'Z' :: rest | 'z' :: rest => some (['Z'], rest)
  | c :: rest =>
    if c = '+' || c = '-' then do
      let (hours, rest) ← pair? 0 23 rest
      let (minutes, rest) ← pair? 0 59 (← expect? ':' rest)
      let sign := if Decimal.ofDigits (hours ++ minutes) = 0 then '+' else c
      return (sign :: hours ++ ':' :: minutes, rest)
    else none
  | [] => none

def daysIn (year month : Nat) : Nat :=
  let leap := year % 4 = 0 && (year % 100 ≠ 0 || year % 400 = 0)
  if month = 2 then (if leap then 29 else 28)
  else if month = 4 || month = 6 || month = 9 || month = 11 then 30
  else 31

def day? (text : List Char) : Option (List Char × List Char) := do
  let (century, rest) ← pair? 0 99 text
  let (year, rest) ← pair? 0 99 rest
  let (month, rest) ← pair? 1 12 (← expect? '-' rest)
  let days := daysIn (Decimal.ofDigits (century ++ year)) (Decimal.ofDigits month)
  let (day, rest) ← pair? 1 days (← expect? '-' rest)
  return (century ++ year ++ '-' :: month ++ '-' :: day, rest)

def date? (text : List Char) : Option (List Char × List Char) :=
  match day? text with
  | none => time? text
  | some (day, rest) =>
    let timed := match rest with
      | c :: r => if c = 'T' || c = 't' || c = ' ' then time? r else none
      | [] => none
    match timed with
    | none => some (day, rest)
    | some (clock, rest) =>
      let (offset, rest) := (offset? rest).getD ([], rest)
      some (day ++ 'T' :: clock ++ offset, rest)

end CodeAtlas.Toml
