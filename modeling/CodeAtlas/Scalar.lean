/-! The numbers of ranking and scoring. The formulas are written over any type with these
operations; the program runs them on double precision floats. -/

namespace CodeAtlas

class Scalar (α : Type) extends Zero α, One α, Add α, Sub α, Mul α, Div α where
  /-- Adding it changes nothing: for floats this is negative zero. -/
  neutral : α
  ofNat : Nat → α
  lt : α → α → Bool
  le : α → α → Bool
  /-- A total order that agrees with `lt` where no float is special. -/
  totalLe : α → α → Bool
  isFinite : α → Bool
  /-- The larger of two; what is not a number gives way. -/
  max : α → α → α
  min : α → α → α
  abs : α → α
  sqrt : α → α
  exp : α → α
  pow : α → α → α

namespace Scalar

variable {α : Type} [Scalar α]

def sum (xs : List α) : α := xs.foldl (· + ·) neutral

def isZero (x : α) : Bool := le x 0 && le 0 x

def maximum : List α → α
  | [] => 0
  | x :: rest => rest.foldl max x

def minimum : List α → α
  | [] => 0
  | x :: rest => rest.foldl min x

/-- Position of a float in the total order: negative ones below positive ones, by magnitude. -/
def rankOfFloat (x : Float) : Int :=
  let bits := x.toBits.toNat
  if bits < UInt64.size / 2 then bits else (UInt64.size / 2 : Nat) - 1 - (bits : Int)

instance : Scalar Float where
  neutral := -0.0
  ofNat := Float.ofNat
  lt x y := x < y
  le x y := x ≤ y
  totalLe x y := rankOfFloat x ≤ rankOfFloat y
  isFinite := Float.isFinite
  max x y := if x.isNaN then y else if y.isNaN then x else if x < y then y else x
  min x y := if x.isNaN then y else if y.isNaN then x else if y < x then y else x
  abs := Float.abs
  sqrt := Float.sqrt
  exp := Float.exp
  pow := Float.pow

end Scalar

end CodeAtlas
