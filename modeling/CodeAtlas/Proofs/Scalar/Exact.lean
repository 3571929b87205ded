import Mathlib.Algebra.BigOperators.Group.List.Basic
import Mathlib.Algebra.Order.Field.Basic
import Mathlib.Data.Rat.Defs
import CodeAtlas.Scalar

/-! Exact arithmetic: the numbers of ranking and scoring taken from an ordered field, where sums do
not depend on their order and every number is finite. -/

namespace CodeAtlas

/-- Functions whose values may leave the field that their arguments come from. -/
class CurvedFunctions (K : Type) where
  sqrt : K → K
  exp : K → K
  pow : K → K → K

/-- For formulas over the rationals that use none of them. -/
instance : CurvedFunctions ℚ := ⟨fun _ => 0, fun _ => 0, fun _ _ => 0⟩

namespace Scalar

variable {K : Type} [Field K] [LinearOrder K] [CurvedFunctions K]

instance exact : Scalar K where
  neutral := 0
  ofNat n := n
  lt x y := decide (x < y)
  le x y := decide (x ≤ y)
  totalLe x y := decide (x ≤ y)
  isFinite _ := true
  max x y := x ⊔ y
  min x y := x ⊓ y
  abs x := |x|
  sqrt := CurvedFunctions.sqrt
  exp := CurvedFunctions.exp
  pow := CurvedFunctions.pow

@[simp] theorem neutral_eq : (neutral : K) = 0 := rfl

@[simp] theorem ofNat_eq (n : Nat) : (ofNat n : K) = n := rfl

@[simp] theorem lt_eq (x y : K) : lt x y = decide (x < y) := rfl

@[simp] theorem le_eq (x y : K) : le x y = decide (x ≤ y) := rfl

theorem lt_iff {x y : K} : lt x y = true ↔ x < y := decide_eq_true_iff

theorem le_iff {x y : K} : le x y = true ↔ x ≤ y := decide_eq_true_iff

@[simp] theorem isFinite_eq (x : K) : isFinite x = true := rfl

@[simp] theorem abs_eq (x : K) : abs x = |x| := rfl

@[simp] theorem sum_eq (xs : List K) : sum xs = xs.sum := List.sum_eq_foldl.symm

end Scalar

end CodeAtlas
