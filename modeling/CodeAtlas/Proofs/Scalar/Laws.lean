import CodeAtlas.Proofs.Scalar.Exact
import CodeAtlas.Scalar.Signed
import Mathlib.Analysis.SpecialFunctions.Pow.Real

/-! What ranking and scoring rely on. Floats have a total order and a zero that adds nothing to
itself; exact arithmetic has in addition that equal values are their own mean and do not deviate
from it. -/

namespace CodeAtlas

namespace Scalar

class Lawful (α : Type) [Scalar α] : Prop where
  totalLe_total : ∀ x y : α, totalLe x y || totalLe y x
  totalLe_trans : ∀ x y z : α, totalLe x y → totalLe y z → totalLe x z
  neutral_add_zero : (neutral : α) + 0 = 0
  zero_add_zero : (0 : α) + 0 = 0
  le_zero_zero : le (0 : α) 0
  lt_zero_zero : lt (0 : α) 0 = false
  isFinite_zero : isFinite (0 : α)

/-- Arithmetic without rounding, as far as equal values go. -/
class Exact (α : Type) [Scalar α] : Prop extends Lawful α where
  mean_replicate : ∀ (n : Nat) (x : α), n ≠ 0 → sum (List.replicate n x) / ofNat n = x
  sub_self : ∀ x : α, x - x = 0
  zero_mul_zero : (0 : α) * 0 = 0
  sqrt_zero : sqrt (0 : α) = 0

section
variable {α : Type} [Scalar α] [Lawful α]

theorem sum_replicate_zero {n : Nat} (hn : n ≠ 0) : sum (List.replicate n (0 : α)) = 0 := by
  have hfold : ∀ k, (List.replicate k (0 : α)).foldl (· + ·) 0 = 0 := by
    intro k
    induction k with
    | zero => rfl
    | succ k ih => rw [List.replicate_succ, List.foldl_cons, Lawful.zero_add_zero, ih]
  cases n with
  | zero => exact absurd rfl hn
  | succ n => rw [sum, List.replicate_succ, List.foldl_cons, Lawful.neutral_add_zero, hfold]

end

/-! ### Floats -/

instance : Lawful Float where
  totalLe_total x y := by
    rw [Bool.or_eq_true]
    exact (Int.le_total (rankOfFloat x) (rankOfFloat y)).imp decide_eq_true decide_eq_true
  totalLe_trans x y z hxy hyz :=
    decide_eq_true (Int.le_trans (of_decide_eq_true hxy) (of_decide_eq_true hyz))
  neutral_add_zero := by decide
  zero_add_zero := by decide
  le_zero_zero := by decide
  lt_zero_zero := by decide
  isFinite_zero := by decide

instance : Lawful SignedFloat where
  totalLe_total x y := by
    rw [Bool.or_eq_true]
    exact (Int.le_total x.position y.position).imp decide_eq_true decide_eq_true
  totalLe_trans x y z hxy hyz :=
    decide_eq_true (Int.le_trans (of_decide_eq_true hxy) (of_decide_eq_true hyz))
  neutral_add_zero := by rfl
  zero_add_zero := by rfl
  le_zero_zero := by decide
  lt_zero_zero := by decide
  isFinite_zero := by decide

/-! ### Ordered fields -/

section
variable {K : Type} [Field K] [LinearOrder K] [CurvedFunctions K]

instance : Lawful K where
  totalLe_total x y := by
    rw [Bool.or_eq_true]
    exact (le_total x y).imp decide_eq_true decide_eq_true
  totalLe_trans x y z hxy hyz :=
    decide_eq_true ((of_decide_eq_true hxy).trans (of_decide_eq_true hyz))
  neutral_add_zero := add_zero 0
  zero_add_zero := add_zero 0
  le_zero_zero := by simp
  lt_zero_zero := by simp
  isFinite_zero := rfl

theorem exact_of_sqrt_zero [IsStrictOrderedRing K] (hsqrt : CurvedFunctions.sqrt (0 : K) = 0) :
    Exact K where
  mean_replicate n x hn := by
    rw [sum_eq, List.sum_replicate, ofNat_eq, nsmul_eq_mul,
      mul_div_cancel_left₀ x (Nat.cast_ne_zero.2 hn)]
  sub_self x := by rw [sub_eq_zero]
  zero_mul_zero := mul_zero 0
  sqrt_zero := hsqrt

end

end Scalar

noncomputable instance : CurvedFunctions ℝ := ⟨Real.sqrt, Real.exp, Real.rpow⟩

instance : Scalar.Exact ℝ := Scalar.exact_of_sqrt_zero Real.sqrt_zero

instance : Scalar.Exact ℚ := Scalar.exact_of_sqrt_zero rfl

end CodeAtlas
