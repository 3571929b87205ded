import CodeAtlas.Proofs.Scalar.Laws

/-! Roots, powers and exponentials in exact arithmetic. A square root is the one that is not
negative; of powers and exponentials no more is known than that they grow with their argument, and
where they start. -/

namespace CodeAtlas.Scalar

section
variable (K : Type) [Field K] [LinearOrder K] [CurvedFunctions K]

class ExactRoots : Prop where
  sqrt_nonneg : ∀ x : K, 0 ≤ x → 0 ≤ sqrt x
  sqrt_mul_self : ∀ x : K, 0 ≤ x → sqrt x * sqrt x = x

class GrowingPowers : Prop where
  zero_pow : ∀ power : K, 0 < power → pow 0 power = 0
  pow_lt_pow : ∀ power x y : K, 0 < power → 0 ≤ x → x < y → pow x power < pow y power

class GrowingExponential : Prop where
  exp_pos : ∀ x : K, 0 < exp x
  exp_lt_exp : ∀ x y : K, x < y → exp x < exp y

end

variable {K : Type} [Field K] [LinearOrder K] [CurvedFunctions K]

theorem isZero_iff {x : K} : isZero x = true ↔ x = 0 := by
  rw [isZero, Bool.and_eq_true, le_iff, le_iff, le_antisymm_iff]

section
variable [IsStrictOrderedRing K] [ExactRoots K]

theorem sqrt_eq_of_mul_self {x y : K} (hy : 0 ≤ y) (hxy : y * y = x) : sqrt x = y := by
  have hx : 0 ≤ x := hxy ▸ mul_self_nonneg y
  have hsquares : sqrt x * sqrt x = y * y := (ExactRoots.sqrt_mul_self x hx).trans hxy.symm
  exact (mul_self_inj_of_nonneg (ExactRoots.sqrt_nonneg x hx) hy).1 hsquares

theorem sqrt_eq_zero_iff {x : K} (hx : 0 ≤ x) : sqrt x = 0 ↔ x = 0 := by
  constructor
  · intro h
    have hsquare : sqrt x * sqrt x = x := ExactRoots.sqrt_mul_self x hx
    rw [← hsquare, h, mul_zero]
  · rintro rfl
    exact sqrt_eq_of_mul_self le_rfl (mul_zero 0)

theorem sqrt_sq_mul {a x : K} (ha : 0 ≤ a) (hx : 0 ≤ x) : sqrt (a * a * x) = a * sqrt x := by
  have hsquare : sqrt x * sqrt x = x := ExactRoots.sqrt_mul_self x hx
  apply sqrt_eq_of_mul_self (mul_nonneg ha (ExactRoots.sqrt_nonneg x hx))
  rw [mul_mul_mul_comm, hsquare]

end

section
variable [GrowingPowers K] {power x y : K}

theorem pow_lt_pow_iff (hpower : 0 < power) (hx : 0 ≤ x) (hy : 0 ≤ y) :
    pow x power < pow y power ↔ x < y := by
  constructor
  · intro h
    by_contra hyx
    rcases (not_lt.1 hyx).eq_or_lt with rfl | hlt
    · exact lt_irrefl _ h
    · exact lt_asymm h (GrowingPowers.pow_lt_pow power y x hpower hy hlt)
  · exact GrowingPowers.pow_lt_pow power x y hpower hx

end

/-! ### Sums without negative terms -/

section
variable [IsStrictOrderedRing K] {f : K → K}

theorem sum_map_nonneg (hf : ∀ x, 0 ≤ f x) (xs : List K) : 0 ≤ (xs.map f).sum := by
  apply List.sum_nonneg
  exact List.forall_mem_map.2 fun x _ => hf x

theorem sum_map_eq_zero_iff (hf : ∀ x, 0 ≤ f x) {xs : List K} :
    (xs.map f).sum = 0 ↔ ∀ x ∈ xs, f x = 0 := by
  have hterms : ∀ y ∈ xs.map f, 0 ≤ y := List.forall_mem_map.2 fun x _ => hf x
  constructor
  · intro h x hx
    exact List.all_zero_of_le_zero_le_of_sum_eq_zero hterms h (List.mem_map_of_mem hx)
  · exact fun h => List.sum_eq_zero (List.forall_mem_map.2 h)

end

/-! ### Real numbers -/

instance : ExactRoots ℝ where
  sqrt_nonneg x _ := Real.sqrt_nonneg x
  sqrt_mul_self _ hx := Real.mul_self_sqrt hx

instance : GrowingPowers ℝ where
  zero_pow _ hpower := Real.zero_rpow hpower.ne'
  pow_lt_pow _ _ _ hpower hx hxy := Real.rpow_lt_rpow hx hxy hpower

instance : GrowingExponential ℝ where
  exp_pos := Real.exp_pos
  exp_lt_exp _ _ := Real.exp_lt_exp.2

end CodeAtlas.Scalar
