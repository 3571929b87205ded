import Mathlib.Data.List.FinRange
import Mathlib.Tactic.Ring
import CodeAtlas.Embedding.Similarity
import CodeAtlas.Proofs.Scalar.Curved

/-! Scores in standard deviations. In exact arithmetic what becomes of a value depends on the
others by their lowest and by how far they are spread, so that neither their order nor their unit
matters. -/

namespace CodeAtlas

namespace Scalar
variable {K : Type} [Field K] [LinearOrder K] [CurvedFunctions K]

theorem min?_eq_some_minimum {values : List K} (hne : values ≠ []) :
    values.min? = some (minimum values) := by
  cases values with
  | nil => exact absurd rfl hne
  | cons x rest => exact List.min?_cons'

variable {values : List K} {v : K}

theorem minimum_mem (hne : values ≠ []) : minimum values ∈ values :=
  (List.min?_eq_some_iff.1 (min?_eq_some_minimum hne)).1

theorem minimum_le (hv : v ∈ values) : minimum values ≤ v :=
  (List.min?_eq_some_iff.1 (min?_eq_some_minimum (List.ne_nil_of_mem hv))).2 v hv

theorem minimum_eq (hv : v ∈ values) (hle : ∀ w ∈ values, v ≤ w) : minimum values = v :=
  le_antisymm (minimum_le hv) (hle _ (minimum_mem (List.ne_nil_of_mem hv)))

theorem minimum_map {f : K → K} (hf : Monotone f) (hne : values ≠ []) :
    minimum (values.map f) = f (minimum values) := by
  apply minimum_eq (List.mem_map_of_mem (minimum_mem hne))
  intro w hw
  obtain ⟨v, hv, rfl⟩ := List.mem_map.1 hw
  exact hf (minimum_le hv)

theorem minimum_perm {values' : List K} (h : values'.Perm values) :
    minimum values' = minimum values := by
  by_cases hne : values = []
  · rw [hne] at h ⊢
    rw [h.eq_nil]
  · apply minimum_eq (h.mem_iff.2 (minimum_mem hne))
    exact fun w hw => minimum_le (h.mem_iff.1 hw)

end Scalar

namespace Similarity
open Scalar

variable {K : Type} [Field K] [LinearOrder K] [CurvedFunctions K] {values values' : List K}
  {power a b v w : K}

/-! ### Mean and spread -/

def mean (values : List K) : K := values.sum / values.length

def variance (values : List K) : K :=
  (values.map fun v => (v - mean values) * (v - mean values)).sum / values.length

def standing (values : List K) (power v : K) : K :=
  if sqrt (variance values) = 0 then 0
    else pow ((v - minimum values) / sqrt (variance values)) power

theorem mean_perm (h : values'.Perm values) : mean values' = mean values := by
  rw [mean, mean, h.sum_eq, h.length_eq]

theorem variance_perm (h : values'.Perm values) : variance values' = variance values := by
  rw [variance, variance, mean_perm h, (h.map _).sum_eq, h.length_eq]

theorem standing_perm (h : values'.Perm values) :
    standing values' power = standing values power := by
  funext v
  rw [standing, standing, variance_perm h, minimum_perm h]

theorem standing_minimum [GrowingPowers K] (hpower : 0 < power) (values : List K) :
    standing values power (minimum values) = 0 := by
  rw [standing]
  split
  · rfl
  · rw [sub_self, zero_div, GrowingPowers.zero_pow power hpower]

variable [IsStrictOrderedRing K]

theorem length_ne_zero (hne : values ≠ []) : (values.length : K) ≠ 0 :=
  Nat.cast_ne_zero.2 fun h => hne (List.eq_nil_of_length_eq_zero h)

theorem mean_affine (hne : values ≠ []) :
    mean (values.map fun v => a * v + b) = a * mean values + b := by
  have hsum : (values.map fun v => a * v + b).sum = a * values.sum + values.length * b := by
    rw [List.sum_map_add, List.sum_map_mul_left, List.map_id', List.map_const', List.sum_replicate,
      nsmul_eq_mul]
  rw [mean, mean, hsum, List.length_map, add_div, mul_div_assoc,
    mul_div_cancel_left₀ b (length_ne_zero hne)]

theorem variance_affine (hne : values ≠ []) :
    variance (values.map fun v => a * v + b) = a * a * variance values := by
  have hsquare : ∀ v, (a * v + b - (a * mean values + b)) * (a * v + b - (a * mean values + b)) =
      a * a * ((v - mean values) * (v - mean values)) := by
    intro v
    ring
  rw [variance, variance, mean_affine hne, List.map_map, List.length_map, ← mul_div_assoc,
    ← List.sum_map_mul_left]
  simp only [Function.comp_def, hsquare]

theorem variance_nonneg (values : List K) : 0 ≤ variance values := by
  apply div_nonneg _ (Nat.cast_nonneg _)
  exact sum_map_nonneg (fun v => mul_self_nonneg (v - mean values)) values

theorem eq_mean_of_variance (h : variance values = 0) (hv : v ∈ values) : v = mean values := by
  have hsum : (values.map fun v => (v - mean values) * (v - mean values)).sum = 0 :=
    (div_eq_zero_iff.1 h).resolve_right (length_ne_zero (List.ne_nil_of_mem hv))
  have hsquare := (sum_map_eq_zero_iff fun v => mul_self_nonneg (v - mean values)).1 hsum v hv
  exact sub_eq_zero.1 (mul_self_eq_zero.1 hsquare)

variable [ExactRoots K]

theorem shiftedZScore_eq (values : List K) (power : K) :
    shiftedZScore values power = values.map (standing values power) := by
  have hmean : Scalar.sum values / Scalar.ofNat values.length = mean values := by
    rw [sum_eq, ofNat_eq, mean]
  have hvariance : Scalar.sum (values.map fun v => (v - mean values) * (v - mean values)) /
      Scalar.ofNat values.length = variance values := by rw [sum_eq, ofNat_eq, variance]
  have hzero : isZero (sqrt (variance values)) = decide (sqrt (variance values) = 0) := by
    rw [Bool.eq_iff_iff, isZero_iff, decide_eq_true_iff]
  simp only [shiftedZScore, hmean, hvariance, hzero, isFinite_eq, Bool.not_true, Bool.or_false,
    decide_eq_true_iff]
  by_cases hspread : sqrt (variance values) = 0
  · rw [if_pos hspread]
    refine List.map_congr_left fun v _ => ?_
    rw [standing, if_pos hspread]
  · rw [if_neg hspread, List.map_map]
    refine List.map_congr_left fun v hv => ?_
    have hmono : Monotone fun v => (v - mean values) / sqrt (variance values) := by
      intro v w hvw
      have hroot : 0 ≤ sqrt (variance values) := ExactRoots.sqrt_nonneg _ (variance_nonneg values)
      exact div_le_div_of_nonneg_right (sub_le_sub_right hvw _) hroot
    have hlowest := minimum_map hmono (List.ne_nil_of_mem hv)
    rw [standing, if_neg hspread, hlowest, Function.comp_apply, ← sub_div, sub_sub_sub_cancel_right]

theorem mem_zip_shiftedZScore {e : K × K} (he : e ∈ values.zip (shiftedZScore values power)) :
    e.1 ∈ values ∧ e.2 = standing values power e.1 := by
  rw [shiftedZScore_eq, ← List.map_prod_left_eq_zip] at he
  obtain ⟨v, hv, rfl⟩ := List.mem_map.1 he
  exact ⟨hv, rfl⟩

theorem standing_affine (ha : 0 < a) (hv : v ∈ values) :
    standing (values.map fun v => a * v + b) power (a * v + b) = standing values power v := by
  have hne := List.ne_nil_of_mem hv
  have hmono : Monotone fun v => a * v + b := by
    intro v w hvw
    exact add_le_add_left (mul_le_mul_of_nonneg_left hvw ha.le) b
  have hroot : sqrt (variance (values.map fun v => a * v + b)) = a * sqrt (variance values) := by
    rw [variance_affine hne, sqrt_sq_mul ha.le (variance_nonneg values)]
  have hexcess : (a * v + b - (a * minimum values + b)) / (a * sqrt (variance values)) =
      (v - minimum values) / sqrt (variance values) := by
    rw [add_sub_add_right_eq_sub, ← mul_sub, mul_div_mul_left _ _ ha.ne']
  simp only [standing, hroot, minimum_map hmono hne, hexcess, mul_eq_zero, ha.ne', false_or]

/-! ### Order -/

theorem excess_nonneg (hv : v ∈ values) : 0 ≤ (v - minimum values) / sqrt (variance values) :=
  div_nonneg (sub_nonneg.2 (minimum_le hv)) (ExactRoots.sqrt_nonneg _ (variance_nonneg values))

variable [GrowingPowers K]

theorem standing_lt_iff (hpower : 0 < power) (hv : v ∈ values) (hw : w ∈ values) :
    standing values power v < standing values power w ↔ v < w := by
  by_cases hspread : sqrt (variance values) = 0
  · have hvariance := (sqrt_eq_zero_iff (variance_nonneg values)).1 hspread
    have heq : v = w :=
      (eq_mean_of_variance hvariance hv).trans (eq_mean_of_variance hvariance hw).symm
    rw [heq]
    exact iff_of_false (lt_irrefl _) (lt_irrefl _)
  · have hpos : 0 < sqrt (variance values) :=
      lt_of_le_of_ne (ExactRoots.sqrt_nonneg _ (variance_nonneg values)) (Ne.symm hspread)
    rw [standing, standing, if_neg hspread, if_neg hspread,
      pow_lt_pow_iff hpower (excess_nonneg hv) (excess_nonneg hw), div_lt_div_iff_of_pos_right hpos,
      sub_lt_sub_iff_right]

theorem standing_nonneg (hpower : 0 < power) (hv : v ∈ values) : 0 ≤ standing values power v := by
  have hmem := minimum_mem (List.ne_nil_of_mem hv)
  rw [← standing_minimum hpower values]
  by_contra hlt
  exact not_lt.2 (minimum_le hv) ((standing_lt_iff hpower hv hmem).1 (not_le.1 hlt))

theorem standing_eq_zero_iff (hpower : 0 < power) (hv : v ∈ values) :
    standing values power v = 0 ↔ ∀ w ∈ values, v ≤ w := by
  constructor
  · intro h w hw
    by_contra hwv
    have hlt := (standing_lt_iff hpower hw hv).2 (not_le.1 hwv)
    rw [h] at hlt
    exact not_le.2 hlt (standing_nonneg hpower hw)
  · intro h
    rw [← minimum_eq hv h, standing_minimum hpower]

/-! ### Whole lists -/

/-- What standardizing makes of values, place by place: none is below zero, the lowest ones are
zero, and they are ordered as the values are. Values in another order have it in that order, and
another scale changes nothing. -/
structure ShiftsFromLowest (power : K) (values : List K) : Prop where
  length_eq : (shiftedZScore values power).length = values.length
  nonneg : ∀ x ∈ shiftedZScore values power, 0 ≤ x
  eq_zero_iff : ∀ e ∈ values.zip (shiftedZScore values power), e.2 = 0 ↔ ∀ w ∈ values, e.1 ≤ w
  lt_iff : ∀ e ∈ values.zip (shiftedZScore values power),
    ∀ e' ∈ values.zip (shiftedZScore values power),
    e.2 < e'.2 ↔ e.1 < e'.1
  eq_iff : ∀ e ∈ values.zip (shiftedZScore values power),
    ∀ e' ∈ values.zip (shiftedZScore values power),
    e.2 = e'.2 ↔ e.1 = e'.1
  permuted : ∀ (σ : Equiv.Perm (Fin values.length)) (i : Fin values.length),
    (shiftedZScore (List.ofFn fun j => values.get (σ j)) power)[i.val]? =
      (shiftedZScore values power)[(σ i).val]?
  affine : ∀ a b : K, 0 < a → shiftedZScore (values.map fun v => a * v + b) power =
    shiftedZScore values power

theorem shiftsFromLowest (hpower : 0 < power) (values : List K) :
    ShiftsFromLowest power values := by
  have hlt : ∀ e ∈ values.zip (shiftedZScore values power),
      ∀ e' ∈ values.zip (shiftedZScore values power),
      e.2 < e'.2 ↔ e.1 < e'.1 := by
    intro e he e' he'
    obtain ⟨hv, hx⟩ := mem_zip_shiftedZScore he
    obtain ⟨hv', hx'⟩ := mem_zip_shiftedZScore he'
    rw [hx, hx', standing_lt_iff hpower hv hv']
  constructor
  · rw [shiftedZScore_eq, List.length_map]
  · intro x hx
    rw [shiftedZScore_eq] at hx
    obtain ⟨v, hv, rfl⟩ := List.mem_map.1 hx
    exact standing_nonneg hpower hv
  · intro e he
    obtain ⟨hv, hx⟩ := mem_zip_shiftedZScore he
    rw [hx, standing_eq_zero_iff hpower hv]
  · exact hlt
  · intro e he e' he'
    rw [eq_iff_le_not_lt, eq_iff_le_not_lt, hlt e he e' he', ← not_lt, ← not_lt, hlt e' he' e he]
  · intro σ i
    have hperm : (List.ofFn fun j => values.get (σ j)).Perm values := by
      have hcomp := Equiv.Perm.ofFn_comp_perm σ values.get
      rwa [List.ofFn_get] at hcomp
    rw [shiftedZScore_eq, shiftedZScore_eq, standing_perm hperm, List.getElem?_map,
      List.getElem?_map]
    simp
  · intro a b ha
    rw [shiftedZScore_eq, shiftedZScore_eq, List.map_map]
    exact List.map_congr_left fun v hv => standing_affine ha hv

end Similarity
end CodeAtlas
