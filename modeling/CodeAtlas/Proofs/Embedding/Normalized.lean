import Mathlib.Algebra.Order.BigOperators.Ring.Finset
import CodeAtlas.Embedding.Similarity
import CodeAtlas.Proofs.Scalar.Curved

/-! Dot products of scaled vectors. In exact arithmetic the two magnitudes bound the dot product and
grow with the vectors, so that the quotient stays between minus one and one, and does not change
with their lengths. -/

namespace CodeAtlas.Similarity
open Scalar

variable {K : Type} [Field K] [LinearOrder K] [CurvedFunctions K] {u v : List K}

theorem dot_eq (u v : List K) : dot u v = ((u.zip v).map fun p => p.1 * p.2).sum := sum_eq _

theorem dot_cons (a b : K) (u v : List K) : dot (a :: u) (b :: v) = a * b + dot u v := by
  rw [dot_eq, dot_eq, List.zip_cons_cons, List.map_cons, List.sum_cons]

theorem dot_nil_left (v : List K) :
    dot [] v = 0 := by rw [dot_eq, List.zip_nil_left, List.map_nil, List.sum_nil]

theorem dot_nil_right (u : List K) :
    dot u [] = 0 := by rw [dot_eq, List.zip_nil_right, List.map_nil, List.sum_nil]

theorem dot_scaled (c d : K) (u v : List K) :
    dot (u.map (c * ·)) (v.map (d * ·)) = c * d * dot u v := by
  induction u generalizing v with
  | nil => rw [List.map_nil, dot_nil_left, dot_nil_left, mul_zero]
  | cons a u ih =>
    cases v with
    | nil => rw [List.map_nil, dot_nil_right, dot_nil_right, mul_zero]
    | cons b v =>
      rw [List.map_cons, List.map_cons, dot_cons, dot_cons, ih, mul_add, mul_mul_mul_comm]

/-- A way to tell how long a vector is. -/
structure IsMagnitude (size : List K → K) : Prop where
  nonneg : ∀ v, 0 ≤ size v
  eq_zero_iff : ∀ v, size v = 0 ↔ ∀ a ∈ v, a = 0
  scaled : ∀ c v, 0 < c → size (v.map (c * ·)) = c * size v
  abs_dot_le : ∀ u v : List K, u.length = v.length → |dot u v| ≤ size u * size v

section
variable {size : List K → K}

theorem normalize_eq (hsize : IsMagnitude size) (v : List K) :
    normalize size v = v.map ((size v)⁻¹ * ·) := by
  have hquotient : (· / size v) = fun a => (size v)⁻¹ * a := by
    funext a
    rw [div_eq_mul_inv, mul_comm]
  rw [normalize]
  simp only [isZero_iff, hquotient]
  split
  · rename_i hzero
    have hsame : v.map ((size v)⁻¹ * ·) = v.map id := by
      refine List.map_congr_left fun a ha => ?_
      rw [(hsize.eq_zero_iff v).1 hzero a ha, mul_zero, id]
    rw [hsame, List.map_id]
  · rfl

theorem dot_normalize (hsize : IsMagnitude size) (u v : List K) :
    dot (normalize size u) (normalize size v) = (size u)⁻¹ * (size v)⁻¹ * dot u v := by
  rw [normalize_eq hsize, normalize_eq hsize, dot_scaled]

theorem dot_normalize_eq_zero (hsize : IsMagnitude size) (h : (∀ a ∈ u, a = 0) ∨ ∀ b ∈ v, b = 0) :
    dot (normalize size u) (normalize size v) = 0 := by
  rw [dot_normalize hsize]
  rcases h with hu | hv
  · rw [(hsize.eq_zero_iff u).2 hu, inv_zero, zero_mul, zero_mul]
  · rw [(hsize.eq_zero_iff v).2 hv, inv_zero, mul_zero, zero_mul]

theorem dot_normalize_scaled (hsize : IsMagnitude size) {c d : K} (hc : 0 < c) (hd : 0 < d)
    (u v : List K) :
    dot (normalize size (u.map (c * ·))) (normalize size (v.map (d * ·))) =
      dot (normalize size u) (normalize size v) := by
  have hcancel : (c * size u)⁻¹ * (d * size v)⁻¹ * (c * d * dot u v) =
      (size u)⁻¹ * (size v)⁻¹ * dot u v := by
    field_simp [hc.ne', hd.ne']
  rw [dot_normalize hsize, dot_normalize hsize, dot_scaled, hsize.scaled c u hc,
    hsize.scaled d v hd, hcancel]

theorem abs_dot_normalize_le [IsStrictOrderedRing K] (hsize : IsMagnitude size)
    (h : u.length = v.length) :
    |dot (normalize size u) (normalize size v)| ≤ 1 := by
  have hnonneg : 0 ≤ size u * size v := mul_nonneg (hsize.nonneg u) (hsize.nonneg v)
  rw [dot_normalize hsize, ← mul_inv, abs_mul, abs_inv, abs_of_nonneg hnonneg, inv_mul_eq_div]
  exact div_le_one_of_le₀ (hsize.abs_dot_le u v h) hnonneg

end

/-! ### The two magnitudes -/

theorem absoluteSum_eq (v : List K) : absoluteSum v = (v.map fun a => |a|).sum := sum_eq _

theorem absoluteSum_cons (a : K) (v : List K) : absoluteSum (a :: v) = |a| + absoluteSum v := by
  rw [absoluteSum_eq, absoluteSum_eq, List.map_cons, List.sum_cons]

theorem euclidean_eq (v : List K) :
    euclidean v = sqrt (v.map fun a => a * a).sum := congrArg sqrt (sum_eq _)

variable [IsStrictOrderedRing K]

theorem absoluteSum_nonneg (v : List K) : 0 ≤ absoluteSum v := by
  rw [absoluteSum_eq]
  exact sum_map_nonneg abs_nonneg v

theorem abs_dot_le_absoluteSum (u v : List K) : |dot u v| ≤ absoluteSum u * absoluteSum v := by
  induction u generalizing v with
  | nil =>
    rw [dot_nil_left, abs_zero]
    exact mul_nonneg (absoluteSum_nonneg []) (absoluteSum_nonneg v)
  | cons a u ih =>
    cases v with
    | nil =>
      rw [dot_nil_right, abs_zero]
      exact mul_nonneg (absoluteSum_nonneg _) (absoluteSum_nonneg [])
    | cons b v =>
      have hleft : 0 ≤ |a| * absoluteSum v := mul_nonneg (abs_nonneg a) (absoluteSum_nonneg v)
      have hright : 0 ≤ absoluteSum u * |b| := mul_nonneg (absoluteSum_nonneg u) (abs_nonneg b)
      calc |dot (a :: u) (b :: v)|
          = |a * b + dot u v| := by rw [dot_cons]
        _ ≤ |a * b| + |dot u v| := abs_add_le _ _
        _ ≤ |a| * |b| + absoluteSum u * absoluteSum v := add_le_add (abs_mul a b).le (ih v)
        _ ≤ (|a| + absoluteSum u) * (|b| + absoluteSum v) := by linarith
        _ = absoluteSum (a :: u) * absoluteSum (b :: v) := by
          rw [absoluteSum_cons, absoluteSum_cons]

theorem absoluteSum_isMagnitude : IsMagnitude (absoluteSum : List K → K) := by
  constructor
  · exact absoluteSum_nonneg
  · intro v
    rw [absoluteSum_eq, sum_map_eq_zero_iff abs_nonneg]
    simp only [abs_eq_zero]
  · intro c v hc
    rw [absoluteSum_eq, absoluteSum_eq, List.map_map, ← List.sum_map_mul_left]
    simp only [Function.comp_def, abs_mul, abs_of_pos hc]
  · exact fun u v _ => abs_dot_le_absoluteSum u v

theorem sum_mul_mul_self_le (pairs : List (K × K)) :
    (pairs.map fun p => p.1 * p.2).sum * (pairs.map fun p => p.1 * p.2).sum ≤
      (pairs.map fun p => p.1 * p.1).sum * (pairs.map fun p => p.2 * p.2).sum := by
  have hbound := Finset.sum_mul_sq_le_sq_mul_sq Finset.univ
    (fun i : Fin pairs.length => pairs[i.val].1) fun i => pairs[i.val].2
  simp only [sq] at hbound
  rwa [Fin.sum_univ_fun_getElem pairs fun p => p.1 * p.2,
    Fin.sum_univ_fun_getElem pairs fun p => p.1 * p.1,
    Fin.sum_univ_fun_getElem pairs fun p => p.2 * p.2] at hbound

theorem dot_mul_self_le (h : u.length = v.length) :
    dot u v * dot u v ≤ (u.map fun a => a * a).sum * (v.map fun a => a * a).sum := by
  have hbound := sum_mul_mul_self_le (u.zip v)
  have hfst : (u.zip v).map (fun p => p.1 * p.1) = u.map fun a => a * a := by
    rw [← List.map_fst_zip h.le, List.map_map, List.map_fst_zip h.le]
    rfl
  have hsnd : (u.zip v).map (fun p => p.2 * p.2) = v.map fun a => a * a := by
    rw [← List.map_snd_zip h.ge, List.map_map, List.map_snd_zip h.ge]
    rfl
  rwa [hfst, hsnd, ← dot_eq] at hbound

theorem euclidean_isMagnitude [ExactRoots K] : IsMagnitude (euclidean : List K → K) := by
  have hsquares (v : List K) : 0 ≤ (v.map fun a => a * a).sum := sum_map_nonneg mul_self_nonneg v
  have hnonneg (v : List K) : 0 ≤ euclidean v := by
    rw [euclidean_eq]
    exact ExactRoots.sqrt_nonneg _ (hsquares v)
  constructor
  · exact hnonneg
  · intro v
    rw [euclidean_eq, sqrt_eq_zero_iff (hsquares v), sum_map_eq_zero_iff mul_self_nonneg]
    simp only [mul_self_eq_zero]
  · intro c v hc
    have hscaled : ((v.map (c * ·)).map fun a => a * a).sum =
        c * c * (v.map fun a => a * a).sum := by
      rw [List.map_map, ← List.sum_map_mul_left]
      simp only [Function.comp_def, mul_mul_mul_comm]
    rw [euclidean_eq, euclidean_eq, hscaled, sqrt_sq_mul hc.le (hsquares v)]
  · intro u v h
    have hroot (w : List K) : euclidean w * euclidean w = (w.map fun a => a * a).sum := by
      rw [euclidean_eq]
      exact ExactRoots.sqrt_mul_self _ (hsquares w)
    apply abs_le_of_sq_le_sq _ (mul_nonneg (hnonneg u) (hnonneg v))
    rw [sq, sq, mul_mul_mul_comm, hroot, hroot]
    exact dot_mul_self_le h

/-! ### Raw scores -/

variable [ExactRoots K] {norm : Norm}

theorem exists_raw_eq (h : norm ≠ .softmax) : ∃ size : List K → K, IsMagnitude size ∧
    ∀ u v, raw norm u v = dot (normalize size u) (normalize size v) := by
  cases norm with
  | l1 => exact ⟨absoluteSum, absoluteSum_isMagnitude, fun _ _ => rfl⟩
  | l2 => exact ⟨euclidean, euclidean_isMagnitude, fun _ _ => rfl⟩
  | softmax => exact absurd rfl h

theorem abs_raw_le (h : norm ≠ .softmax) (hlength : u.length = v.length) : |raw norm u v| ≤ 1 := by
  obtain ⟨size, hsize, hraw⟩ := exists_raw_eq (K := K) h
  rw [hraw]
  exact abs_dot_normalize_le hsize hlength

theorem raw_eq_zero (h : norm ≠ .softmax) (hzero : (∀ a ∈ u, a = 0) ∨ ∀ b ∈ v, b = 0) :
    raw norm u v = 0 := by
  obtain ⟨size, hsize, hraw⟩ := exists_raw_eq (K := K) h
  rw [hraw]
  exact dot_normalize_eq_zero hsize hzero

theorem raw_scaled (h : norm ≠ .softmax) {c d : K} (hc : 0 < c) (hd : 0 < d) (u v : List K) :
    raw norm (u.map (c * ·)) (v.map (d * ·)) = raw norm u v := by
  obtain ⟨size, hsize, hraw⟩ := exists_raw_eq (K := K) h
  rw [hraw, hraw]
  exact dot_normalize_scaled hsize hc hd u v

end CodeAtlas.Similarity
