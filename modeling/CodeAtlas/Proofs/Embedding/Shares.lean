import Mathlib.Algebra.Order.BigOperators.Ring.Finset
import Mathlib.Analysis.SpecialFunctions.Pow.Real
import CodeAtlas.Proofs.Embedding.Best
import CodeAtlas.Proofs.Embedding.Normalized

/-! Scores of different symbols. In exact arithmetic normalized ones stay between minus one and one,
however the vectors are scaled; shares of an exponential sum are positive, make up one, and are
ordered as the dot products are. -/

namespace CodeAtlas.Similarity
open Scalar

variable {K κ : Type} [Field K] [LinearOrder K]

/-! ### Directions -/

def SameDirection (widen : κ → K) (u v : List κ) : Prop :=
  ∃ c, 0 < c ∧ v.map widen = u.map fun a => c * widen a

theorem SameDirection.length_eq {widen : κ → K} {u v : List κ} (h : SameDirection widen u v) :
    v.length = u.length := by
  obtain ⟨c, -, hv⟩ := h
  simpa using congrArg List.length hv

theorem SameDirection.refl [IsStrictOrderedRing K] (widen : κ → K) (v : List κ) :
    SameDirection widen v v :=
  ⟨1, one_pos, by simp only [one_mul]⟩

variable [CurvedFunctions K]

/-! ### Shares -/

def part (values : List K) (x : K) : K := exp (x - maximum values)

def share (values : List K) (x : K) : K := part values x / (values.map (part values)).sum

theorem softmax_eq (values : List K) : softmax values = values.map (share values) := by
  rw [softmax, sum_eq]
  rfl

section
variable [IsStrictOrderedRing K] [GrowingExponential K] {values : List K} {x y : K}

theorem sum_parts_pos (hx : x ∈ values) : 0 < (values.map (part values)).sum := by
  have hparts : ∀ y ∈ values.map (part values), 0 < y :=
    List.forall_mem_map.2 fun y _ => GrowingExponential.exp_pos _
  exact List.sum_pos _ hparts (List.ne_nil_of_mem (List.mem_map_of_mem hx))

theorem share_pos (hx : x ∈ values) : 0 < share values x :=
  div_pos (GrowingExponential.exp_pos _) (sum_parts_pos hx)

theorem sum_shares (hx : x ∈ values) : (values.map (share values)).sum = 1 := by
  have hpos := sum_parts_pos hx
  calc (values.map (share values)).sum
      = (values.map fun y => part values y * (values.map (part values)).sum⁻¹).sum :=
        congrArg List.sum (List.map_congr_left fun y _ => div_eq_mul_inv (part values y) _)
    _ = (values.map (part values)).sum * (values.map (part values)).sum⁻¹ :=
      List.sum_map_mul_right ..
    _ = 1 := mul_inv_cancel₀ hpos.ne'

theorem share_le_share_iff (hx : x ∈ values) : share values x ≤ share values y ↔ x ≤ y := by
  have hexp : StrictMono (exp : K → K) := fun a b => GrowingExponential.exp_lt_exp a b
  rw [share, share, div_le_div_iff_of_pos_right (sum_parts_pos hx), part, part, hexp.le_iff_le,
    sub_le_sub_iff_right]

end

theorem top_map {scores : List (Symbol × K)} {f : K → K}
    (hf : ∀ x ∈ scores, ∀ y ∈ scores, f x.2 ≤ f y.2 ↔ x.2 ≤ y.2) (k : Nat) :
    top k (scores.map fun x => (x.1, f x.2)) = (top k scores).map fun x => (x.1, f x.2) := by
  have hsame : ∀ x ∈ scores, ∀ y ∈ scores, totalLe y.2 x.2 = totalLe (f y.2) (f x.2) := by
    intro x hx y hy
    exact decide_eq_decide.2 (hf y hy x hx).symm
  have hsort : (scores.mergeSort fun a b => totalLe b.2 a.2).map (fun x => (x.1, f x.2)) =
      (scores.map fun x => (x.1, f x.2)).mergeSort fun a b => totalLe b.2 a.2 :=
        List.map_mergeSort hsame
  rw [top, top, ← hsort, List.map_take]

/-- Positive scores that make up one, in the order of the values that they stand for. -/
structure SharesOut (values found : List (Symbol × K)) : Prop where
  symbols : found.map (·.1) = values.map (·.1)
  pos : ∀ x ∈ found, 0 < x.2
  sum_eq : values ≠ [] → (found.map (·.2)).sum = 1
  le_iff : ∀ x ∈ values.zip found, ∀ y ∈ values.zip found, x.2.2 ≤ y.2.2 ↔ x.1.2 ≤ y.1.2
  top_eq : ∀ k, (top k found).map (·.1) = (top k values).map (·.1)

theorem sharesOut [IsStrictOrderedRing K] [GrowingExponential K] (values : List (Symbol × K)) :
    SharesOut values (values.map fun x => (x.1, share (values.map (·.2)) x.2)) := by
  have hmem {x : Symbol × K} (hx : x ∈ values) : x.2 ∈ values.map (·.2) := List.mem_map_of_mem hx
  constructor
  · rw [List.map_map]
    rfl
  · exact List.forall_mem_map.2 fun x hx => share_pos (hmem hx)
  · intro hne
    obtain ⟨x, hx⟩ := List.exists_mem_of_ne_nil values hne
    have hsum := sum_shares (hmem hx)
    rw [List.map_map] at hsum ⊢
    exact hsum
  · rw [← List.map_prod_left_eq_zip]
    refine List.forall_mem_map.2 fun x hx => List.forall_mem_map.2 fun y hy => ?_
    exact share_le_share_iff (hmem hx)
  · intro k
    have htop := top_map (fun x hx y _ => share_le_share_iff (y := y.2) (hmem hx)) k
    rw [htop, List.map_map]
    rfl

/-! ### Different symbols -/

section
variable {α : Type} [Scalar α] {norm : Norm} {widen : κ → α} {query : List κ}
  {es : List (Embedding κ)}

theorem scores_of_distinct (hdistinct : es.Pairwise fun a b => ¬a.symbol == b.symbol)
    (hfits : ∀ e ∈ es, e.vector.length = query.length) :
    scores norm widen query es =
      .ok ((es.map (·.symbol)).zip (settled norm (es.map (rawOf norm widen query)))) := by
  have hpairs : (es.map fun e => (e.symbol, rawOf norm widen query e)).Pairwise fun a b =>
      ¬a.1 == b.1 :=
    List.pairwise_map.2 hdistinct
  have hraw : rawScores norm widen query [] es =
      .ok ((es.map fun e => (e.symbol, e)).map fun x => (x.1, rawOf norm widen query x.2)) := by
    rw [rawScores_of_fits hfits, List.map_map]
    exact congrArg Except.ok (Ordered.ofPairs_eq_self hpairs)
  rw [scores_of_rawScores hraw, List.map_map, List.map_map]
  rfl

theorem settled_of_ne_softmax (h : norm ≠ .softmax) (values : List α) :
    settled norm values = values := by
  cases norm with
  | l1 => rfl
  | l2 => rfl
  | softmax => exact absurd rfl h

end

/-- An embedding of the same symbol in the same direction. -/
structure Rescaled (widen : κ → K) (e e' : Embedding κ) : Prop where
  symbol_eq : e'.symbol = e.symbol
  vector : SameDirection widen e.vector e'.vector

/-- A score of an embedding between minus one and one, and zero where a vector has no direction. -/
structure IsBounded (widen : κ → K) (query : List κ) (e : Embedding κ) (found : Symbol × K) :
    Prop where
  symbol_eq : found.1 = e.symbol
  lower : -1 ≤ found.2
  upper : found.2 ≤ 1
  eq_zero : (∀ a ∈ e.vector, widen a = 0) ∨ (∀ a ∈ query, widen a = 0) → found.2 = 0

def products (widen : κ → K) (query : List κ) (es : List (Embedding κ)) : List (Symbol × K) :=
  es.map fun e => (e.symbol, dot (e.vector.map widen) (query.map widen))

variable {norm : Norm} {widen : κ → K} {query query' : List κ} {es es' : List (Embedding κ)}
  [IsStrictOrderedRing K]

theorem exists_shared_scores [GrowingExponential K]
    (hdistinct : es.Pairwise fun a b => ¬a.symbol == b.symbol)
    (hfits : ∀ e ∈ es, e.vector.length = query.length) :
    ∃ found, scores .softmax widen query es = .ok found ∧
      SharesOut (products widen query es) found := by
  have hvalues : (products widen query es).map (·.2) = es.map (rawOf .softmax widen query) := by
    rw [products, List.map_map]
    rfl
  refine ⟨_, ?_, sharesOut (products widen query es)⟩
  rw [scores_of_distinct hdistinct hfits, settled, softmax_eq, List.map_map, List.zip_map', hvalues,
    products, List.map_map]
  rfl

variable [ExactRoots K]

theorem rawOf_rescaled (hnorm : norm ≠ .softmax) (hquery : SameDirection widen query query')
    {e e' : Embedding κ}
    (he : Rescaled widen e e') : rawOf norm widen query' e' = rawOf norm widen query e := by
  obtain ⟨c, hc, hvector⟩ := he.vector
  obtain ⟨d, hd, hdirection⟩ := hquery
  have hscaled (c : K) (v : List κ) : (v.map fun a => c * widen a) = (v.map widen).map (c * ·) :=
    (List.map_map ..).symm
  rw [rawOf, rawOf, hvector, hdirection, hscaled, hscaled, raw_scaled hnorm hc hd]

theorem rawScores_rescaled (hnorm : norm ≠ .softmax) (hquery : SameDirection widen query query')
    (hes : List.Forall₂ (Rescaled widen) es es') (known : List (Symbol × K)) :
    rawScores norm widen query' known es' = rawScores norm widen query known es := by
  induction hes generalizing known with
  | nil => rfl
  | cons he _ ih =>
    have hscore := rawOf_rescaled hnorm hquery he
    rw [rawOf, rawOf] at hscore
    rw [rawScores, rawScores, he.symbol_eq, he.vector.length_eq, hquery.length_eq, hscore, ih]

theorem scores_rescaled (hnorm : norm ≠ .softmax) (hquery : SameDirection widen query query')
    (hes : List.Forall₂ (Rescaled widen) es es') :
    scores norm widen query' es' = scores norm widen query es := by
  rw [scores, scores, rawScores_rescaled hnorm hquery hes]

theorem isBounded_rawOf (hnorm : norm ≠ .softmax) {e : Embedding κ}
    (hfits : e.vector.length = query.length) :
    IsBounded widen query e (e.symbol, rawOf norm widen query e) := by
  have hbound : |rawOf norm widen query e| ≤ 1 := abs_raw_le hnorm (by simpa using hfits)
  refine ⟨rfl, (abs_le.1 hbound).1, (abs_le.1 hbound).2, fun hzero => raw_eq_zero hnorm ?_⟩
  exact hzero.imp List.forall_mem_map.2 List.forall_mem_map.2

theorem exists_bounded_scores (hdistinct : es.Pairwise fun a b => ¬a.symbol == b.symbol)
    (hfits : ∀ e ∈ es, e.vector.length = query.length) (hnorm : norm ≠ .softmax) :
    ∃ found, scores norm widen query es = .ok found ∧
      List.Forall₂ (IsBounded widen query) es found := by
  have hscored : scores norm widen query es =
      .ok (es.map fun e => (e.symbol, rawOf norm widen query e)) := by
    rw [scores_of_distinct hdistinct hfits, settled_of_ne_softmax hnorm, List.zip_map']
  refine ⟨_, hscored, ?_⟩
  rw [List.forall₂_map_right_iff, List.forall₂_same]
  exact fun e he => isBounded_rawOf hnorm (hfits e he)

/-- Normalized scores of different symbols stay between minus one and one and depend on no more than
the directions of the vectors. Softmax shares out one among the symbols, in the order of their dot
products. -/
theorem scores_bounded_or_shared [GrowingExponential K] (widen : κ → K) (query : List κ)
    (es : List (Embedding κ)) (hdistinct : es.Pairwise fun a b => ¬a.symbol == b.symbol)
    (hfits : ∀ e ∈ es, e.vector.length = query.length) :
    (∀ norm, norm ≠ .softmax →
      (∃ found, scores norm widen query es = .ok found ∧
        List.Forall₂ (IsBounded widen query) es found) ∧
        ∀ query' es', SameDirection widen query query' → List.Forall₂ (Rescaled widen) es es' →
          scores norm widen query' es' = scores norm widen query es) ∧
      ∃ found, scores .softmax widen query es = .ok found ∧
        SharesOut (products widen query es) found := by
  refine ⟨fun norm hnorm => ⟨exists_bounded_scores hdistinct hfits hnorm, ?_⟩,
    exists_shared_scores hdistinct hfits⟩
  intro query' es' hquery hes
  exact scores_rescaled hnorm hquery hes

def directedEmbeddings : List (Embedding ℝ) :=
  [embeddingOf "a" [3, 4], embeddingOf "b" [0, 0], embeddingOf "c" [1, -1]]

theorem scores_bounded_or_shared_directed :
    (∃ found, scores .l2 id [1, 2] directedEmbeddings = .ok found ∧
        List.Forall₂ (IsBounded id [1, 2]) directedEmbeddings found) ∧
      scores .l1 id [10, 20] directedEmbeddings = scores .l1 id [1, 2] directedEmbeddings ∧
      ∃ found, scores .softmax id [1, 2] directedEmbeddings = .ok found ∧
        (found.map (·.2)).sum = 1 := by
  have hdistinct : directedEmbeddings.Pairwise fun a b => ¬a.symbol == b.symbol := by
    simp [directedEmbeddings, embeddingOf, Symbol.beq_iff]
  have hfits : ∀ e ∈ directedEmbeddings, e.vector.length = 2 := by
    simp [directedEmbeddings, embeddingOf]
  obtain ⟨hnormalized, found, hfound, hshares⟩ :=
    scores_bounded_or_shared id [1, 2] directedEmbeddings hdistinct hfits
  have hdirection : SameDirection id ([1, 2] : List ℝ) [10, 20] := ⟨10, by norm_num, by norm_num⟩
  have hrescaled : List.Forall₂ (Rescaled id) directedEmbeddings directedEmbeddings :=
    List.forall₂_same.2 fun e _ => ⟨rfl, .refl id e.vector⟩
  refine ⟨(hnormalized .l2 (by decide)).1, (hnormalized .l1 (by decide)).2 _ _ hdirection hrescaled,
    found, hfound,
    hshares.sum_eq ?_⟩
  exact List.cons_ne_nil _ _

end CodeAtlas.Similarity
