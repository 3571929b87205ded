import CodeAtlas.Proofs.Embedding.Deviation
import CodeAtlas.Proofs.Rank.Refusal
import CodeAtlas.Proofs.Search.Relevance

/-! The weights that a ranked search makes for itself. They are scores above the lowest one, which a
ranking accepts. -/

namespace CodeAtlas

namespace SymbolRank
variable {α : Type} [Scalar α] [Scalar.Lawful α] {r : SymbolRank α} {w : RankWeights α}

theorem rankWith_ne_invalidWeight (h : ∀ o ∈ w.offers r.nodes.toList, ¬o.isRefused)
    (map : WeightMap) (uri : String)
    (value : α) : r.rankWith w ≠ .error (.invalidWeight map uri value) := by
  by_cases hn : r.nodes.size = 0
  · rw [rankWith, if_pos hn]
    intro h
    cases h
  · obtain ⟨s, hs⟩ := exists_start_eq_ok_iff.2 h
    rw [rankWith_of_start hn hs]
    intro h
    split at h <;> cases h

end SymbolRank

theorem Weights.mem_of_given? {α : Type} {weights : Weights α} {s : Symbol} {value : α}
    (h : weights.given? s = some value) : ∃ x ∈ weights, x.2 = value := by
  obtain ⟨x, hx, rfl⟩ := Option.map_eq_some_iff.1 h
  exact ⟨x, List.mem_of_find?_eq_some hx, rfl⟩

variable {K : Type} [Field K] [LinearOrder K] [CurvedFunctions K]

theorem WeightOffer.not_isRefused {o : WeightOffer K} (h : 0 ≤ o.value) : ¬o.isRefused := by
  rw [SymbolRank.isRefused_eq, SymbolRank.accepted_iff.2 h]
  exact Bool.false_ne_true

theorem SymbolRank.rank_ne_invalidWeight {r : SymbolRank K} {similarity : Option (Weights K)}
    (h : ∀ weights ∈ similarity, ∀ x ∈ weights, 0 ≤ x.2) (map : WeightMap) (uri : String)
    (value : K) :
    r.rank similarity ≠ .error (.invalidWeight map uri value) := by
  apply rankWith_ne_invalidWeight
  intro o ho
  have ho : o ∈ WeightOffer.ofMap .similarity r.nodes.toList similarity := by
    simpa [RankWeights.offers, WeightOffer.ofMap] using ho
  cases similarity with
  | none => cases ho
  | some weights =>
    obtain ⟨s, -, hs⟩ := List.mem_filterMap.1 ho
    obtain ⟨value, hvalue, rfl⟩ := Option.map_eq_some_iff.1 hs
    obtain ⟨x, hx, rfl⟩ := Weights.mem_of_given? hvalue
    exact WeightOffer.not_isRefused (h weights rfl x hx)

namespace SearchEngine
variable [IsStrictOrderedRing K] [Scalar.ExactRoots K] [Scalar.GrowingPowers K] {κ σ : Type}

section
variable {m : Type → Type} {e : SearchEngine m K κ} {store : VectorStore κ} {vector : List κ}
  {weights : Weights K}

theorem personalization_nonneg (hpower : 0 < e.power)
    (h : e.personalization store vector = .ok weights) :
    ∀ x ∈ weights, 0 ≤ x.2 := by
  obtain ⟨scores, -, h⟩ := bind_eq_ok_iff.1 h
  cases h
  intro x hx
  exact (Similarity.shiftsFromLowest hpower _).nonneg x.2 (List.of_mem_zip hx).2

theorem rankFor_ne_invalidWeight (hpower : 0 < e.power) (map : WeightMap)
    (uri : String) (value : K) :
    e.rankFor store vector ≠ .error (.rank (.invalidWeight map uri value)) := by
  cases hweights : e.personalization store vector with
  | error cause =>
    rw [rankFor, hweights]
    intro h
    cases h
  | ok weights =>
    have hnonneg := personalization_nonneg hpower hweights
    have hsimilarity : ∀ given ∈ (if weights.isEmpty then none else some weights),
        ∀ x ∈ given, 0 ≤ x.2 := by
      intro given hgiven
      split at hgiven
      · cases hgiven
      · cases hgiven
        exact hnonneg
    have hrank := SymbolRank.rank_ne_invalidWeight hsimilarity map uri value (r := e.rankGraph)
    rw [rankFor_eq hweights]
    intro h
    apply hrank
    cases hranked : e.rankGraph.rank (if weights.isEmpty then none else some weights) with
    | ok ranking =>
      rw [hranked] at h
      cases h
    | error cause =>
      rw [hranked] at h
      cases h
      rfl

end

variable (K κ σ) in
/-- Standardizing keeps the order of values and starts it at zero, whatever their order and scale,
so that a ranked search accepts the weights that it makes of its scores. -/
theorem rankSearch_accepts :
    (∀ power : K, 0 < power → ∀ values : List K, Similarity.ShiftsFromLowest power values) ∧
      ∀ (e : SearchEngine (StateM σ) K κ) (store : VectorStore κ) (query : String) (st : σ),
        0 < e.power →
        ∀ map uri value,
          ((e.rankSearch store query).run st).1 ≠
            .error (.rank (.invalidWeight map uri value)) := by
  refine ⟨fun power hpower values => Similarity.shiftsFromLowest hpower values, ?_⟩
  intro e store query st hpower map uri value
  rw [rankSearch_run]
  cases ((e.provider.vector query).run st).1 with
  | error cause =>
    intro h
    cases h
  | ok vector => exact rankFor_ne_invalidWeight hpower map uri value

noncomputable def unevenEngine : SearchEngine (StateM Nat) ℝ Nat where
  navigator := evenEngine.navigator
  rankConfig := .standard
  provider := VectorStore.lossyProvider
  norm := .softmax
  widen := Nat.cast
  power := 2

theorem rankSearch_accepts_uneven :
    Similarity.ShiftsFromLowest 2 ([1, 3, 2] : List ℝ) ∧
      Similarity.shiftedZScore ([15, 35, 25] : List ℝ) 2 = Similarity.shiftedZScore [1, 3, 2] 2 ∧
      ¬∃ map uri value, ((unevenEngine.rankSearch evenStore "text").run 0).1 =
        .error (.rank (.invalidWeight map uri value)) := by
  obtain ⟨hshifts, haccepts⟩ := rankSearch_accepts ℝ Nat Nat
  have hvalues := hshifts 2 two_pos [1, 3, 2]
  have hpower : 0 < unevenEngine.power := two_pos
  refine ⟨hvalues, ?_, ?_⟩
  · rw [← hvalues.affine 10 5 (by norm_num)]
    norm_num
  · rintro ⟨map, uri, value, h⟩
    exact haccepts unevenEngine evenStore "text" 0 hpower map uri value h

end SearchEngine
end CodeAtlas
