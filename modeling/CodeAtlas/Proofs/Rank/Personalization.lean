import CodeAtlas.Proofs.Scalar.Laws
import CodeAtlas.Rank.Ranking

/-! What a ranking makes of its weight maps. A map that gives every node zero counts as no map. -/

namespace CodeAtlas

variable {α : Type} [Scalar α]

theorem Weights.value_eq_zero {weights : Weights α} {s : Symbol}
    (h : ∀ x ∈ weights, x.1 == s → x.2 = 0) : weights.value s = 0 := by
  rw [value]
  cases hfound : weights.find? (·.1 == s) with
  | none => rfl
  | some x => exact h x (List.mem_of_find?_eq_some hfound) (by simpa using List.find?_some hfound)

namespace SymbolRank
variable {r : SymbolRank α}

theorem rankWith_congr {w w' : RankWeights α} (h : r.nodes.size ≠ 0 → r.start w = r.start w') :
    r.rankWith w = r.rankWith w' := by
  by_cases hn : r.nodes.size = 0
  · simp only [rankWith, if_pos hn]
  · simp only [rankWith, if_neg hn, h hn]

variable [Scalar.Lawful α]

theorem accepted_zero : accepted (0 : α) = true := by
  rw [accepted, Scalar.Lawful.isFinite_zero, Scalar.Lawful.lt_zero_zero]
  rfl

theorem normalized_of_value_eq_zero (hn : r.nodes.size ≠ 0) {weights : Weights α}
    (h : ∀ s ∈ r.nodes, weights.value s = 0) (map : WeightMap) :
    r.normalized map (some weights) = r.normalized map none := by
  have hfind : (r.nodes.toList.find? fun s => !accepted (weights.value s)) = none := by
    rw [List.find?_eq_none]
    intro s hs
    rw [h s (Array.mem_toList_iff.1 hs), accepted_zero]
    decide
  have hdense : (Vector.ofFn fun i : Fin r.nodes.size => weights.value r.nodes[i]).toList =
      List.replicate r.nodes.size 0 := by
    rw [List.eq_replicate_iff]
    refine ⟨by simp, fun x hx => ?_⟩
    obtain ⟨i, rfl⟩ : ∃ i : Fin r.nodes.size, weights.value r.nodes[i] = x := by simpa using hx
    exact h _ (Array.getElem_mem i.isLt)
  have htotal : Scalar.le (Scalar.sum (List.replicate r.nodes.size (0 : α))) 0 = true := by
    rw [Scalar.sum_replicate_zero hn]
    exact Scalar.Lawful.le_zero_zero
  simp only [normalized, hfind, hdense, if_pos htotal]

theorem rank_of_value_eq_zero {weights : Weights α} (h : ∀ s ∈ r.nodes, weights.value s = 0) :
    r.rank (some weights) = r.rank none := by
  refine rankWith_congr fun hn => ?_
  rw [start, start, normalized_of_value_eq_zero hn h]

end SymbolRank
end CodeAtlas
