import CodeAtlas.Proofs.Ordered
import CodeAtlas.Proofs.Rank.Walk

/-! The probabilities of a walk by the weights of the graph. Parallel edges add up, and a node goes
on to each of the nodes that it has a positive weight to, in proportion. -/

namespace CodeAtlas

variable {K : Type} {n : Nat}

/-- Whether an edge leads from `i` to `j`; an undirected one leads both ways. -/
def RankEdge.Joins (directed : Bool) (e : RankEdge K n) (i j : Fin n) : Prop :=
  (e.source = i ∧ e.target = j) ∨ (directed = false ∧ e.target = i ∧ e.source = j)

instance (directed : Bool) (e : RankEdge K n) (i j : Fin n) : Decidable (e.Joins directed i j) :=
  inferInstanceAs (Decidable (_ ∨ _))

namespace Transition

variable [Field K] [LinearOrder K] [CurvedFunctions K]

def weight (directed : Bool) (key : String) (edges : List (RankEdge K n)) (i j : Fin n) : K :=
  ((edges.filter (·.Joins directed i j)).map (·.weight.value key)).sum

def sumTo (outgoing : List (Fin n × K)) (target : Fin n) : K :=
  ((outgoing.filter (·.1 = target)).map (·.2)).sum

theorem sumTo_append (l l' : List (Fin n × K)) (target : Fin n) :
    sumTo (l ++ l') target = sumTo l target + sumTo l' target := by
  simp [sumTo]

theorem sumTo_cons (c : Fin n × Fin n × K) (steps : List (Fin n × Fin n × K)) (i j : Fin n) :
    sumTo (((c :: steps).filter (·.1 = i)).map (·.2)) j =
      (if c.1 = i ∧ c.2.1 = j then c.2.2 else 0) +
        sumTo ((steps.filter (·.1 = i)).map (·.2)) j := by
  by_cases hi : c.1 = i <;> by_cases hj : c.2.1 = j <;> simp [sumTo, hi, hj]

theorem sumTo_contributions (directed : Bool) (key : String) (e : RankEdge K n) (i j : Fin n) :
    sumTo (((contributions directed key e).filter (·.1 = i)).map (·.2)) j =
      if e.Joins directed i j then e.weight.value key else 0 := by
  have hnil : sumTo ((([] : List (Fin n × Fin n × K)).filter (·.1 = i)).map (·.2)) j = 0 := rfl
  rw [contributions]
  split
  · rename_i hone
    have hjoins : e.Joins directed i j ↔ e.source = i ∧ e.target = j := by
      rw [Bool.or_eq_true, decide_eq_true_iff] at hone
      rcases hone with rfl | hloop
      · simp [RankEdge.Joins]
      · rw [RankEdge.Joins, hloop]
        tauto
    rw [sumTo_cons, hnil, add_zero]
    simp only [hjoins]
  · rename_i htwo
    obtain ⟨rfl, hloop⟩ : directed = false ∧ e.source ≠ e.target := by simpa using htwo
    rw [sumTo_cons, sumTo_cons, hnil, add_zero]
    -- at most one of the two directions is from `i` to `j`
    by_cases hforth : e.source = i ∧ e.target = j
    · have hback : ¬(e.target = i ∧ e.source = j) := fun h => hloop (hforth.1.trans h.1.symm)
      rw [if_pos hforth, if_neg hback, add_zero, if_pos (.inl hforth)]
    · simp [RankEdge.Joins, hforth]

theorem sumTo_outgoing (directed : Bool) (key : String) (edges : List (RankEdge K n))
    (i j : Fin n) :
    sumTo (outgoing directed key edges i) j = weight directed key edges i j := by
  induction edges with
  | nil => rfl
  | cons e edges ih =>
    have hcons : outgoing directed key (e :: edges) i =
        ((contributions directed key e).filter (·.1 = i)).map (·.2) ++
          outgoing directed key edges i := by
      simp [outgoing]
    rw [hcons, sumTo_append, sumTo_contributions, ih, weight, weight, List.filter_cons]
    by_cases hjoins : e.Joins directed i j <;> simp [hjoins]

theorem weightTo_eq (outgoing : List (Fin n × K)) (target : Fin n) :
    weightTo outgoing target =
      if outgoing.filter (·.1 = target) = [] then none else some (sumTo outgoing target) := by
  rw [weightTo]
  split
  · rename_i hnone
    rw [if_pos hnone]
  · rename_i hsome
    rw [if_neg hsome, sumTo, List.sum_eq_foldl, List.foldl_map]

theorem positive_eq (outgoing : List (Fin n × K)) :
    positive outgoing = (List.finRange n).filterMap fun target =>
      if 0 < sumTo outgoing target then some (target, sumTo outgoing target) else none := by
  refine List.filterMap_congr fun target _ => ?_
  rw [weightTo_eq]
  split
  · rename_i hnone
    have hzero : sumTo outgoing target = 0 := by rw [sumTo, hnone, List.map_nil, List.sum_nil]
    simp [hzero]
  · simp [Scalar.lt_eq]

theorem total_eq (outgoing : List (Fin n × K)) :
    total outgoing = ∑ target, max 0 (sumTo outgoing target) := by
  rw [total, positive_eq, sum_map_filterMap, Fin.sum_univ_def]
  congr 1
  refine List.map_congr_left fun target _ => ?_
  split
  · rename_i hpos
    simp [max_eq_right hpos.le]
  · rename_i hpos
    simp [max_eq_left (not_lt.1 hpos)]

theorem mem_positive_iff {outgoing : List (Fin n × K)} {e : Fin n × K} :
    e ∈ positive outgoing ↔ 0 < sumTo outgoing e.1 ∧ e.2 = sumTo outgoing e.1 := by
  rw [positive_eq, List.mem_filterMap]
  constructor
  · rintro ⟨t, -, ht⟩
    split at ht
    · cases ht
      exact ⟨‹_›, rfl⟩
    · cases ht
  · rintro ⟨hpos, hvalue⟩
    exact ⟨e.1, List.mem_finRange e.1, by rw [if_pos hpos, ← hvalue]⟩

theorem find?_positive (outgoing : List (Fin n × K)) (target : Fin n) :
    (positive outgoing).find? (·.1 = target) =
      if 0 < sumTo outgoing target then some (target, sumTo outgoing target) else none := by
  split
  · rename_i hpos
    exact (find?_key_eq_some_iff (nodup_positive outgoing)).2 ⟨mem_positive_iff.2 ⟨hpos, rfl⟩, rfl⟩
  · rename_i hpos
    rw [List.find?_eq_none]
    intro e he htarget
    obtain rfl := of_decide_eq_true htarget
    exact hpos (mem_positive_iff.1 he).1

theorem positive_eq_nil_iff {outgoing : List (Fin n × K)} :
    positive outgoing = [] ↔ ∀ j, ¬0 < sumTo outgoing j := by
  rw [positive_eq, List.filterMap_eq_nil_iff]
  simp

theorem total_outgoing (directed : Bool) (key : String) (edges : List (RankEdge K n)) (i : Fin n) :
    total (outgoing directed key edges i) = ∑ k, max 0 (weight directed key edges i k) := by
  simp only [total_eq, sumTo_outgoing]

variable [IsStrictOrderedRing K]

theorem probability_ofEdges (order : RowOrder K) (directed : Bool) (key : String)
    (edges : List (RankEdge K n))
    (i j : Fin n) : (ofEdges order directed key edges).probability i j =
      max 0 (weight directed key edges i j) / ∑ k, max 0 (weight directed key edges i k) := by
  rw [probability, get_rows_ofEdges, row_eq, List.find?_map, total_outgoing]
  change (((((positive _).find? (·.1 = j)).map _).map _).getD 0) = _
  rw [find?_positive, sumTo_outgoing]
  split
  · rename_i hpos
    simp [max_eq_right hpos.le]
  · rename_i hpos
    simp [max_eq_left (not_lt.1 hpos)]

theorem mem_dangling_iff_weight {order : RowOrder K} {directed : Bool} {key : String}
    {edges : List (RankEdge K n)} {i : Fin n} :
    i ∈ (ofEdges order directed key edges).dangling ↔ ∀ j, weight directed key edges i j ≤ 0 := by
  simp only [mem_dangling_ofEdges, isDangling_iff, positive_eq_nil_iff, sumTo_outgoing, not_lt]

end Transition
end CodeAtlas
