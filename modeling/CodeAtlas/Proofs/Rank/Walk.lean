import Mathlib.Algebra.BigOperators.Fin
import Mathlib.Algebra.BigOperators.Ring.Finset
import Mathlib.Algebra.Order.BigOperators.Group.List
import Mathlib.Tactic.Ring
import CodeAtlas.Proofs.Scalar.Exact
import CodeAtlas.Rank.Ranking

/-! The random walk of a graph in exact arithmetic. The probabilities of a node sum to one, or to
nothing where it dangles, and a round of the ranking moves all of its score along them. -/

namespace CodeAtlas

/-! ### Sums over lists and over nodes -/

section
variable {β M : Type} [AddCommMonoid M] {n : Nat}

theorem get_ofFn (f : Fin n → β) (i : Fin n) : (Vector.ofFn f).get i = f i :=
  Vector.getElem_ofFn i.isLt

theorem get_map {γ : Type} (f : β → γ) (v : Vector β n) (i : Fin n) :
    (v.map f).get i = f (v.get i) :=
  Vector.getElem_map f i.isLt

theorem toList_eq_ofFn (v : Vector β n) : v.toList = List.ofFn v.get := by
  rw [← Vector.toList_ofFn]
  congr 1
  ext i hi
  rw [Vector.getElem_ofFn]
  rfl

theorem sum_toList (v : Vector M n) : v.toList.sum = ∑ m, v.get m := by
  rw [toList_eq_ofFn, List.sum_ofFn]

theorem sum_map_filterMap {ι : Type} (g : ι → Option β) (h : β → M) (l : List ι) :
    ((l.filterMap g).map h).sum = (l.map fun i => ((g i).map h).getD 0).sum := by
  induction l with
  | nil => rfl
  | cons i l ih =>
    cases hi : g i with
    | none => simp [hi, ih]
    | some b => simp [hi, ih]

theorem sum_find?_eq {l : List (Fin n × M)} (hl : (l.map (·.1)).Nodup) :
    ∑ i, ((l.find? (·.1 = i)).map (·.2)).getD 0 = (l.map (·.2)).sum := by
  induction l with
  | nil => simp
  | cons e l ih =>
    obtain ⟨hfresh, hl⟩ := List.nodup_cons.1 hl
    -- the entry in front is the only one of its node, so that the rest has nothing there
    have hsplit : ∀ i, (((e :: l).find? (·.1 = i)).map (·.2)).getD 0 =
        (if e.1 = i then e.2 else 0) + ((l.find? (·.1 = i)).map (·.2)).getD 0 := by
      intro i
      by_cases hi : e.1 = i
      · have hnone : l.find? (·.1 = i) = none := by
          rw [List.find?_eq_none]
          intro x hx hxi
          exact hfresh (List.mem_map.2 ⟨x, hx, (of_decide_eq_true hxi).trans hi.symm⟩)
        simp [hi, hnone]
      · simp [hi]
    simp only [hsplit, Finset.sum_add_distrib, ih hl, List.map_cons, List.sum_cons]
    simp

end

namespace Transition

/-! ### Probabilities -/

section
variable {K : Type} [Field K] {n : Nat}

def probability (t : Transition K n) (node target : Fin n) : K :=
  (((t.rows.get node).find? (·.1 = target)).map (·.2)).getD 0

theorem sum_incoming (t : Transition K n) (target : Fin n) (f : Fin n → K) :
    ((t.incoming target).map fun e => f e.1 * e.2).sum =
      ∑ node, f node * t.probability node target := by
  rw [incoming, sum_map_filterMap, Fin.sum_univ_def]
  congr 1
  refine List.map_congr_left fun node _ => ?_
  rw [probability]
  cases (t.rows.get node).find? (·.1 = target) <;> simp

variable [LinearOrder K]

/-- From every node the walk goes on to its successors with certainty, unless the node dangles. -/
structure Stochastic (t : Transition K n) : Prop where
  nonneg : ∀ node target, 0 ≤ t.probability node target
  sum_eq : ∀ node, ∑ target, t.probability node target = if node ∈ t.dangling then 0 else 1
  nodup : t.dangling.Nodup

/-- Where the score of a node goes: along its row, or by the weights for dangling nodes. -/
def flow (t : Transition K n) (dangling : Vector K n) (node target : Fin n) : K :=
  t.probability node target + if node ∈ t.dangling then dangling.get target else 0

theorem sum_flow {t : Transition K n} (ht : t.Stochastic) {dangling : Vector K n}
    (hd : ∑ m, dangling.get m = 1) (node : Fin n) : ∑ target, t.flow dangling node target = 1 := by
  simp only [flow, Finset.sum_add_distrib, ht.sum_eq]
  split <;> simp [hd]

theorem sum_dangling {t : Transition K n} (ht : t.Stochastic) (f : Fin n → K) :
    (t.dangling.map f).sum = ∑ node, if node ∈ t.dangling then f node else 0 := by
  rw [← List.sum_toFinset f ht.nodup, ← Finset.sum_filter]
  congr 1
  ext node
  simp

variable [IsStrictOrderedRing K]

theorem flow_nonneg {t : Transition K n} (ht : t.Stochastic) {dangling : Vector K n}
    (hd : ∀ m, 0 ≤ dangling.get m) (node target : Fin n) : 0 ≤ t.flow dangling node target := by
  refine add_nonneg (ht.nonneg node target) ?_
  split
  · exact hd target
  · exact le_rfl

end

/-! ### The rows of a graph -/

section
variable {α : Type} [Scalar α] {n : Nat}

def outgoing (directed : Bool) (key : String) (edges : List (RankEdge α n)) (node : Fin n) :
    List (Fin n × α) :=
  ((edges.flatMap (contributions directed key)).filter (·.1 = node)).map (·.2)

theorem get_rows_ofEdges (order : RowOrder α) (directed : Bool) (key : String)
    (edges : List (RankEdge α n)) (node : Fin n) :
    (ofEdges order directed key edges).rows.get node =
      row order node (outgoing directed key edges node) :=
  get_ofFn _ _

theorem mem_dangling_ofEdges {order : RowOrder α} {directed : Bool} {key : String}
    {edges : List (RankEdge α n)} {node : Fin n} :
    node ∈ (ofEdges order directed key edges).dangling ↔
      isDangling order node (outgoing directed key edges node) := by
  simp [ofEdges, outgoing]

theorem ofEdges_of_rowTotal_eq {order order' : RowOrder α} {directed : Bool} {key : String}
    {edges : List (RankEdge α n)}
    (h : ∀ node, rowTotal order node (outgoing directed key edges node) =
      rowTotal order' node (outgoing directed key edges node)) :
    ofEdges order directed key edges = ofEdges order' directed key edges := by
  unfold outgoing at h
  simp only [ofEdges, row, isDangling, h]

end

variable {K : Type} [Field K] [LinearOrder K] [CurvedFunctions K] {n : Nat}

theorem pos_of_mem_positive {outgoing : List (Fin n × K)} {e : Fin n × K}
    (he : e ∈ positive outgoing) : 0 < e.2 := by
  obtain ⟨target, _, htarget⟩ := List.mem_filterMap.1 he
  obtain ⟨w, _, hw⟩ := Option.bind_eq_some_iff.1 htarget
  split at hw
  · rename_i hpos
    cases hw
    exact Scalar.lt_iff.1 hpos
  · cases hw

theorem nodup_positive (outgoing : List (Fin n × K)) : ((positive outgoing).map (·.1)).Nodup := by
  rw [positive, List.map_filterMap]
  refine (List.nodup_finRange n).filterMap ?_
  have hself : ∀ i j, j ∈ ((weightTo outgoing i).bind fun w =>
      if Scalar.lt 0 w then some (i, w) else none).map (·.1) → i = j := by
    intro i j hj
    obtain ⟨e, he, rfl⟩ := Option.mem_map.1 hj
    obtain ⟨w, _, hw⟩ := Option.bind_eq_some_iff.1 he
    split at hw
    · cases hw
      rfl
    · cases hw
  intro i j k hi hj
  rw [hself i k hi, hself j k hj]

def total (outgoing : List (Fin n × K)) : K := ((positive outgoing).map (·.2)).sum

theorem rowTotal_eq (order : RowOrder K) (node : Fin n) (outgoing : List (Fin n × K)) :
    rowTotal order node outgoing = total outgoing := by
  rw [rowTotal, Scalar.sum_eq]
  exact (order.perm node _).sum_eq

variable [IsStrictOrderedRing K] {order : RowOrder K} {node : Fin n}

theorem total_pos {outgoing : List (Fin n × K)} (h : positive outgoing ≠ []) :
    0 < total outgoing := by
  refine List.sum_pos _ ?_ (by simpa using h)
  intro w hw
  obtain ⟨e, he, rfl⟩ := List.mem_map.1 hw
  exact pos_of_mem_positive he

theorem isDangling_iff (outgoing : List (Fin n × K)) :
    isDangling order node outgoing = true ↔ positive outgoing = [] := by
  rw [isDangling, rowTotal_eq, Scalar.le_iff]
  constructor
  · intro h
    by_contra hne
    exact absurd h (not_le.2 (total_pos hne))
  · intro h
    simp [total, h]

theorem row_eq (outgoing : List (Fin n × K)) :
    row order node outgoing = (positive outgoing).map fun e => (e.1, e.2 / total outgoing) := by
  simp only [row, rowTotal_eq]
  split
  · rename_i h
    have hdangling : isDangling order node outgoing = true := by rwa [isDangling, rowTotal_eq]
    rw [(isDangling_iff outgoing).1 hdangling, List.map_nil]
  · rfl

theorem row_nonneg {outgoing : List (Fin n × K)} {e : Fin n × K}
    (he : e ∈ row order node outgoing) : 0 ≤ e.2 := by
  rw [row_eq] at he
  obtain ⟨e', he', rfl⟩ := List.mem_map.1 he
  exact div_nonneg (pos_of_mem_positive he').le (total_pos (List.ne_nil_of_mem he')).le

theorem nodup_row (outgoing : List (Fin n × K)) : ((row order node outgoing).map (·.1)).Nodup := by
  rw [row_eq, List.map_map]
  exact nodup_positive outgoing

theorem sum_row (outgoing : List (Fin n × K)) :
    ((row order node outgoing).map (·.2)).sum =
      if isDangling order node outgoing then 0 else 1 := by
  have hsum : ((row order node outgoing).map (·.2)).sum = total outgoing / total outgoing := by
    rw [row_eq, List.map_map, div_eq_mul_inv]
    simp only [Function.comp_def, div_eq_mul_inv, List.sum_map_mul_right]
    rw [← total]
  rw [hsum]
  split
  · rename_i h
    simp [total, (isDangling_iff outgoing).1 h]
  · rename_i h
    exact div_self (total_pos (mt (isDangling_iff outgoing).2 h)).ne'

theorem ofEdges_stochastic (order : RowOrder K) (directed : Bool) (key : String)
    (edges : List (RankEdge K n)) :
    (ofEdges order directed key edges).Stochastic := by
  constructor
  · intro node target
    rw [probability]
    cases hfind : ((ofEdges order directed key edges).rows.get node).find? (·.1 = target) with
    | none => exact le_rfl
    | some e =>
      have he := List.mem_of_find?_eq_some hfind
      rw [get_rows_ofEdges] at he
      exact row_nonneg he
  · intro node
    simp only [probability, mem_dangling_ofEdges]
    rw [get_rows_ofEdges, sum_find?_eq (nodup_row _), sum_row]
  · exact (List.nodup_finRange n).filter _

end Transition

namespace SymbolRank

variable {K : Type} [Field K] [LinearOrder K] [CurvedFunctions K] {n : Nat}

/-- A round gives a node what its predecessors pass on, its part of what dangling nodes spread, and
its share of the similarity. -/
theorem get_advance (alpha : K) (t : Transition K n) (p : Personalization K n) (last : Vector K n)
    (m : Fin n) :
    (advance alpha t (Vector.ofFn t.incoming) p last).get m =
      alpha * ∑ node, last.get node * t.probability node m +
        alpha * (t.dangling.map last.get).sum * p.dangling.get m +
        (1 - alpha) * p.similarity.get m := by
  have hpassed : ((Vector.ofFn t.incoming).get m).foldl
      (fun acc e => acc + alpha * last.get e.1 * e.2) 0 =
        alpha * ∑ node, last.get node * t.probability node m := by
    simp only [Finset.mul_sum, ← mul_assoc]
    rw [get_ofFn, ← t.sum_incoming m fun node => alpha * last.get node, List.sum_eq_foldl,
      List.foldl_map]
  rw [advance, get_ofFn]
  simp only [hpassed, Scalar.sum_eq]
  rw [add_assoc]

theorem get_advance_eq_flow {t : Transition K n} (ht : t.Stochastic) (alpha : K)
    (p : Personalization K n) (last : Vector K n) (m : Fin n) :
    (advance alpha t (Vector.ofFn t.incoming) p last).get m =
      alpha * ∑ node, last.get node * t.flow p.dangling node m +
        (1 - alpha) * p.similarity.get m := by
  have hspread : (t.dangling.map last.get).sum * p.dangling.get m =
      ∑ node, last.get node * if node ∈ t.dangling then p.dangling.get m else 0 := by
    rw [Transition.sum_dangling ht, Finset.sum_mul]
    simp only [ite_mul, zero_mul, mul_ite, mul_zero]
  rw [get_advance, mul_assoc alpha, hspread, ← mul_add, ← Finset.sum_add_distrib]
  simp only [Transition.flow, mul_add]

end SymbolRank

end CodeAtlas
