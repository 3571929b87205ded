import Mathlib.Data.List.Sort
import CodeAtlas.Proofs.Rank.Conservation
import CodeAtlas.Proofs.Rank.Weight

/-! The walk of a graph as a matrix. The weights between its nodes decide the rows and the nodes
that dangle, so that graphs with the same weights are ranked alike, whatever edges the weights are
made of. -/

namespace CodeAtlas

namespace RankEdge
variable {K : Type} {n : Nat} {directed : Bool} {e : RankEdge K n} {a b : Fin n}

def flipped (e : RankEdge K n) : RankEdge K n := ⟨e.target, e.source, e.weight⟩

/-- The directed edges that an undirected one stands for. -/
def bothWays (e : RankEdge K n) : List (RankEdge K n) :=
  if e.source = e.target then [e] else [e, e.flipped]

theorem Joins.joins_iff (h : e.Joins directed a b) (i j : Fin n) :
    e.Joins directed i j ↔ (i = a ∧ j = b) ∨ (directed = false ∧ i = b ∧ j = a) := by
  rcases h with ⟨rfl, rfl⟩ | ⟨rfl, rfl, rfl⟩ <;> simp only [Joins] <;> tauto

end RankEdge

namespace Transition
variable {K : Type} [Field K] [LinearOrder K] [CurvedFunctions K] {n : Nat}

/-! ### Weights -/

section
variable {directed : Bool} {key : String} {edges edges' parallel rest : List (RankEdge K n)}
  {i j : Fin n}

theorem weight_append (edges edges' : List (RankEdge K n)) :
    weight directed key (edges ++ edges') i j =
      weight directed key edges i j + weight directed key edges' i j := by
  simp [weight]

theorem weight_perm (h : edges'.Perm edges) :
    weight directed key edges' i j = weight directed key edges i j :=
  ((h.filter _).map _).sum_eq

theorem weight_flatMap_bothWays (edges : List (RankEdge K n)) :
    weight true key (edges.flatMap RankEdge.bothWays) i j = weight false key edges i j := by
  -- the two kinds of graph have the same contributions, one by one
  have hcontributions : ∀ e : RankEdge K n, e.bothWays.flatMap (contributions true key) =
      contributions false key e := by
    intro e
    by_cases hloop : e.source = e.target <;> simp [RankEdge.bothWays, RankEdge.flipped,
      contributions, hloop]
  have houtgoing : outgoing true key (edges.flatMap RankEdge.bothWays) i =
      outgoing false key edges i := by
    rw [outgoing, outgoing, List.flatMap_assoc]
    simp only [hcontributions]
  rw [← sumTo_outgoing, ← sumTo_outgoing, houtgoing]

theorem weight_parallel {merged : RankEdge K n} {a b : Fin n}
    (hparallel : ∀ e ∈ parallel, e.Joins directed a b) (hmerged : merged.Joins directed a b)
    (hsum : merged.weight.value key = (parallel.map (·.weight.value key)).sum) :
    weight directed key parallel i j = weight directed key [merged] i j := by
  have hjoins : ∀ e ∈ parallel, e.Joins directed i j ↔ merged.Joins directed i j := by
    intro e he
    rw [(hparallel e he).joins_iff, hmerged.joins_iff]
  by_cases hij : merged.Joins directed i j
  · have hall : parallel.filter (·.Joins directed i j) = parallel := by
      rw [List.filter_eq_self]
      intro e he
      exact decide_eq_true ((hjoins e he).2 hij)
    rw [weight, weight, hall]
    simp [hij, hsum]
  · have hnone : parallel.filter (·.Joins directed i j) = [] := by
      rw [List.filter_eq_nil_iff]
      intro e he
      simpa [hjoins e he] using hij
    rw [weight, weight, hnone]
    simp [hij]

end

/-! ### The matrix -/

/-- The walk that a matrix of weights stands for: from each node to those that it has a positive
weight to, in proportion to the weights. -/
structure Follows (t : Transition K n) (W : Fin n → Fin n → K) : Prop where
  empty_iff : ∀ i, t.rows.get i = [] ↔ ∀ j, ¬0 < W i j
  dangling_iff : ∀ i, i ∈ t.dangling ↔ ∀ j, ¬0 < W i j
  ascending : ∀ i, (t.rows.get i).Pairwise fun a b => a.1 < b.1
  mem_iff : ∀ i j p, (j, p) ∈ t.rows.get i ↔ 0 < W i j ∧ p = W i j / ∑ k with 0 < W i k, W i k
  dangling_ascending : t.dangling.Pairwise (· < ·)

theorem Follows.eq {t t' : Transition K n} {W : Fin n → Fin n → K} (h : t.Follows W)
    (h' : t'.Follows W) : t = t' := by
  have hantisymm : Std.Antisymm fun a b : Fin n × K => a.1 < b.1 :=
    ⟨fun _ _ hab hba => absurd hba hab.asymm⟩
  have hirrefl : Std.Irrefl fun a b : Fin n × K => a.1 < b.1 := ⟨fun a => lt_irrefl a.1⟩
  have hrow : ∀ i, t.rows.get i = t'.rows.get i := by
    intro i
    apply (h.ascending i).eq_of_mem_iff (h'.ascending i)
    intro e
    rw [h.mem_iff, h'.mem_iff]
  have hrows : t.rows = t'.rows := Vector.ext fun i hi => hrow ⟨i, hi⟩
  have hdangling : t.dangling = t'.dangling := by
    apply h.dangling_ascending.eq_of_mem_iff h'.dangling_ascending
    intro i
    rw [h.dangling_iff, h'.dangling_iff]
  cases t
  cases t'
  cases hrows
  cases hdangling
  rfl

theorem ascending_positive (outgoing : List (Fin n × K)) :
    (positive outgoing).Pairwise fun a b => a.1 < b.1 := by
  rw [positive_eq]
  apply List.Pairwise.filterMap _ _ (List.pairwise_lt_finRange n)
  intro i j hij a ha b hb
  split at ha
  · cases ha
    split at hb
    · cases hb
      exact hij
    · cases hb
  · cases ha

theorem total_outgoing_eq_sum_positive (directed : Bool) (key : String)
    (edges : List (RankEdge K n)) (i : Fin n) :
    total (outgoing directed key edges i) =
      ∑ k with 0 < weight directed key edges i k, weight directed key edges i k := by
  rw [total_outgoing, Finset.sum_filter]
  apply Finset.sum_congr rfl
  intro k _
  split
  · exact max_eq_right (le_of_lt ‹_›)
  · exact max_eq_left (not_lt.1 ‹_›)

variable [IsStrictOrderedRing K]

theorem ofEdges_follows (order : RowOrder K) (directed : Bool) (key : String)
    (edges : List (RankEdge K n)) :
    (ofEdges order directed key edges).Follows (weight directed key edges) := by
  have hnone : ∀ i, positive (outgoing directed key edges i) = [] ↔
      ∀ j, ¬0 < weight directed key edges i j := by
    intro i
    simp only [positive_eq_nil_iff, sumTo_outgoing]
  constructor
  · intro i
    rw [get_rows_ofEdges, row_eq, List.map_eq_nil_iff, hnone]
  · intro i
    rw [mem_dangling_ofEdges, isDangling_iff, hnone]
  · intro i
    rw [get_rows_ofEdges, row_eq, List.pairwise_map]
    exact ascending_positive _
  · intro i j p
    rw [get_rows_ofEdges, row_eq, List.mem_map, total_outgoing_eq_sum_positive]
    constructor
    · rintro ⟨e, he, heq⟩
      obtain ⟨hpos, hvalue⟩ := mem_positive_iff.1 he
      obtain ⟨rfl, rfl⟩ := Prod.mk.inj heq
      rw [sumTo_outgoing] at hpos hvalue
      exact ⟨hpos, by rw [hvalue]⟩
    · rintro ⟨hpos, rfl⟩
      have he : (j, weight directed key edges i j) ∈ positive (outgoing directed key edges i) := by
        rw [mem_positive_iff, sumTo_outgoing]
        exact ⟨hpos, rfl⟩
      exact ⟨_, he, rfl⟩
  · exact (List.pairwise_lt_finRange n).sublist List.filter_sublist

theorem ofEdges_congr {order order' : RowOrder K} {directed directed' : Bool} {key : String}
    {edges edges' : List (RankEdge K n)}
    (h : ∀ i j, weight directed key edges i j = weight directed' key edges' i j) :
    ofEdges order directed key edges = ofEdges order' directed' key edges' := by
  have hweight : weight directed key edges = weight directed' key edges' :=
    funext fun i => funext (h i)
  have hfollows := ofEdges_follows order directed key edges
  rw [hweight] at hfollows
  exact hfollows.eq (ofEdges_follows order' directed' key edges')

end Transition

namespace SymbolRank
variable {K : Type} [Field K] [LinearOrder K] [CurvedFunctions K] [IsStrictOrderedRing K]

theorem ofGraph_congr {g : RankGraph K} {directed : Bool} {edges : List (RankEdge K g.nodes.size)}
    {config : RankConfig K} {order order' : RowOrder K}
    (h : ∀ i j, Transition.weight directed config.weightKey edges i j =
      Transition.weight g.directed config.weightKey g.edges i j) :
    ofGraph { g with edges, directed } config order = ofGraph g config order' := by
  unfold ofGraph
  rw [Transition.ofEdges_congr h]

/-- A ranking walks by the weights between the nodes. An undirected graph is ranked as the directed
one with both directions of its edges, and parallel edges as one edge with the sum of their
weights. -/
theorem ofGraph_follows_weights (g : RankGraph K) (config : RankConfig K)
    (order order' : RowOrder K) :
    (ofGraph g config order).transition.Follows
      (Transition.weight g.directed config.weightKey g.edges) ∧
      (∀ edges, edges.Perm (g.edges.flatMap RankEdge.bothWays) →
        ofGraph { g with edges, directed := true } config order =
          ofGraph { g with directed := false } config order') ∧
      ∀ parallel rest edges merged a b, g.edges.Perm (parallel ++ rest) →
        edges.Perm (merged :: rest) →
        (∀ e ∈ parallel, e.Joins g.directed a b) → merged.Joins g.directed a b →
        merged.weight.value config.weightKey =
          (parallel.map (·.weight.value config.weightKey)).sum →
          ofGraph { g with edges } config order = ofGraph g config order' := by
  refine ⟨Transition.ofEdges_follows _ _ _ _, ?_, ?_⟩
  · intro edges hedges
    apply ofGraph_congr (g := { g with directed := false })
    intro i j
    rw [Transition.weight_perm hedges, Transition.weight_flatMap_bothWays]
  · intro parallel rest edges merged a b hsplit hedges hparallel hmerged hsum
    apply ofGraph_congr
    intro i j
    rw [Transition.weight_perm hedges, Transition.weight_perm hsplit, Transition.weight_append,
      ← List.singleton_append, Transition.weight_append,
      Transition.weight_parallel hparallel hmerged hsum]

theorem ofGraph_follows_weights_fork :
    ((1 : Fin 3), (1 : ℚ)) ∈ (ofGraph fork .standard).transition.rows.get (0 : Fin 3) ∧
      (1 : Fin 3) ∈ (ofGraph fork .standard).transition.dangling ∧
      (ofGraph { fork with
          edges := fork.edges.flatMap RankEdge.bothWays
          directed := true } .standard =
        ofGraph { fork with directed := false } .standard) ∧
      ofGraph { fork with edges :=
        ([⟨0, 1, .number 2⟩, ⟨1, 1, .number (-2)⟩, ⟨2, 0, .unit⟩] :
          List (RankEdge ℚ 3)) } .standard =
        ofGraph fork .standard := by
  obtain ⟨hfollows, hboth, hmerged⟩ := ofGraph_follows_weights fork .standard .ascending .ascending
  have hrow : 0 < Transition.weight true "weight" fork.edges (0 : Fin 3) (1 : Fin 3) ∧
      (1 : ℚ) = Transition.weight true "weight" fork.edges (0 : Fin 3) (1 : Fin 3) /
        ∑ k with 0 < Transition.weight true "weight" fork.edges (0 : Fin 3) k,
          Transition.weight true "weight" fork.edges (0 : Fin 3) k := by
    decide +kernel
  have hloop : ∀ j, ¬0 < Transition.weight true "weight" fork.edges (1 : Fin 3) j := by
    decide +kernel
  have hparallel : ∀ e ∈ ([⟨0, 1, .number 3⟩, ⟨0, 1, .number (-1)⟩] : List (RankEdge ℚ 3)),
      e.Joins true 0 1 := by
    decide
  have hjoins : (⟨0, 1, .number 2⟩ : RankEdge ℚ 3).Joins true 0 1 := by decide
  refine ⟨(hfollows.mem_iff (0 : Fin 3) (1 : Fin 3) 1).2 hrow,
    (hfollows.dangling_iff (1 : Fin 3)).2 hloop,
    hboth _ (.refl _), ?_⟩
  exact hmerged _ ([⟨1, 1, .number (-2)⟩,
    ⟨2, 0, .unit⟩] : List (RankEdge ℚ 3)) _ _ _ _ (.refl _) (.refl _)
    hparallel hjoins (by decide +kernel)

end SymbolRank
end CodeAtlas
