import CodeAtlas.Graph.Navigator
import CodeAtlas.Proofs.Graph.Calls
import Mathlib.Data.List.NodupEquivFin

/-! The graph of the symbols worth ranking. Its nodes are numbered in the order of the symbols, and
apart from these numbers it depends only on which symbols there are and which of them are linked. -/

namespace CodeAtlas

variable {α : Type}

def RankEdge.renumber {n m : Nat} (σ : Fin n → Fin m) (e : RankEdge α n) : RankEdge α m :=
  ⟨σ e.source, σ e.target, e.weight⟩

/-- `σ` takes the nodes of one graph to the same nodes of the other, and edges to edges. -/
structure RankGraph.Renumbers (a b : RankGraph α) (σ : Fin a.nodes.size ≃ Fin b.nodes.size) :
    Prop where
  nodes_eq : ∀ i, b.nodes[σ i] = a.nodes[i]
  edges_perm : b.edges.Perm (a.edges.map (·.renumber σ))
  directed_eq : b.directed = a.directed

def RankGraph.SameUpToNumbering (a b : RankGraph α) : Prop := ∃ σ, a.Renumbers b σ

theorem exists_numbering {l l' : List Symbol} (hl : l.Nodup) (h : l'.Perm l) :
    ∃ σ : Fin l.toArray.size ≃ Fin l'.toArray.size, ∀ i, l'.toArray[σ i] = l.toArray[i] := by
  classical
  let toMember := List.Nodup.getEquiv l hl
  let toMember' := List.Nodup.getEquiv l' (h.nodup_iff.2 hl)
  let same : { s // s ∈ l } ≃ { s // s ∈ l' } := Equiv.subtypeEquivRight fun s => h.mem_iff.symm
  refine ⟨(toMember.trans same).trans toMember'.symm, fun i => ?_⟩
  have hmember : toMember' (((toMember.trans same).trans toMember'.symm) i) =
      same (toMember i) := by simp
  exact congrArg Subtype.val hmember

namespace Navigator
variable {v v' : Navigator} {nodes nodes' : List Symbol} {direction : SubgraphDirection}

def Joins (v : Navigator) (nodes : List Symbol) (i j : Fin nodes.toArray.size) : Prop :=
  j ≠ i ∧ ∃ targets, v.linked nodes.toArray[i] = .ok targets ∧ targets.any (· == nodes.toArray[j])

def pairsOf (v : Navigator) (direction : SubgraphDirection) (nodes : List Symbol) :
    List (Fin nodes.toArray.size × Fin nodes.toArray.size) :=
  ((List.finRange nodes.toArray.size).flatMap (v.linkedPairs direction nodes.toArray)).eraseDups

theorem nodup_pairsOf : (v.pairsOf direction nodes).Nodup := nodup_eraseDups _

theorem eq_of_node_beq (huris : (nodes.map (·.uri)).Nodup) {i j : Fin nodes.toArray.size}
    (h : nodes.toArray[i] == nodes.toArray[j]) : i = j := by
  have hlength (i : Fin nodes.toArray.size) : i.val < (nodes.map (·.uri)).length := by
    rw [List.length_map]
    exact i.isLt
  have hget : (nodes.map (·.uri)).get ⟨i, hlength i⟩ = (nodes.map (·.uri)).get ⟨j, hlength j⟩ := by
    simpa using Symbol.beq_iff.1 h
  exact Fin.ext (congrArg (fun k => k.val) (huris.get_inj_iff.1 hget))

theorem findFinIdx?_eq_some_iff (huris : (nodes.map (·.uri)).Nodup) {t : Symbol}
    {j : Fin nodes.toArray.size} :
    nodes.toArray.findFinIdx? (· == t) = some j ↔ nodes.toArray[j] == t := by
  rw [Array.findFinIdx?_eq_some_iff]
  refine and_iff_left_of_imp fun hj k hk hkt => ?_
  have hkj : k = j := eq_of_node_beq huris (BEq.trans hkt (BEq.symm hj))
  exact absurd hk (hkj ▸ Nat.lt_irrefl _)

theorem mem_linkedPairs_iff (huris : (nodes.map (·.uri)).Nodup) {i : Fin nodes.toArray.size}
    {p : Fin nodes.toArray.size × Fin nodes.toArray.size} :
    p ∈ v.linkedPairs direction nodes.toArray i ↔ ∃ j, v.Joins nodes i j ∧
      p ∈ oriented direction i j := by
  unfold linkedPairs Joins
  cases hlinked : v.linked nodes.toArray[i] with
  | error e => simp
  | ok targets =>
    simp only [List.mem_flatMap, Except.ok.injEq, exists_eq_left', List.any_eq_true]
    constructor
    · rintro ⟨t, ht, hp⟩
      cases hfound : nodes.toArray.findFinIdx? (· == t) with
      | none =>
        rw [hfound] at hp
        cases hp
      | some j =>
        simp only [hfound] at hp
        split at hp
        · cases hp
        · rename_i hji
          exact ⟨j, ⟨hji, t, ht, BEq.symm ((findFinIdx?_eq_some_iff huris).1 hfound)⟩, hp⟩
    · rintro ⟨j, ⟨hji, t, ht, htj⟩, hp⟩
      have hfound := (findFinIdx?_eq_some_iff huris).2 (BEq.symm htj)
      refine ⟨t, ht, ?_⟩
      simp only [hfound, if_neg hji]
      exact hp

theorem mem_pairsOf_iff (huris : (nodes.map (·.uri)).Nodup)
    {p : Fin nodes.toArray.size × Fin nodes.toArray.size} :
    p ∈ v.pairsOf direction nodes ↔ ∃ i j, v.Joins nodes i j ∧ p ∈ oriented direction i j := by
  rw [pairsOf, List.mem_eraseDups, List.mem_flatMap]
  simp only [List.mem_finRange, true_and, mem_linkedPairs_iff huris]

/-! ### Other numbers -/

theorem oriented_map {n m : Nat} (σ : Fin n → Fin m) (i j : Fin n) :
    oriented direction (σ i) (σ j) = (oriented direction i j).map (Prod.map σ σ) := by
  cases direction <;> rfl

theorem joins_iff {σ : Fin nodes.toArray.size ≃ Fin nodes'.toArray.size}
    (hσ : ∀ i, nodes'.toArray[σ i] = nodes.toArray[i])
    (hlinked : ∀ s, SameAnswer (v.linked s) (v'.linked s))
    {i j : Fin nodes.toArray.size} : v'.Joins nodes' (σ i) (σ j) ↔ v.Joins nodes i j := by
  have hsame := hlinked nodes.toArray[i]
  unfold Joins
  rw [hσ, hσ, σ.injective.ne_iff]
  cases hv : v.linked nodes.toArray[i] <;> cases hv' : v'.linked nodes.toArray[i] <;>
    rw [hv, hv'] at hsame
  · simp
  · exact hsame.elim
  · exact hsame.elim
  · have hany := hsame nodes.toArray[j]
    simp only [Except.ok.injEq, exists_eq_left', hany]

theorem pairsOf_perm {σ : Fin nodes.toArray.size ≃ Fin nodes'.toArray.size}
    (hnodes : nodes'.Perm nodes) (huris : (nodes.map (·.uri)).Nodup)
    (hσ : ∀ i, nodes'.toArray[σ i] = nodes.toArray[i])
    (hlinked : ∀ s, SameAnswer (v.linked s) (v'.linked s)) :
    (v'.pairsOf direction nodes').Perm ((v.pairsOf direction nodes).map (Prod.map σ σ)) := by
  have huris' : (nodes'.map (·.uri)).Nodup := (hnodes.map _).nodup_iff.2 huris
  have hpair : Function.Injective (Prod.map σ σ) := σ.injective.prodMap σ.injective
  refine (List.perm_ext_iff_of_nodup nodup_pairsOf (nodup_pairsOf.map hpair)).2 fun q => ?_
  rw [mem_pairsOf_iff huris', List.mem_map]
  constructor
  · rintro ⟨i, j, hjoins, hq⟩
    rw [← σ.apply_symm_apply i, ← σ.apply_symm_apply j] at hjoins hq
    rw [oriented_map, List.mem_map] at hq
    obtain ⟨p, hp, rfl⟩ := hq
    exact ⟨p, (mem_pairsOf_iff huris).2 ⟨_, _, (joins_iff hσ hlinked).1 hjoins, hp⟩, rfl⟩
  · rintro ⟨p, hp, rfl⟩
    obtain ⟨i, j, hjoins, hp⟩ := (mem_pairsOf_iff huris).1 hp
    refine ⟨σ i, σ j, (joins_iff hσ hlinked).2 hjoins, ?_⟩
    rw [oriented_map]
    exact List.mem_map_of_mem hp

theorem rankableSubgraph_sameUpToNumbering (hsymbols : v'.graph.symbols.Perm v.graph.symbols)
    (hdistinct : (v.graph.symbols.map (·.uri)).Nodup)
    (hlinked : ∀ s, SameAnswer (v.linked s) (v'.linked s)) (direction : SubgraphDirection)
    (filter : Option String) :
    (v.rankableSubgraph direction filter : RankGraph α).SameUpToNumbering
      (v'.rankableSubgraph direction filter) := by
  have hnodes : (v'.rankableSymbols filter).Perm (v.rankableSymbols filter) := hsymbols.filter _
  have huris : ((v.rankableSymbols filter).map (·.uri)).Nodup :=
    hdistinct.sublist (List.filter_sublist.map _)
  obtain ⟨σ, hσ⟩ := exists_numbering (huris.of_map _) hnodes
  have hpairs : (v'.pairsOf direction (v'.rankableSymbols filter)).Perm
      ((v.pairsOf direction (v.rankableSymbols filter)).map (Prod.map σ σ)) :=
    pairsOf_perm hnodes huris hσ hlinked
  have hedges := hpairs.map
    fun p => (⟨p.1, p.2, .attributes []⟩ : RankEdge α (v'.rankableSymbols filter).toArray.size)
  have hrenumber : ((v.pairsOf direction (v.rankableSymbols filter)).map
      fun p => ⟨p.1, p.2, .attributes []⟩).map (RankEdge.renumber σ) =
        (v.pairsOf direction (v.rankableSymbols filter)).map
          ((fun p =>
            (⟨p.1, p.2, .attributes []⟩ : RankEdge α (v'.rankableSymbols filter).toArray.size)) ∘
            Prod.map σ σ) := List.map_map
  rw [List.map_map, ← hrenumber] at hedges
  exact ⟨σ, hσ, hedges, rfl⟩

end Navigator
end CodeAtlas
