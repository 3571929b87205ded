import CodeAtlas.Proofs.Graph.Callees
import CodeAtlas.Proofs.Graph.Known
import CodeAtlas.Proofs.Graph.Subgraph

/-! Which symbols the graph of those worth ranking links. Every node has a symbol of its own, so the
graph is told by them: its edges run as the bodies and relationships of its nodes lead, and what a
filter leaves out takes no other edge with it. -/

namespace CodeAtlas

variable {α : Type}

namespace RankGraph

def HasEdge (g : RankGraph α) (a b : Symbol) : Prop :=
  ∃ e ∈ g.edges, g.nodes[e.source]? = some a ∧ g.nodes[e.target]? = some b

/-- A graph with one node for each of its symbols, without loops and without parallel edges. -/
structure Simple (g : RankGraph α) : Prop where
  distinct : (g.nodes.toList.map (·.uri)).Nodup
  loopless : ∀ e ∈ g.edges, e.source ≠ e.target
  parallelless : (g.edges.map fun e => (e.source, e.target)).Nodup

/-- One graph has the nodes of another that are kept, in the same order, and every edge
between these. -/
structure InducedBy (part whole : RankGraph α) (keep : Symbol → Bool) : Prop where
  nodes_eq : part.nodes.toList = whole.nodes.toList.filter keep
  hasEdge_iff : ∀ a b, part.HasEdge a b ↔ keep a ∧ keep b ∧ whole.HasEdge a b

end RankGraph

namespace Navigator
variable {v : Navigator} {direction : SubgraphDirection} {filter : Option String} {a b : Symbol}

/-- Whether the body or a relationship of a symbol leads to another one. Nothing does if its
dependencies cannot be found. -/
def LeadsTo (v : Navigator) (a b : Symbol) : Prop :=
  ¬a == b ∧ ∃ deps, v.dependencies a = .ok deps ∧
    (deps.any (· == b) ∨ ∃ relatives, v.graph.relationships a = .ok relatives ∧
      relatives.any (· == b))

def Points (v : Navigator) : SubgraphDirection → Symbol → Symbol → Prop
  | .toDependents, a, b => v.LeadsTo a b
  | .fromDependents, a, b => v.LeadsTo b a
  | .bidirectional, a, b => v.LeadsTo a b ∨ v.LeadsTo b a

structure LinksRankable (v : Navigator) (graphs : SubgraphDirection → Option String → RankGraph α) :
    Prop where
  nodes_eq : ∀ direction filter, (graphs direction filter).nodes.toList = v.rankableSymbols filter
  simple : ∀ direction filter, (graphs direction filter).Simple
  unweighted : ∀ direction filter, ∀ e ∈ (graphs direction filter).edges, e.weight = .attributes []
  toDependents : ∀ filter a b, (graphs .toDependents filter).HasEdge a b ↔
    a ∈ v.rankableSymbols filter ∧ b ∈ v.rankableSymbols filter ∧ v.LeadsTo a b
  fromDependents : ∀ filter a b,
    (graphs .fromDependents filter).HasEdge a b ↔ (graphs .toDependents filter).HasEdge b a
  bidirectional : ∀ filter a b, (graphs .bidirectional filter).HasEdge a b ↔
    (graphs .toDependents filter).HasEdge a b ∨ (graphs .fromDependents filter).HasEdge a b
  induced : ∀ direction start,
    (graphs direction (some start)).InducedBy (graphs direction none) fun s =>
      s.dotpath.startsWith start

theorem exists_relationships (hs : v.graph.hasSymbol a) :
    ∃ relatives, v.graph.relationships a = .ok relatives := by
  simp only [SymbolGraph.relationships, SymbolGraph.find, hs, if_true]
  exact ⟨_, rfl⟩

theorem exists_linked_iff : (∃ targets, v.linked a = .ok targets ∧ targets.any (· == b)) ↔
    ∃ deps, v.dependencies a = .ok deps ∧
      (deps.any (· == b) ∨ ∃ relatives, v.graph.relationships a = .ok relatives ∧
        relatives.any (· == b)) := by
  unfold linked
  cases hdeps : v.dependencies a with
  | error e => simp [bind, Except.bind]
  | ok deps =>
    obtain ⟨relatives, hrelatives⟩ := exists_relationships (dependencies_eq_ok_iff.1 hdeps).1
    simp only [hrelatives, bind, Except.bind, pure, Except.pure, Except.ok.injEq, exists_eq_left',
      any_eraseDups, List.any_append, Bool.or_eq_true]

section
variable {nodes : List Symbol} {i j : Fin nodes.toArray.size}

theorem joins_iff_leadsTo (huris : (nodes.map (·.uri)).Nodup) (hi : nodes.toArray[i]? = some a)
    (hj : nodes.toArray[j]? = some b) : v.Joins nodes i j ↔ v.LeadsTo a b := by
  obtain rfl : nodes.toArray[i] = a :=
    Option.some.inj ((Array.getElem?_eq_getElem i.isLt).symm.trans hi)
  obtain rfl : nodes.toArray[j] = b :=
    Option.some.inj ((Array.getElem?_eq_getElem j.isLt).symm.trans hj)
  have hother : j ≠ i ↔ ¬nodes.toArray[i] == nodes.toArray[j] := by
    refine not_congr ⟨?_, fun h => (eq_of_node_beq huris h).symm⟩
    rintro rfl
    exact BEq.refl _
  rw [Joins, LeadsTo, exists_linked_iff, hother]

theorem mem_pairsOf_iff_points (huris : (nodes.map (·.uri)).Nodup) (hi : nodes.toArray[i]? = some a)
    (hj : nodes.toArray[j]? = some b) :
    (i, j) ∈ v.pairsOf direction nodes ↔ v.Points direction a b := by
  have hforward : v.Joins nodes i j ↔ v.LeadsTo a b := joins_iff_leadsTo huris hi hj
  have hbackward : v.Joins nodes j i ↔ v.LeadsTo b a := joins_iff_leadsTo huris hj hi
  rw [mem_pairsOf_iff huris]
  cases direction with
  | toDependents => simp [oriented, Points, hforward]
  | fromDependents => simp [oriented, Points, hbackward]
  | bidirectional =>
    simp only [oriented, Points, List.mem_cons, Prod.mk.injEq, List.not_mem_nil, or_false,
      ← hforward, ← hbackward]
    constructor
    · rintro ⟨k, l, hjoins, ⟨rfl, rfl⟩ | ⟨rfl, rfl⟩⟩
      · exact .inl hjoins
      · exact .inr hjoins
    · rintro (hjoins | hjoins)
      · exact ⟨i, j, hjoins, .inl ⟨rfl, rfl⟩⟩
      · exact ⟨j, i, hjoins, .inr ⟨rfl, rfl⟩⟩

end

theorem Points.ne (h : v.Points direction a b) : ¬a == b := by
  cases direction with
  | toDependents => exact h.1
  | fromDependents => exact fun hab => h.1 (BEq.symm hab)
  | bidirectional => exact h.elim (·.1) fun h hab => h.1 (BEq.symm hab)

theorem edges_rankableSubgraph (v : Navigator) (direction : SubgraphDirection)
    (filter : Option String) :
    (v.rankableSubgraph direction filter : RankGraph α).edges =
      (v.pairsOf direction (v.rankableSymbols filter)).map fun p => ⟨p.1, p.2, .attributes []⟩ :=
  rfl

theorem nodup_rankableSymbols (hdistinct : (v.graph.symbols.map (·.uri)).Nodup)
    (filter : Option String) :
    ((v.rankableSymbols filter).map (·.uri)).Nodup :=
  hdistinct.sublist (List.filter_sublist.map _)

theorem hasEdge_iff (hdistinct : (v.graph.symbols.map (·.uri)).Nodup) :
    (v.rankableSubgraph direction filter : RankGraph α).HasEdge a b ↔
      a ∈ v.rankableSymbols filter ∧ b ∈ v.rankableSymbols filter ∧ v.Points direction a b := by
  have huris := nodup_rankableSymbols hdistinct filter
  have hnode (s : Symbol) : s ∈ v.rankableSymbols filter ↔
      ∃ i : Fin (v.rankableSymbols filter).toArray.size, (v.rankableSymbols filter).toArray[i]? =
        some s := by
    rw [List.mem_iff_get]
    refine exists_congr fun i => ?_
    have hi : (v.rankableSymbols filter).toArray[i]? = some ((v.rankableSymbols filter).get i) :=
      Array.getElem?_eq_getElem i.isLt
    rw [hi, Option.some.injEq]
  rw [RankGraph.HasEdge, edges_rankableSubgraph, hnode, hnode]
  constructor
  · rintro ⟨e, he, ha, hb⟩
    obtain ⟨⟨i, j⟩, hp, rfl⟩ := List.mem_map.1 he
    exact ⟨⟨i, ha⟩, ⟨j, hb⟩, (mem_pairsOf_iff_points huris ha hb).1 hp⟩
  · rintro ⟨⟨i, ha⟩, ⟨j, hb⟩, hpoints⟩
    have hp := (mem_pairsOf_iff_points huris ha hb).2 hpoints
    exact ⟨_, List.mem_map_of_mem hp, ha, hb⟩

theorem simple_rankableSubgraph (hdistinct : (v.graph.symbols.map (·.uri)).Nodup)
    (direction : SubgraphDirection) (filter : Option String) :
    (v.rankableSubgraph direction filter : RankGraph α).Simple := by
  have huris := nodup_rankableSymbols hdistinct filter
  refine ⟨huris, fun e he => ?_, ?_⟩
  · rw [edges_rankableSubgraph] at he
    obtain ⟨⟨i, j⟩, hp, rfl⟩ := List.mem_map.1 he
    intro hloop
    obtain rfl : i = j := hloop
    have hi : (v.rankableSymbols filter).toArray[i]? = some (v.rankableSymbols filter).toArray[i] :=
      Array.getElem?_eq_getElem i.isLt
    have hself := (mem_pairsOf_iff_points huris hi hi).1 hp
    exact hself.ne (BEq.refl _)
  · have hpairs : ((v.rankableSubgraph direction filter : RankGraph α).edges.map fun e =>
        (e.source, e.target)) =
        v.pairsOf direction (v.rankableSymbols filter) := by
      rw [edges_rankableSubgraph, List.map_map]
      exact List.map_id _
    rw [hpairs]
    exact nodup_pairsOf

theorem rankableSymbols_some (v : Navigator) (start : String) :
    v.rankableSymbols (some start) =
      (v.rankableSymbols none).filter fun s => s.dotpath.startsWith start := by
  rw [rankableSymbols, rankableSymbols, List.filter_filter]
  refine List.filter_congr fun s _ => ?_
  simp [isRankable, Bool.and_comm]

/-- The graph of rankable symbols links what leads from one of them to another. The symbols of any
graph have uris of their own, by which it finds them. -/
theorem rankableSubgraph_links (hdistinct : (v.graph.symbols.map (·.uri)).Nodup) :
    v.LinksRankable fun direction filter =>
      (v.rankableSubgraph direction filter : RankGraph α) where
  nodes_eq _ _ := rfl
  simple := simple_rankableSubgraph hdistinct
  unweighted direction filter e he := by
    rw [edges_rankableSubgraph] at he
    obtain ⟨p, -, rfl⟩ := List.mem_map.1 he
    rfl
  toDependents filter a b := hasEdge_iff hdistinct
  fromDependents filter a b := by
    rw [hasEdge_iff hdistinct, hasEdge_iff hdistinct]
    exact and_left_comm
  bidirectional filter a b := by
    simp only [hasEdge_iff hdistinct, ← and_or_left]
    rfl
  induced direction start := by
    refine ⟨rankableSymbols_some v start, fun a b => ?_⟩
    simp only [hasEdge_iff hdistinct, rankableSymbols_some, List.mem_filter]
    constructor
    · rintro ⟨⟨ha, hkeepa⟩, ⟨hb, hkeepb⟩, hpoints⟩
      exact ⟨hkeepa, hkeepb, ha, hb, hpoints⟩
    · rintro ⟨hkeepa, hkeepb, ha, hb, hpoints⟩
      exact ⟨⟨ha, hkeepa⟩, ⟨hb, hkeepb⟩, hpoints⟩

section
open SymbolGraph

theorem leadsTo_bodied {resolver : Option SourceResolver} {g : SymbolGraph}
    (hg : build resolver (demoBodied true) = .ok g) :
    (Navigator.mk g (demoSources true)).LeadsTo (.ofParts functionParts) (.ofParts classParts) := by
  have hf := symbol?_ofParts functionParts_legal
  have hc := symbol?_ofParts classParts_legal
  obtain ⟨deps, hdeps, hclass⟩ := exists_dependencies_bodied hf hc (by decide) (by decide) hg
  have hany : (deps.filter Symbol.isCallable).any (· == .ofParts classParts) := by
    rw [hclass]
    simp
  obtain ⟨t, ht, htc⟩ := List.any_eq_true.1 hany
  exact ⟨by decide, deps, hdeps, .inl (List.any_eq_true.2 ⟨t, List.mem_of_mem_filter ht, htc⟩)⟩

theorem rankableSubgraph_links_bodied : ∃ (v : Navigator)
    (graphs : SubgraphDirection → Option String → RankGraph Float),
    build (some (demoSources true)) (demoBodied true) = .ok v.graph ∧
      (v.graph.symbols.map (·.uri)).Nodup ∧
      graphs = (fun direction filter => v.rankableSubgraph direction filter) ∧
        v.LinksRankable graphs ∧
      (graphs .toDependents none).HasEdge (.ofParts functionParts) (.ofParts classParts) ∧
      (graphs .fromDependents none).HasEdge (.ofParts classParts) (.ofParts functionParts) ∧
      ¬(graphs .toDependents (some "demo.f")).HasEdge (.ofParts functionParts)
        (.ofParts classParts) := by
  have hf := symbol?_ofParts functionParts_legal
  have hc := symbol?_ofParts classParts_legal
  have hrange : SourceRange.ofRaw? [1, 4, 5] = some ⟨1, 4, 1, 5⟩ := by decide
  obtain ⟨g, hg, -⟩ := exists_build (some (demoSources true)) (demoBodied true)
  have hdistinct := (Lists.of_build hg).distinct
  have hlinks : (Navigator.mk g (demoSources true)).LinksRankable
      (fun direction filter => (rankableSubgraph _ direction filter : RankGraph Float)) :=
    rankableSubgraph_links hdistinct
  have hfunction : Symbol.ofParts functionParts ∈
      (Navigator.mk g (demoSources true)).rankableSymbols none := by
    refine List.mem_filter.2 ⟨(mem_symbols_iff hg).2 ?_, by decide +kernel⟩
    simp [demoBodied, bodied, namesOf, documentNames, informationNames, hf]
  have hclass : Symbol.ofParts classParts ∈
      (Navigator.mk g (demoSources true)).rankableSymbols none := by
    refine List.mem_filter.2 ⟨(mem_symbols_iff hg).2 ?_, by decide +kernel⟩
    simp [demoBodied, bodied, namesOf, documentNames, referencesOf, referenceOf?, hc, hrange]
  have hedge := (hlinks.toDependents none _ _).2 ⟨hfunction, hclass, leadsTo_bodied hg⟩
  have houtside : (Symbol.ofParts classParts).dotpath.startsWith "demo.f" =
      false := by decide +kernel
  refine ⟨⟨g, demoSources true⟩, _, hg, hdistinct, rfl, hlinks, hedge,
    (hlinks.fromDependents none _ _).2 hedge, fun h => ?_⟩
  obtain ⟨-, hkept, -⟩ := ((hlinks.induced .toDependents "demo.f").hasEdge_iff _ _).1 h
  rw [houtside] at hkept
  cases hkept

end

end Navigator
end CodeAtlas
