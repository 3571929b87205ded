import CodeAtlas.Proofs.Embedding.Scores
import CodeAtlas.Proofs.Graph.Agreement
import CodeAtlas.Proofs.Graph.Calls
import CodeAtlas.Proofs.Graph.Known
import CodeAtlas.Proofs.Rank.Order
import CodeAtlas.Proofs.Rank.Personalization
import CodeAtlas.Proofs.Search.Independence

/-! Ranked search. Whatever is stored, an answer lists the rankable symbols, and where the stored
embeddings do not tell these apart it is the ranking without a query. -/

namespace CodeAtlas.SearchEngine

variable {α κ σ : Type} [Scalar α]

/-- Every symbol once, by descending score, with equal scores by ascending uri. -/
structure IsRankingOf (symbols : List Symbol) (ranking : List (Symbol × α)) : Prop where
  perm : (ranking.map (·.1)).Perm symbols
  distinct : (ranking.map (·.1.uri)).Nodup
  ordered : (ranking.map SymbolRank.entry).Pairwise SymbolRank.Precedes

section
variable {m : Type → Type} {e : SearchEngine m α κ} {store : VectorStore κ} {vector : List κ}
  {weights : Weights α} {ranking : List (Symbol × α)}

/-- The stored embeddings do not tell the rankable symbols apart: there are none, they are of other
symbols, or they all have one score, which is exact. -/
inductive Indifferent (e : SearchEngine m α κ) (store : VectorStore κ) (vector : List κ) : Prop
  | empty (h : store.inSlot .code = [])
  | foreign (h : ∀ x ∈ store.inSlot .code, ∀ s ∈ e.navigator.rankableSymbols none, ¬x.symbol == s)
  | equal (hexact : Scalar.Exact α) (score : α)
    (h : ∀ scores, Similarity.scores e.norm e.widen vector (store.inSlot .code) = .ok scores →
      ∀ x ∈ scores, x.2 = score)

theorem mem_nodes_rankGraph {s : Symbol} :
    s ∈ e.rankGraph.nodes ↔ s ∈ e.navigator.rankableSymbols none := by
  change s ∈ (e.navigator.rankableSymbols none).toArray ↔ _
  exact List.mem_toArray

theorem rankFor_eq (h : e.personalization store vector = .ok weights) :
    e.rankFor store vector =
      (e.rankGraph.rank (if weights.isEmpty then none else some weights)).mapError .rank := by
  rw [rankFor, h]
  rfl

theorem exists_personalization_eq_ok (h : e.rankFor store vector = .ok ranking) :
    ∃ weights, e.personalization store vector = .ok weights := by
  obtain ⟨weights, hweights, -⟩ := bind_eq_ok_iff.1 h
  exact ⟨weights, mapError_eq_ok_iff.1 hweights⟩

theorem personalization_eq {scores : List (Symbol × α)}
    (h : Similarity.scores e.norm e.widen vector (store.inSlot .code) = .ok scores) :
    e.personalization store vector =
      .ok ((scores.map (·.1)).zip (Similarity.shiftedZScore (scores.map (·.2)) e.power)) := by
  rw [personalization, h]
  rfl

/-! ### Indifferent stores -/

theorem symbols_personalization_subset (h : e.personalization store vector = .ok weights) :
    weights.map (·.1) ⊆ (store.inSlot .code).map (·.symbol) := by
  obtain ⟨scores, hscores, h⟩ := bind_eq_ok_iff.1 h
  cases h
  exact List.Subset.trans (keys_zip_subset _ _) (Similarity.symbols_scores_subset hscores)

theorem personalization_eq_zero [Scalar.Exact α] {score : α}
    (hscore : ∀ scores, Similarity.scores e.norm e.widen vector (store.inSlot .code) = .ok scores →
      ∀ x ∈ scores, x.2 = score)
    (h : e.personalization store vector = .ok weights) : ∀ x ∈ weights, x.2 = 0 := by
  obtain ⟨scores, hscores, h⟩ := bind_eq_ok_iff.1 h
  have hreplicate : scores.map (·.2) = List.replicate scores.length score := by
    rw [List.eq_replicate_iff]
    refine ⟨List.length_map _, fun v hv => ?_⟩
    obtain ⟨x, hx, rfl⟩ := List.mem_map.1 hv
    exact hscore scores hscores x hx
  rw [hreplicate, Similarity.shiftedZScore_replicate] at h
  cases h
  intro x hx
  exact List.eq_of_mem_replicate (List.of_mem_zip hx).2

theorem Indifferent.value_eq_zero [Scalar.Lawful α] (h : e.Indifferent store vector)
    (hweights : e.personalization store vector = .ok weights) :
    ∀ s ∈ e.navigator.rankableSymbols none, weights.value s = 0 := by
  intro s hs
  refine Weights.value_eq_zero fun x hx hxs => ?_
  have hsymbol := symbols_personalization_subset hweights (List.mem_map_of_mem hx)
  obtain ⟨embedding, hembedding, hkey⟩ := List.mem_map.1 hsymbol
  cases h with
  | empty h =>
    rw [h] at hembedding
    cases hembedding
  | foreign h => exact absurd (hkey ▸ hxs) (h embedding hembedding s hs)
  | equal hexact score h => exact personalization_eq_zero h hweights x hx

theorem Indifferent.rankFor_eq_uniformRank [Scalar.Lawful α] (h : e.Indifferent store vector)
    (hweights : e.personalization store vector = .ok weights) :
    e.rankFor store vector = e.uniformRank := by
  have hrank : e.rankGraph.rank (some weights) = e.rankGraph.rank none :=
    SymbolRank.rank_of_value_eq_zero fun s hs =>
      h.value_eq_zero hweights s (mem_nodes_rankGraph.1 hs)
  rw [rankFor_eq hweights, uniformRank]
  split
  · rfl
  · rw [hrank]

/-! ### Answers -/

theorem isRankingOf_of_rankFor [Scalar.Lawful α] {resolver : Option SourceResolver} {x : Index}
    (hg : SymbolGraph.build resolver x = .ok e.navigator.graph)
    (h : e.rankFor store vector = .ok ranking) :
    IsRankingOf (e.navigator.rankableSymbols none) ranking := by
  obtain ⟨weights, hweights⟩ := exists_personalization_eq_ok h
  rw [rankFor_eq hweights, mapError_eq_ok_iff] at h
  obtain ⟨scores, rfl⟩ := SymbolRank.exists_eq_sorted h
  have hperm : ((e.rankGraph.sorted scores).map (·.1)).Perm (e.navigator.rankableSymbols none) :=
    SymbolRank.symbols_sorted_perm e.rankGraph scores
  have huris : ((e.navigator.rankableSymbols none).map (·.uri)).Nodup :=
    (SymbolGraph.Lists.of_build hg).distinct.sublist (List.filter_sublist.map _)
  refine ⟨hperm, ?_, SymbolRank.pairwise_sorted e.rankGraph scores⟩
  have hsame := hperm.map (·.uri)
  rw [List.map_map] at hsame
  exact hsame.nodup_iff.2 huris

end

variable {e : SearchEngine (StateM σ) α κ} {store : VectorStore κ} {query : String} {st : σ}
  {vector : List κ} {ranking : List (Symbol × α)}

theorem rankSearch_run (e : SearchEngine (StateM σ) α κ) (store : VectorStore κ) (query : String)
    (st : σ) :
    ((e.rankSearch store query).run st).1 =
      e.rankedFor store ((e.provider.vector query).run st).1 := by
  rw [rankSearch_eq]
  rfl

theorem exists_rankFor_eq_ok (h : ((e.rankSearch store query).run st).1 = .ok ranking) :
    ∃ vector, ((e.provider.vector query).run st).1 = .ok vector ∧
      e.rankFor store vector = .ok ranking := by
  rw [rankSearch_run] at h
  cases hvector : ((e.provider.vector query).run st).1 with
  | error cause =>
    rw [hvector] at h
    cases h
  | ok vector =>
    rw [hvector] at h
    exact ⟨vector, rfl, h⟩

theorem rankSearchTop_run (k : Nat) (h : ((e.rankSearch store query).run st).1 = .ok ranking) :
    ((e.rankSearchTop store query k).run st).1 = .ok (ranking.take k) := by
  have htop : ((e.rankSearchTop store query k).run st).1 =
      (((e.rankSearch store query).run st).1).map (·.take k) := rfl
  rw [htop, h]
  rfl

variable [Scalar.Lawful α]

/-- A ranked search lists the rankable symbols, and its best `k` come first in it. In a store that
does not tell the symbols apart it is the ranking without a query; there it even fails alike, once
the query is scored. -/
theorem rankSearch_lists {resolver : Option SourceResolver} {x : Index}
    (hg : SymbolGraph.build resolver x = .ok e.navigator.graph) (store : VectorStore κ)
    (query : String) (st : σ) :
    (∀ ranking, ((e.rankSearch store query).run st).1 = .ok ranking →
      IsRankingOf (e.navigator.rankableSymbols none) ranking ∧
        (∀ k, ((e.rankSearchTop store query k).run st).1 = .ok (ranking.take k) ∧
          (ranking.take k).length = min k ranking.length) ∧
        ∃ vector, ((e.provider.vector query).run st).1 = .ok vector ∧
          (e.Indifferent store vector → e.uniformRank = .ok ranking)) ∧
      ∀ vector scores, ((e.provider.vector query).run st).1 = .ok vector →
        Similarity.scores e.norm e.widen vector (store.inSlot .code) = .ok scores →
          e.Indifferent store vector →
          ((e.rankSearch store query).run st).1 = e.uniformRank := by
  constructor
  · intro ranking h
    obtain ⟨vector, hvector, hrank⟩ := exists_rankFor_eq_ok h
    obtain ⟨weights, hweights⟩ := exists_personalization_eq_ok hrank
    refine ⟨isRankingOf_of_rankFor hg hrank, fun k => ⟨rankSearchTop_run k h, List.length_take⟩,
      vector, hvector,
      fun hsame => ?_⟩
    rw [← hsame.rankFor_eq_uniformRank hweights]
    exact hrank
  · intro vector scores hvector hscores hsame
    rw [rankSearch_run, hvector]
    exact hsame.rankFor_eq_uniformRank (personalization_eq hscores)

/-! ### Two symbols with one score -/

open SymbolGraph VectorStore

theorem build_declaring {f c : Symbol} (hf : symbol? f.uri = some f) (hc : symbol? c.uri = some c)
    (hne : (f == c) = false) :
    build none { documents := [{ path := "a.py", symbols := [{ symbol := f.uri },
      { symbol := c.uri }] }] } =
      .ok { files := ["a.py"], symbols := [f, c], links := [(1, .contains "a.py" c),
        (0, .contains "a.py" f)] } := by
  have hne' : (c == f) = false := by rw [BEq.comm, hne]
  simp [build, addDocument, addDeclaration, addInformation, declared, hf, hc, hne, hne', addFile,
    addSymbol, hasSymbol, setDefinition, dropDefinitions, addLink, nextSlot, Link.defines,
    Link.definitionOf?, verify, definitionCount, count]

def evenEngine : SearchEngine (StateM Nat) ℚ Nat where
  navigator.graph.files := ["a.py"]
  navigator.graph.symbols := [.ofParts functionParts, .ofParts classParts]
  navigator.graph.links := [(1, .contains "a.py" (.ofParts classParts)),
    (0, .contains "a.py" (.ofParts functionParts))]
  navigator.resolver := SourceIndex.resolver ⟨[], []⟩
  rankConfig := .standard
  provider := lossyProvider
  norm := .l1
  widen := Nat.cast
  power := 2

def evenStore : VectorStore Nat :=
  (({} : VectorStore Nat).put ⟨.ofParts functionParts, "f", [3], .code⟩).put
    ⟨.ofParts classParts, "c", [5], .code⟩

theorem exists_scores_even : ∃ scores,
    Similarity.scores evenEngine.norm evenEngine.widen [4] (evenStore.inSlot .code) = .ok scores ∧
      ∀ x ∈ scores, x.2 = 1 := by
  have hvalues : (Similarity.scores evenEngine.norm evenEngine.widen [4]
      (evenStore.inSlot .code)).toOption.map
      (List.map (·.2)) = some [1, 1] := by decide +kernel
  obtain ⟨scores, hscores, hvalues⟩ := Option.map_eq_some_iff.1 hvalues
  refine ⟨scores, toOption_eq_some_iff.1 hscores, fun x hx => ?_⟩
  have hx : x.2 ∈ [(1 : ℚ), 1] := hvalues ▸ List.mem_map_of_mem hx
  simpa using hx

theorem rankSearch_lists_even : ∃ ranking,
    ((evenEngine.rankSearch evenStore "text").run 0).1 = .ok ranking ∧
      IsRankingOf [.ofParts functionParts, .ofParts classParts] ranking ∧
      ((evenEngine.rankSearchTop evenStore "text" 1).run 0).1 = .ok (ranking.take 1) ∧
      evenEngine.uniformRank = .ok ranking ∧
      ((evenEngine.rankSearch evenStore "text").run 0).1 = evenEngine.uniformRank := by
  have hsome : ((evenEngine.rankSearch evenStore "text").run 0).1.toOption.isSome =
      true := by decide +kernel
  obtain ⟨ranking, hranking⟩ := Option.isSome_iff_exists.1 hsome
  have hranking := toOption_eq_some_iff.1 hranking
  have hg :=
    build_declaring (symbol?_ofParts functionParts_legal)
      (symbol?_ofParts classParts_legal) (by decide)
  obtain ⟨hok, hsame⟩ := rankSearch_lists (e := evenEngine) hg evenStore "text" 0
  obtain ⟨hlists, htop, vector, hvector, huniform⟩ := hok ranking hranking
  cases hvector
  obtain ⟨scores, hscores, hone⟩ := exists_scores_even
  have hindifferent : evenEngine.Indifferent evenStore [4] :=
    .equal inferInstance 1 fun found hfound => Except.ok.inj (hscores.symm.trans hfound) ▸ hone
  have hrankable : evenEngine.navigator.rankableSymbols none =
      [.ofParts functionParts, .ofParts classParts] := by
    refine List.filter_eq_self.2 ?_
    change ∀ s ∈ [Symbol.ofParts functionParts, .ofParts classParts],
      Navigator.isRankable none s = true
    decide +kernel
  rw [hrankable] at hlists
  exact ⟨ranking, hranking, hlists, (htop 1).1, huniform hindifferent,
    hsame [4] scores rfl hscores hindifferent⟩

end CodeAtlas.SearchEngine
