import CodeAtlas.Files.Tree
import CodeAtlas.Proofs.Graph.Agreement
import CodeAtlas.Proofs.Graph.Cleaning
import CodeAtlas.Search.Engine

/-! Questions to a clean index. Whatever an index holds beside its well-formed items, no question to
its graph, its sources or its search engine can tell. -/

namespace CodeAtlas

theorem mapM_congr {ε α β : Type} {f f' : α → Except ε β} {as : List α} (h : ∀ a ∈ as, f a = f' a) :
    as.mapM f = as.mapM f' := by
  induction as with
  | nil => rfl
  | cons a as ih =>
    rw [List.mapM_cons, List.mapM_cons, h a List.mem_cons_self,
      ih fun b hb => h b (List.mem_cons_of_mem a hb)]

/-! ### Questions to a navigator -/

structure Navigator.SameAnswers (v v' : Navigator) : Prop where
  graph : v'.graph = v.graph
  referencesInScope : v'.referencesInScope = v.referencesInScope
  dependencies : v'.dependencies = v.dependencies
  linked : v'.linked = v.linked
  rankableSymbols : v'.rankableSymbols = v.rankableSymbols
  rankableSubgraph : ∀ (α : Type) (direction : SubgraphDirection) (filter : Option String),
    (v'.rankableSubgraph direction filter : RankGraph α) = v.rankableSubgraph direction filter
  embeddable : v'.embeddable = v.embeddable

namespace Navigator
variable {g : SymbolGraph} {r r' : SourceResolver}

theorem referencesInScope_congr (hg : g.Spelled) (h : r.Agrees r') :
    (mk g r').referencesInScope = (mk g r).referencesInScope := by
  funext s
  cases hs : g.hasSymbol s with
  | false => simp [referencesInScope, SymbolGraph.find, hs, bind, Except.bind]
  | true =>
    have hspan : r'.span s = r.span s := h.span_eq s (hg.isLegalUri hs)
    simp only [referencesInScope, hspan]

theorem dependencies_congr (hg : g.Spelled) (h : r.Agrees r') :
    (mk g r').dependencies = (mk g r).dependencies := by
  funext s
  rw [dependencies, dependencies, referencesInScope_congr hg h]

theorem linked_congr (hg : g.Spelled) (h : r.Agrees r') : (mk g r').linked = (mk g r).linked := by
  funext s
  rw [linked, linked, dependencies_congr hg h]

theorem rankableSubgraph_congr (hg : g.Spelled) (h : r.Agrees r') (α : Type)
    (direction : SubgraphDirection) (filter : Option String) :
    ((mk g r').rankableSubgraph direction filter : RankGraph α) =
      (mk g r).rankableSubgraph direction filter := by
  have hpairs (nodes : Array Symbol) :
      (mk g r').linkedPairs direction nodes = (mk g r).linkedPairs direction nodes := by
    funext source
    rw [linkedPairs, linkedPairs, linked_congr hg h]
  simp only [rankableSubgraph, hpairs]
  rfl

theorem embeddable_congr (hg : g.Spelled) (h : r.Agrees r') :
    (mk g r').embeddable = (mk g r).embeddable := by
  have hsource (s : Symbol) (hs : s ∈ (mk g r).rankableSymbols none) : r'.source s = r.source s :=
    h.source_eq s (hg.symbols s (List.mem_of_mem_filter hs))
  have hfound : ((mk g r').rankableSymbols none).mapM (fun s => do return (s, ← r'.source s)) =
      ((mk g r).rankableSymbols none).mapM fun s => do return (s, ← r.source s) := by
    refine mapM_congr fun s hs => ?_
    rw [hsource s hs]
  simp only [embeddable, hfound]

theorem sameAnswers (hg : g.Spelled) (h : r.Agrees r') : (mk g r).SameAnswers (mk g r') where
  graph := rfl
  referencesInScope := referencesInScope_congr hg h
  dependencies := dependencies_congr hg h
  linked := linked_congr hg h
  rankableSymbols := rfl
  rankableSubgraph := rankableSubgraph_congr hg h
  embeddable := embeddable_congr hg h

end Navigator

/-! ### Questions to a search engine -/

namespace SearchEngine
variable {m : Type → Type} {α κ : Type} {e : SearchEngine m α κ} {r : SourceResolver}

def withResolver (e : SearchEngine m α κ) (r : SourceResolver) : SearchEngine m α κ :=
  { e with navigator := { e.navigator with resolver := r } }

theorem source_congr (h : e.navigator.resolver.Agrees r) :
    (e.withResolver r).source = e.source := by
  funext uri
  unfold source withSymbol
  cases hs : Symbol.parse? uri with
  | error cause => rfl
  | ok s =>
    have hlegal : isLegalUri s.uri := isLegalUri_of_symbol? (toOption_eq_some_iff.2 hs)
    have hsource : r.source s = e.navigator.resolver.source s := h.source_eq s hlegal
    simp only [withResolver, bind, Except.bind, Except.mapError, hsource]

theorem exactSearch_congr (h : e.navigator.resolver.Agrees r) :
    (e.withResolver r).exactSearch = e.exactSearch := by
  funext pattern
  simp only [exactSearch, withResolver, h.modules_eq]

variable [Scalar α]

theorem rankGraph_congr (hg : e.navigator.graph.Spelled) (h : e.navigator.resolver.Agrees r) :
    (e.withResolver r).rankGraph = e.rankGraph := by
  have hsubgraph := Navigator.rankableSubgraph_congr hg h α .bidirectional none
  exact congrArg (fun subgraph => SymbolRank.ofGraph subgraph e.rankConfig e.rowOrder) hsubgraph

variable [Monad m]

theorem rankSearch_congr (hg : e.navigator.graph.Spelled) (h : e.navigator.resolver.Agrees r) :
    (e.withResolver r).rankSearch = e.rankSearch := by
  have hfor : (e.withResolver r).rankFor = e.rankFor := by
    funext store query
    rw [rankFor, rankFor, rankGraph_congr hg h]
    rfl
  funext store query
  rw [rankSearch, rankSearch, hfor]
  rfl

theorem ask_congr (hg : e.navigator.graph.Spelled) (h : e.navigator.resolver.Agrees r) :
    (e.withResolver r).ask = e.ask := by
  funext store q
  rw [ask, ask, rankSearch_congr hg h, exactSearch_congr h, source_congr h]
  rfl

structure SameAnswers (e e' : SearchEngine m α κ) : Prop where
  references : e'.references = e.references
  callers : e'.callers = e.callers
  callees : e'.callees = e.callees
  source : e'.source = e.source
  exactSearch : e'.exactSearch = e.exactSearch
  uniformRank : e'.uniformRank = e.uniformRank
  rankSearch : e'.rankSearch = e.rankSearch
  rankSearchTop : e'.rankSearchTop = e.rankSearchTop
  dispatch : e'.dispatch = e.dispatch

theorem sameAnswers (hg : e.navigator.graph.Spelled) (h : e.navigator.resolver.Agrees r) :
    e.SameAnswers (e.withResolver r) where
  references := rfl
  callers := rfl
  callees := rfl
  source := source_congr h
  exactSearch := exactSearch_congr h
  uniformRank := by
    rw [uniformRank, uniformRank, rankGraph_congr hg h]
  rankSearch := rankSearch_congr hg h
  rankSearchTop := by
    funext store query k
    rw [rankSearchTop, rankSearchTop, rankSearch_congr hg h]
  dispatch := by
    funext store command
    rw [dispatch, dispatch, ask_congr hg h]

end SearchEngine

/-! ### Clean indexes -/

open SymbolGraph in
/-- An index and its clean part have the same graph, whatever finds the bodies of methods. Their
source indexes read the same files and agree on all that a legal uri can stand for, so the calls
they find are the same too, and no question to a graph of the index tells the one from the other. -/
theorem Index.answers_clean {m : Type → Type} [Monad m] {α κ σ : Type} [Scalar α]
    [MonadFiles (StateM σ)] (x : Index) (root : Option String) (st : σ) :
    (∀ resolver, build resolver x.clean = build resolver x) ∧
      ∃ (t t' : SourceIndex) (st' : σ),
        (SourceIndex.load root x : StateM σ SourceIndex).run st = (t, st') ∧
        (SourceIndex.load root x.clean : StateM σ SourceIndex).run st = (t', st') ∧
        t.resolver.Agrees t'.resolver ∧
        build (some t'.resolver) x.clean = build (some t.resolver) x ∧
        ∀ resolver g, build resolver x = .ok g →
          (Navigator.mk g t.resolver).SameAnswers (Navigator.mk g t'.resolver) ∧
          ∀ e : SearchEngine m α κ, e.navigator = ⟨g, t.resolver⟩ →
            e.SameAnswers (e.withResolver t'.resolver) := by
  have hbuild (resolver : Option SourceResolver) : build resolver x.clean = build resolver x :=
    SymbolGraph.build_clean resolver x
  let loaded := (SourceIndex.load root x : StateM σ SourceIndex).run st
  have hclean : (SourceIndex.load root x.clean : StateM σ SourceIndex).run st =
      (loaded.1.legal, loaded.2) := by
    rw [SourceIndex.load_clean]
    rfl
  have hagrees : loaded.1.resolver.Agrees loaded.1.legal.resolver := loaded.1.agrees_legal
  refine ⟨hbuild, loaded.1, loaded.1.legal, loaded.2, rfl, hclean, hagrees, ?_,
    fun resolver g hg => ?_⟩
  · rw [hbuild, build_congr hagrees]
  · have hspelled : g.Spelled := .of_build hg
    refine ⟨Navigator.sameAnswers hspelled hagrees, fun e he => ?_⟩
    exact SearchEngine.sameAnswers (he ▸ hspelled) (he ▸ hagrees)

def littered : Index where
  documents := [
    { path := "a.py"
      symbols := [
        { symbol := "local ", relationships := [{ symbol := "local f", isDefinition := true }] },
        { symbol := "local f", relationships := [{ symbol := "", isReference := true }] }]
      occurrences := [
        { range := [0, 4, 5], symbol := "local ", roles := 1 },
        { range := [0, 4, 5], symbol := "local f", roles := 1 },
        { range := [2, 5, 4], symbol := "local f", roles := 1 }] }]
  externalSymbols := [{ symbol := "f" }]

theorem Index.answers_clean_littered :
    littered.clean = SymbolGraph.kept ∧ SymbolGraph.build none littered =
      .ok SymbolGraph.keptGraph := by
  have hclean : littered.clean = SymbolGraph.kept := by decide
  obtain ⟨hbuild, -⟩ := @Index.answers_clean Id _ Float Float FileTree _ _ littered none {}
  refine ⟨hclean, ?_⟩
  rw [← hbuild, hclean]
  rfl

end CodeAtlas
