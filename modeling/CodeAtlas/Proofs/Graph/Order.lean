import CodeAtlas.Proofs.Graph.Agreement
import CodeAtlas.Proofs.Graph.Known
import CodeAtlas.Proofs.Graph.Subgraph
import CodeAtlas.Proofs.Ordered

/-! The order of the documents. Where every symbol is declared and defined in one document only, no
question to the graph tells in which order the documents came. -/

namespace CodeAtlas

def Link.definedUri? : Link → Option String
  | contains _ symbol => some symbol.uri
  | _ => none

def Document.houses (d : Document) (s : Symbol) : Bool :=
  SymbolGraph.declares d s || SymbolGraph.defines d s

/-- Documents have different paths, and no symbol is at home in two of them. -/
structure Index.OneHome (x : Index) : Prop where
  paths : (x.documents.map (·.path)).Nodup
  home : ∀ d ∈ x.documents, ∀ e ∈ x.documents, ∀ s, d.houses s → e.houses s → d = e

def Index.reorder (x : Index) (ds : List Document) : Index := { x with documents := ds }

/-- Two navigators that answer every question alike. -/
structure Navigator.Alike (v v' : Navigator) : Prop where
  definingFile? : ∀ s, v'.graph.definingFile? s = v.graph.definingFile? s
  references : ∀ s, v'.graph.references s = v.graph.references s
  referencesInSpan : ∀ span, v'.graph.referencesInSpan span = v.graph.referencesInSpan span
  callers : ∀ s, SameAnswer (v.graph.callers s) (v'.graph.callers s)
  callees : ∀ s, SameAnswer (v.graph.callees s) (v'.graph.callees s)
  relationships : ∀ s, SameAnswer (v.graph.relationships s) (v'.graph.relationships s)
  dependencies : ∀ s, v'.dependencies s = v.dependencies s
  stats : v'.graph.stats = v.graph.stats
  subgraph : ∀ {α : Type} direction filter,
    (v.rankableSubgraph direction filter : RankGraph α).SameUpToNumbering
      (v'.rankableSubgraph direction filter)

namespace Index.OneHome
variable {x : Index} {ds : List Document}

theorem reorder (h : x.OneHome) (hds : ds.Perm x.documents) : (x.reorder ds).OneHome where
  paths := (hds.map _).nodup_iff.2 h.paths
  home d hd e he := h.home d (hds.mem_iff.1 hd) e (hds.mem_iff.1 he)

theorem eq_of_path (h : x.OneHome) {d e : Document} (hd : d ∈ x.documents) (he : e ∈ x.documents)
    (hpath : d.path = e.path) : d = e :=
  List.inj_on_of_nodup_map h.paths hd he hpath

end Index.OneHome

/-! ### Sources -/

namespace SourceIndex
open SymbolGraph
variable {x : Index} {ds : List Document} {textOf : Document → Option String}

theorem lookup_reverse_flatMap {κ ν : Type} [BEq κ] (f : Document → List (κ × ν))
    (ds : List Document) (k : κ) :
    (ds.flatMap f).reverse.lookup k = ds.reverse.findSome? fun d => (f d).reverse.lookup k := by
  induction ds with
  | nil => rfl
  | cons d ds ih =>
    rw [List.flatMap_cons, List.reverse_append, List.lookup_append, ih, List.reverse_cons,
      List.findSome?_append]
    simp

theorem text?_build (textOf : Document → Option String) (x : Index) (path : String) :
    (build textOf x).text? path =
      x.documents.reverse.findSome? fun d => if path == d.path then textOf d else none := by
  rw [text?, build, Ordered.lookup_ofPairs, Ordered.lookup_reverse_filterMap]
  congr 1
  funext d
  cases textOf d <;> simp

theorem text?_reorder (h : x.OneHome) (hds : ds.Perm x.documents) (path : String) :
    (build textOf (x.reorder ds)).text? path = (build textOf x).text? path := by
  have hperm : ds.reverse.Perm x.documents.reverse :=
    ds.reverse_perm.trans (hds.trans x.documents.reverse_perm.symm)
  rw [text?_build, text?_build]
  refine findSome?_perm hperm fun d hd e he hdp hep => ?_
  have hdpath : path = d.path := by
    by_contra hne
    simp [hne] at hdp
  have hepath : path = e.path := by
    by_contra hne
    simp [hne] at hep
  exact h.eq_of_path (List.mem_reverse.1 hd) (List.mem_reverse.1 he) (hdpath.symm.trans hepath)

theorem site?_reorder (h : x.OneHome) (hds : ds.Perm x.documents) {s t : Symbol}
    (hs : symbol? s.uri = some t) :
    (build textOf (x.reorder ds)).site? s.uri = (build textOf x).site? s.uri := by
  have hperm : ds.reverse.Perm x.documents.reverse :=
    ds.reverse_perm.trans (hds.trans x.documents.reverse_perm.symm)
  have hhouses : ∀ d : Document,
      ((d.occurrences.filterMap (definition? d.path)).reverse.lookup s.uri).isSome →
        d.houses s := by
    intro d hd
    have hholds : holds d s.uri := by
      have hpath := lookup_definitions_of_document d s.uri
      by_contra hnot
      rw [if_neg hnot] at hpath
      simp [Option.map_eq_none_iff.1 hpath] at hd
    rw [holds_eq_defines hs] at hholds
    rw [Document.houses, hholds, Bool.or_true]
  simp only [site?, build, lookup_reverse_flatMap]
  exact findSome?_perm hperm fun d hd e he hds hes =>
    h.home d (List.mem_reverse.1 hd) e (List.mem_reverse.1 he) s (hhouses d hds) (hhouses e hes)

theorem span?_reorder (textOf : Document → Option String) (h : x.OneHome)
    (hds : ds.Perm x.documents) {s t : Symbol} (hs : symbol? s.uri = some t) :
    (build textOf (x.reorder ds)).span? s = (build textOf x).span? s := by
  have hspan : (build textOf (x.reorder ds)).spanOf = (build textOf x).spanOf := by
    funext site
    unfold spanOf
    rw [text?_reorder h hds]
  rw [span?, span?, site?_reorder h hds hs, hspan]

theorem span?_path_of_declared (h : x.OneHome) {d : Document} (hd : d ∈ x.documents) {s : Symbol}
    (hs : s ∈ declared d) {span : SourceSpan} (hspan : (build textOf x).span? s = some span) :
    span.path = d.path := by
  have hpath := span?_path textOf x s
  rw [hspan, funext (holds_eq_defines (symbol?_of_mem_declared hs))] at hpath
  obtain ⟨f, hf, hfspan⟩ := Option.map_eq_some_iff.1 hpath.symm
  have hdefines : defines f s := by simpa using List.find?_some hf
  have hfd : f = d := by
    refine h.home f (List.mem_reverse.1 (List.mem_of_find?_eq_some hf)) d hd s ?_ ?_
    · rw [Document.houses, hdefines, Bool.or_true]
    · rw [Document.houses, (declares_iff_mem (symbol?_of_mem_declared hs)).2 hs, Bool.true_or]
  rw [← hfd, hfspan]

end SourceIndex

namespace SymbolGraph
variable {x : Index} {ds : List Document} {g g' : SymbolGraph} {textOf : Document → Option String}

/-! ### Questions to the links -/

theorem valuesOf_mentions (g : SymbolGraph) (s : Symbol) (file : String) :
    Ordered.valuesOf (g.mentions s) file =
      (g.recordedIn file).filterMap fun r => if r.symbol == s then some ⟨s, r.site⟩ else none := by
  rw [Ordered.valuesOf, mentions, recordedIn, picked, List.filterMap_filterMap,
    List.filterMap_filterMap]
  refine List.filterMap_congr ?_
  rintro ⟨slot, l⟩ _
  cases l with
  | reference symbol path site =>
    by_cases hfile : path = file <;> cases hs : symbol == s <;> simp [Link.recordedIn?, hs, hfile]
  | _ => rfl

theorem references_eq {s : Symbol} (hfind : g'.find s = g.find s)
    (hrecorded : g'.recordedIn = g.recordedIn) :
    g'.references s = g.references s := by
  have hgroups : (Ordered.group (g'.mentions s)).Perm (Ordered.group (g.mentions s)) := by
    refine Ordered.group_perm fun file => ?_
    rw [valuesOf_mentions, valuesOf_mentions, hrecorded]
  have hkeys := (Ordered.groups_group (g.mentions s)).keys
  rw [references, references, hfind]
  congr 1
  funext _
  refine congrArg Except.ok (Ordered.mergeSort_perm_eq (hgroups.map _) ?_)
  rw [List.map_map]
  exact hkeys

theorem sameAnswer_targets {pick : Link → Option Symbol} {s : Symbol} (hfind : g'.find s = g.find s)
    (h : (g'.picked pick).Perm (g.picked pick)) :
    SameAnswer (do g.find s; return g.targets pick) (do g'.find s; return g'.targets pick) := by
  rw [hfind]
  cases g.find s with
  | error e => exact rfl
  | ok _ =>
    intro t
    rw [any_targets, any_targets, h.any_eq]

theorem count_eq_of_picked {p : Link → Bool}
    (h : (g'.picked fun l => if p l then some l else none).Perm
      (g.picked fun l => if p l then some l else none)) :
    g'.count p = g.count p := by
  have hsome : ∀ l, p l = (if p l then some l else none).isSome := by
    intro l
    cases p l <;> rfl
  rw [count_eq_length_picked _ g' hsome, count_eq_length_picked _ g hsome, h.length_eq]

theorem count_definedUri? (g : SymbolGraph) (s : Symbol) :
    (g.picked Link.definedUri?).count s.uri = g.definitionCount s := by
  rw [definitionCount, SymbolGraph.count, ← List.countP_eq_length_filter, List.count, picked,
    List.countP_filterMap]
  refine List.countP_congr ?_
  rintro ⟨slot, l⟩ _
  cases l with
  | contains file symbol =>
    simp [Link.definedUri?, Link.defines, Link.definitionOf?, Symbol.beq_iff]
  | _ => exact Iff.rfl

theorem count_isContains_eq (h : ∀ s, g'.definitionCount s = g.definitionCount s) :
    g'.count Link.isContains = g.count Link.isContains := by
  have hperm : (g'.picked Link.definedUri?).Perm (g.picked Link.definedUri?) := by
    refine List.perm_iff_count.2 fun uri => ?_
    have hcount := h ⟨uri, ⟨"", {}, []⟩⟩
    rwa [← count_definedUri?, ← count_definedUri?] at hcount
  have hsome : ∀ l : Link, l.isContains = (Link.definedUri? l).isSome := by
    intro l
    cases l <;> rfl
  rw [count_eq_length_picked _ g' hsome, count_eq_length_picked _ g hsome, hperm.length_eq]

/-! ### Links -/

theorem recordedBy_perm {ds' : List Document} (hpaths : (ds.map (·.path)).Nodup)
    (hds : ds'.Perm ds) :
    recordedBy ds' = recordedBy ds := by
  funext file
  by_cases h : ∃ d ∈ ds, d.path = file
  · obtain ⟨d, hd, rfl⟩ := h
    rw [recordedBy_path hpaths hd,
      recordedBy_path ((hds.map _).nodup_iff.2 hpaths) (hds.mem_iff.2 hd)]
  · have hnone : ∀ d ∈ ds, d.path ≠ file := fun d hd hpath => h ⟨d, hd, hpath⟩
    rw [recordedBy_eq_nil hnone, recordedBy_eq_nil fun d hd => hnone d (hds.mem_iff.1 hd)]

def ownLinks (resolver : SourceResolver) (d : Document) : List Link :=
  documentLinks d ++ methodLinks (some resolver) (recordedBy [d]) d

theorem bodyLinks_congr {resolver resolver' : SourceResolver}
    {recorded recorded' : String → List Reference}
    {m : Symbol} (hresolver : resolver'.span m = resolver.span m)
    (hrecorded : ∀ span, resolver.span m = .ok (some span) →
      recorded' span.path = recorded span.path) :
    bodyLinks resolver' recorded' m = bodyLinks resolver recorded m := by
  unfold bodyLinks
  rw [hresolver]
  rcases hspan : resolver.span m with e | (_ | span)
  · rfl
  · rfl
  · simp only [hrecorded span hspan]

theorem methodLinks_congr {resolver resolver' : SourceResolver}
    {recorded recorded' : String → List Reference}
    {d : Document}
    (h : ∀ m ∈ declared d, bodyLinks resolver' recorded' m = bodyLinks resolver recorded m) :
    methodLinks (some resolver') recorded' d = methodLinks (some resolver) recorded d := by
  rw [methodLinks, methodLinks]
  exact List.flatMap_congr fun m hm => h m (List.mem_of_mem_filter hm)

theorem linksAfter_eq_flatMap {resolver : SourceResolver} {before : List Document}
    (hpaths : ((before ++ ds).map (·.path)).Nodup)
    (hspan : ∀ d ∈ ds, ∀ m ∈ declared d, ∀ span, resolver.span m = .ok (some span) →
      span.path = d.path) :
    linksAfter (some resolver) before ds = ds.flatMap (ownLinks resolver) := by
  induction ds generalizing before with
  | nil => rfl
  | cons d ds ih =>
    rw [List.append_cons] at hpaths
    have hupTo : ((before ++ [d]).map (·.path)).Nodup := by
      rw [List.map_append] at hpaths
      exact (List.nodup_append.1 hpaths).1
    have hmethods : methodLinks (some resolver) (recordedBy (before ++ [d])) d =
        methodLinks (some resolver) (recordedBy [d]) d := by
      refine methodLinks_congr fun m hm => bodyLinks_congr rfl fun span hmspan => ?_
      have hown : ([d].map (·.path)).Nodup := List.nodup_singleton d.path
      rw [hspan d List.mem_cons_self m hm span hmspan, recordedBy_path hupTo (by simp),
        recordedBy_path hown (List.mem_singleton_self d)]
    rw [linksAfter, hmethods, ih hpaths fun e he => hspan e (List.mem_cons_of_mem d he),
      List.flatMap_cons]
    rfl

theorem lasting_eq_ownLinks (h : x.OneHome)
    (hg : build (some (SourceIndex.build textOf x).resolver) x = .ok g) :
    g.lasting = (x.documents.flatMap (ownLinks (SourceIndex.build textOf x).resolver) ++
      x.externalSymbols.flatMap informationLinks).reverse := by
  rw [lasting_of_build hg, linksAfter_eq_flatMap (by simpa using h.paths)]
  intro d hd m hm span hspan
  exact SourceIndex.span?_path_of_declared h hd hm (Except.ok.inj hspan)

section
variable (h : x.OneHome) (hds : ds.Perm x.documents)
  (hg : build (some (SourceIndex.build textOf x).resolver) x = .ok g)
  (hg' : build (some (SourceIndex.build textOf (x.reorder ds)).resolver) (x.reorder ds) = .ok g')
include h hds hg hg'

theorem lasting_reorder : g'.lasting.Perm g.lasting := by
  have hown : ∀ d ∈ ds, ownLinks (SourceIndex.build textOf (x.reorder ds)).resolver d =
      ownLinks (SourceIndex.build textOf x).resolver d := by
    intro d _
    rw [ownLinks, ownLinks, methodLinks_congr fun m hm => bodyLinks_congr ?_ fun _ _ => rfl]
    exact congrArg Except.ok (SourceIndex.span?_reorder textOf h hds (symbol?_of_mem_declared hm))
  have hdocuments : (ds.flatMap (ownLinks (SourceIndex.build textOf (x.reorder ds)).resolver)).Perm
      (x.documents.flatMap (ownLinks (SourceIndex.build textOf x).resolver)) := by
    rw [List.flatMap_congr hown]
    exact hds.flatMap_right _
  rw [lasting_eq_ownLinks (h.reorder hds) hg', lasting_eq_ownLinks h hg]
  exact (List.reverse_perm _).trans ((hdocuments.append_right _).trans (List.reverse_perm _).symm)

theorem picked_reorder {β : Type} {pick : Link → Option β}
    (hpick : ∀ file s, pick (.contains file s) = none) :
    (g'.picked pick).Perm (g.picked pick) := by
  rw [picked_eq_filterMap_lasting hpick, picked_eq_filterMap_lasting hpick]
  exact (lasting_reorder h hds hg hg').filterMap pick

end

/-! ### Symbols and references, whatever resolver there is -/

section
variable {resolver resolver' : Option SourceResolver} (h : x.OneHome) (hds : ds.Perm x.documents)
  (hg : build resolver x = .ok g) (hg' : build resolver' (x.reorder ds) = .ok g')
include hds hg hg'

theorem symbols_reorder : g'.symbols.Perm g.symbols := by
  refine (List.perm_ext_iff_of_nodup (nodup_symbols hg') (nodup_symbols hg)).2 fun s => ?_
  rw [mem_symbols_iff hg', mem_symbols_iff hg]
  exact ((hds.flatMap_right documentNames).append_right _).mem_iff

theorem find_reorder (s : Symbol) : g'.find s = g.find s := by
  rw [find, find, hasSymbol, (symbols_reorder hds hg hg').any_eq]
  rfl

theorem definitionCount_reorder (s : Symbol) : g'.definitionCount s = g.definitionCount s := by
  rw [(Tracks.of_build hg').definitionCount_eq, (Tracks.of_build hg).definitionCount_eq,
    any_homesOf, any_homesOf, Index.reorder, hds.any_eq]

include h

theorem definingFile?_reorder (s : Symbol) : g'.definingFile? s = g.definingFile? s := by
  have hperm : ds.reverse.Perm x.documents.reverse :=
    ds.reverse_perm.trans (hds.trans x.documents.reverse_perm.symm)
  rw [(Tracks.of_build hg').definingFile?_eq, (Tracks.of_build hg).definingFile?_eq,
    lastHome?_homesOf, lastHome?_homesOf]
  congr 1
  exact find?_perm hperm fun d hd e he =>
    h.home d (List.mem_reverse.1 hd) e (List.mem_reverse.1 he) s

theorem recordedIn_reorder : g'.recordedIn = g.recordedIn := by
  rw [recordedIn_of_build hg', recordedIn_of_build hg]
  exact recordedBy_perm h.paths hds

theorem referencesInSpan_reorder (span : SourceSpan) :
    g'.referencesInSpan span = g.referencesInSpan span := by
  rw [referencesInSpan_eq_enclosed, referencesInSpan_eq_enclosed, recordedIn_reorder h hds hg hg']

end

/-! ### Both graphs side by side -/

theorem dependencies_reorder {resolver resolver' : Option SourceResolver}
    (textOf : Document → Option String) (h : x.OneHome) (hds : ds.Perm x.documents)
    (hg : build resolver x = .ok g) (hg' : build resolver' (x.reorder ds) = .ok g') (s : Symbol) :
    (Navigator.mk g' (SourceIndex.build textOf (x.reorder ds)).resolver).dependencies s =
      (Navigator.mk g (SourceIndex.build textOf x).resolver).dependencies s := by
  have hscope :
      (Navigator.mk g' (SourceIndex.build textOf (x.reorder ds)).resolver).referencesInScope s =
      (Navigator.mk g (SourceIndex.build textOf x).resolver).referencesInScope s := by
    simp only [Navigator.referencesInScope, find_reorder hds hg hg',
      definingFile?_reorder h hds hg hg', referencesInSpan_reorder h hds hg hg']
    cases hs : g.hasSymbol s with
    | false => simp [find, hs, bind, Except.bind]
    | true =>
      -- a symbol that the graph knows has a legal uri, and for such the sources agree
      obtain ⟨t, ht, hts⟩ := List.any_eq_true.1 hs
      have hlegal := symbol?_of_mem_symbols hg ht
      rw [Symbol.beq_iff.1 hts] at hlegal
      have hspan := SourceIndex.span?_reorder textOf h hds hlegal
      simp only [SourceIndex.resolver, hspan]
  rw [Navigator.dependencies, Navigator.dependencies, hscope]

theorem sameAnswer_linked {v v' : Navigator} {s : Symbol}
    (hdependencies : v'.dependencies s = v.dependencies s)
    (hrelationships : SameAnswer (v.graph.relationships s) (v'.graph.relationships s)) :
    SameAnswer (v.linked s) (v'.linked s) := by
  rw [Navigator.linked, Navigator.linked, hdependencies]
  cases v.dependencies s with
  | error e => exact rfl
  | ok dependencies =>
    cases hr : v.graph.relationships s <;> cases hr' : v'.graph.relationships s <;>
      rw [hr, hr'] at hrelationships
    · exact hrelationships
    · exact hrelationships.elim
    · exact hrelationships.elim
    · intro t
      rw [any_eraseDups, any_eraseDups, List.any_append, List.any_append, hrelationships t]

theorem stats_reorder (h : x.OneHome) (hds : ds.Perm x.documents)
    (hg : build (some (SourceIndex.build textOf x).resolver) x = .ok g)
    (hg' : build (some (SourceIndex.build textOf (x.reorder ds)).resolver) (x.reorder ds) =
      .ok g') :
    g'.stats = g.stats := by
  have hfiles : g'.files.length = g.files.length := by
    rw [files_of_build hg' (h.reorder hds).paths, files_of_build hg h.paths, List.length_map,
      List.length_map]
    exact hds.length_eq
  have hlasting {p : Link → Bool} (hp : ∀ file s, p (.contains file s) = false) : g'.count p =
      g.count p :=
    count_eq_of_picked (picked_reorder h hds hg hg' fun file s => by rw [hp]; rfl)
  rw [stats, stats, hfiles, (symbols_reorder hds hg hg').length_eq,
    count_isContains_eq (definitionCount_reorder hds hg hg'), hlasting fun _ _ => rfl,
    hlasting fun _ _ => rfl, hlasting fun _ _ => rfl]

/-- Where documents have different paths and every symbol one home among them, the graph of the
documents in any other order answers all questions alike. -/
theorem build_reorder (textOf : Document → Option String) (h : x.OneHome)
    (hds : ds.Perm x.documents) :
    ∃ g g', build (some (SourceIndex.build textOf x).resolver) x = .ok g ∧
      build (some (SourceIndex.build textOf (x.reorder ds)).resolver) (x.reorder ds) = .ok g' ∧
      Navigator.Alike ⟨g, (SourceIndex.build textOf x).resolver⟩
        ⟨g', (SourceIndex.build textOf (x.reorder ds)).resolver⟩ := by
  obtain ⟨g, hg, -⟩ := exists_build (some (SourceIndex.build textOf x).resolver) x
  obtain ⟨g', hg', -⟩ :=
    exists_build (some (SourceIndex.build textOf (x.reorder ds)).resolver) (x.reorder ds)
  have hfind := find_reorder hds hg hg'
  have hpicked {pick : Link → Option Symbol}
      (hpick : ∀ file s, pick (.contains file s) = none) (s : Symbol) :=
    sameAnswer_targets (hfind s) (picked_reorder h hds hg hg' hpick)
  have hdependencies := dependencies_reorder textOf h hds hg hg'
  have hcallers (s : Symbol) : SameAnswer (g.callers s) (g'.callers s) := hpicked (fun _ _ => rfl) s
  have hcallees (s : Symbol) : SameAnswer (g.callees s) (g'.callees s) := hpicked (fun _ _ => rfl) s
  have hrelationships (s : Symbol) : SameAnswer (g.relationships s) (g'.relationships s) :=
    hpicked (fun _ _ => rfl) s
  refine ⟨g, g', hg, hg', ?_⟩
  exact {
    definingFile? := definingFile?_reorder h hds hg hg'
    references := fun s => references_eq (hfind s) (recordedIn_reorder h hds hg hg')
    referencesInSpan := referencesInSpan_reorder h hds hg hg'
    callers := hcallers
    callees := hcallees
    relationships := hrelationships
    dependencies := hdependencies
    stats := stats_reorder h hds hg hg'
    subgraph := Navigator.rankableSubgraph_sameUpToNumbering (symbols_reorder hds hg hg')
      (Lists.of_build hg).distinct fun s => sameAnswer_linked (hdependencies s) (hrelationships s) }

def housed (f c : Symbol) : Index where
  documents := [
    { path := "a.py"
      symbols := [{ symbol := f.uri }]
      occurrences := [
        { range := [0, 4, 5], symbol := f.uri, roles := 1, enclosingRange := [0, 0, 2, 0] },
        { range := [1, 4, 5], symbol := c.uri }] },
    { path := "b.py", symbols := [{ symbol := c.uri }] }]

theorem houses_housed {f c : Symbol} (hf : symbol? f.uri = some f) (hc : symbol? c.uri = some c)
    (s : Symbol) :
    (housed f c).documents.map (·.houses s) = [f == s, c == s] := by
  have hrange : SourceRange.ofRaw? [0, 4, 5] = some ⟨0, 4, 0, 5⟩ := by decide
  have hdef : (Roles.ofRaw 1).isDefinition := by decide
  have hmention : (Roles.ofRaw 0).isDefinition = false := by decide
  simp [housed, Document.houses, declares, declared, defines, defined, definedBy?, hf, hc, hrange,
    hdef, hmention]

theorem oneHome_housed {f c : Symbol} (hf : symbol? f.uri = some f) (hc : symbol? c.uri = some c)
    (hne : ¬f == c) : (housed f c).OneHome := by
  refine ⟨by simp [housed], fun d hd e he s hds hes => ?_⟩
  have hhouses := houses_housed hf hc s
  have hnot : ¬((f == s) = true ∧ (c == s) = true) := fun h => hne (BEq.trans h.1 (BEq.symm h.2))
  simp only [housed, List.map_cons, List.map_nil, List.cons.injEq, and_true] at hhouses
  simp only [housed, List.mem_cons, List.not_mem_nil, or_false] at hd he
  rcases hd with rfl | rfl <;> rcases he with rfl | rfl
  · rfl
  · exact absurd ⟨hhouses.1 ▸ hds, hhouses.2 ▸ hes⟩ hnot
  · exact absurd ⟨hhouses.1 ▸ hes, hhouses.2 ▸ hds⟩ hnot
  · rfl

def demoHoused : Index := housed (.ofParts functionParts) (.ofParts classParts)

theorem build_reorder_housed :
    demoHoused.OneHome ∧ demoHoused.documents.reverse ≠ demoHoused.documents ∧
      ∃ g g', build (some (SourceIndex.build SourceIndex.embedded? demoHoused).resolver)
        demoHoused = .ok g ∧
        build (some (SourceIndex.build SourceIndex.embedded?
            (demoHoused.reorder demoHoused.documents.reverse)).resolver)
          (demoHoused.reorder demoHoused.documents.reverse) = .ok g' ∧
        Navigator.Alike ⟨g, (SourceIndex.build SourceIndex.embedded? demoHoused).resolver⟩
          ⟨g', (SourceIndex.build SourceIndex.embedded?
            (demoHoused.reorder demoHoused.documents.reverse)).resolver⟩ := by
  have hhome : demoHoused.OneHome :=
    oneHome_housed (symbol?_ofParts functionParts_legal)
      (symbol?_ofParts classParts_legal) (by decide)
  exact ⟨hhome, by simp [demoHoused, housed],
    build_reorder SourceIndex.embedded? hhome (List.reverse_perm demoHoused.documents)⟩

end SymbolGraph
end CodeAtlas
