import CodeAtlas.Graph.Navigator
import CodeAtlas.Proofs.Graph.Callees
import CodeAtlas.Proofs.Graph.Cleaning

/-! Resolvers that fail for some symbols. A resolver is only needed for calls and for the
dependencies of a symbol, so what a graph tells otherwise is the same for every resolver, and what
is missing after a failure is missing for the symbols that it is about. -/

namespace CodeAtlas

theorem eraseDups_filter {α : Type} [BEq α] [LawfulBEq α] (p : α → Bool) :
    ∀ l : List α, (l.filter p).eraseDups = l.eraseDups.filter p
  | [] => rfl
  | a :: as => by
    have hshort : (as.filter fun b => !b == a).length < as.length + 1 :=
      Nat.lt_succ_of_le (List.length_filter_le _ as)
    have hrest := eraseDups_filter p (as.filter fun b => !b == a)
    rw [List.eraseDups_cons]
    cases ha : p a with
    | true =>
      rw [List.filter_cons_of_pos ha, List.filter_cons_of_pos ha, List.eraseDups_cons,
        List.filter_comm, hrest]
    | false =>
      have hother : (as.filter fun b => !b == a).filter p = as.filter p := by
        rw [List.filter_filter]
        refine List.filter_congr fun b _ => ?_
        cases hba : b == a with
        | true => rw [eq_of_beq hba, ha, Bool.false_and]
        | false => rw [Bool.not_false, Bool.and_true]
      have hnot : ¬p a = true := Bool.eq_false_iff.1 ha
      rw [List.filter_cons_of_neg hnot, List.filter_cons_of_neg hnot, ← hrest, hother]
termination_by l => l.length

/-- Symbols whose sources cannot be had: a question for one of them fails, or finds nothing where no
failure is given. -/
structure Outage where
  affects : Symbol → Bool
  spanFailure : Symbol → Option SourceError
  sourceFailure : Symbol → Option SourceError

def SourceResolver.during (resolver : SourceResolver) (o : Outage) : SourceResolver where
  span s := if o.affects s then (o.spanFailure s).elim (.ok none) .error else resolver.span s
  source s := if o.affects s then (o.sourceFailure s).elim (.ok none) .error else resolver.source s
  modules := resolver.modules

def Link.told? (l : Link) : Option Link := if l.isCaller || l.isCallee then none else some l

namespace SymbolGraph

def told (g : SymbolGraph) : List Link := g.picked Link.told?

theorem told_addLink (g : SymbolGraph) (l : Link) : (g.addLink l).told = l.told?.toList ++ g.told :=
  picked_addLink ..

theorem told_dropDefinitions (g : SymbolGraph) (s : Symbol) :
    (g.dropDefinitions s).told = g.told.filter fun l => !l.defines s := by
  simp only [told, picked, dropDefinitions, List.filterMap_filter, List.filter_filterMap]
  refine List.filterMap_congr ?_
  rintro ⟨slot, l⟩ _
  cases l <;> simp [Link.told?, Link.isCaller, Link.isCallee, Option.filter]

structure SameButCalls (g g' : SymbolGraph) : Prop where
  files_eq : g.files = g'.files
  symbols_eq : g.symbols = g'.symbols
  told_eq : g.told = g'.told

namespace SameButCalls
variable {g g' g'' : SymbolGraph}

theorem refl (g : SymbolGraph) : SameButCalls g g := ⟨rfl, rfl, rfl⟩

theorem symm (h : SameButCalls g g') :
    SameButCalls g' g := ⟨h.files_eq.symm, h.symbols_eq.symm, h.told_eq.symm⟩

theorem trans (h : SameButCalls g g') (h' : SameButCalls g' g'') : SameButCalls g g'' :=
  ⟨h.files_eq.trans h'.files_eq, h.symbols_eq.trans h'.symbols_eq, h.told_eq.trans h'.told_eq⟩

theorem addFile (h : SameButCalls g g') (path : String) :
    SameButCalls (g.addFile path) (g'.addFile path) := by
  unfold SymbolGraph.addFile
  rw [h.files_eq]
  split
  · exact h
  · exact ⟨rfl, h.symbols_eq, h.told_eq⟩

theorem addSymbol (h : SameButCalls g g') (s : Symbol) :
    SameButCalls (g.addSymbol s) (g'.addSymbol s) := by
  unfold SymbolGraph.addSymbol hasSymbol
  rw [h.symbols_eq]
  split
  · exact h
  · exact ⟨h.files_eq, rfl, h.told_eq⟩

theorem addLink (h : SameButCalls g g') (l : Link) : SameButCalls (g.addLink l) (g'.addLink l) :=
  ⟨h.files_eq, h.symbols_eq, by rw [told_addLink, told_addLink, h.told_eq]⟩

theorem dropDefinitions (h : SameButCalls g g') (s : Symbol) :
    SameButCalls (g.dropDefinitions s) (g'.dropDefinitions s) :=
  ⟨h.files_eq, h.symbols_eq, by rw [told_dropDefinitions, told_dropDefinitions, h.told_eq]⟩

theorem setDefinition (h : SameButCalls g g') (s : Symbol) (file : String) :
    SameButCalls (g.setDefinition s file) (g'.setDefinition s file) :=
  (h.dropDefinitions s).addLink (.contains file s)

theorem foldl {α : Type} {f f' : SymbolGraph → α → SymbolGraph}
    (step : ∀ g g' a, SameButCalls g g' → SameButCalls (f g a) (f' g' a)) (h : SameButCalls g g')
    (as : List α) :
    SameButCalls (as.foldl f g) (as.foldl f' g') := by
  induction as generalizing g g' with
  | nil => exact h
  | cons a as ih => exact ih (step g g' a h)

theorem addRelationship (s : Symbol) (g g' : SymbolGraph) (r : Relationship)
    (h : SameButCalls g g') :
    SameButCalls (SymbolGraph.addRelationship s g r) (SymbolGraph.addRelationship s g' r) := by
  unfold SymbolGraph.addRelationship
  cases symbol? r.symbol with
  | none => exact h
  | some target => exact (h.addSymbol target).addLink _

theorem addInformation (g g' : SymbolGraph) (i : SymbolInformation) (h : SameButCalls g g') :
    SameButCalls (g.addInformation i) (g'.addInformation i) := by
  unfold SymbolGraph.addInformation
  cases symbol? i.symbol with
  | none => exact h
  | some s => exact (h.addSymbol s).foldl (addRelationship s) i.relationships

theorem addDeclaration (file : String) (g g' : SymbolGraph) (i : SymbolInformation)
    (h : SameButCalls g g') :
    SameButCalls (SymbolGraph.addDeclaration file g i) (SymbolGraph.addDeclaration file g' i) := by
  unfold SymbolGraph.addDeclaration
  cases symbol? i.symbol with
  | none => exact h
  | some s => exact ((addInformation g g' i h).addSymbol s).setDefinition s file

theorem addOccurrence (file : String) (g g' : SymbolGraph) (o : Occurrence)
    (h : SameButCalls g g') :
    SameButCalls (SymbolGraph.addOccurrence file g o) (SymbolGraph.addOccurrence file g' o) := by
  unfold SymbolGraph.addOccurrence
  cases symbol? o.symbol with
  | none => exact h
  | some s =>
    cases SourceRange.ofRaw? o.range with
    | none => exact h
    | some range =>
      simp only
      split
      · exact ((h.addSymbol s).addLink _).setDefinition s file
      · exact (h.addSymbol s).addLink _

end SameButCalls

/-! ### What calls leave alone -/

def MentionsKnown (g : SymbolGraph) : Prop := ∀ s ∈ g.picked Link.mentioned?, g.hasSymbol s

variable {resolver : Option SourceResolver} {x : Index} {g g' : SymbolGraph}

theorem Write.mentionsKnown (h : Write resolver x g g') (hg : MentionsKnown g) :
    MentionsKnown g' := by
  have hkept : ∀ s ∈ g.picked Link.mentioned?, g'.hasSymbol s := fun s hs => h.hasSymbol (hg s hs)
  intro t ht
  cases h with
  | file hd => exact hkept t (by simpa using ht)
  | symbol hs => exact hkept t (by simpa using ht)
  | relationship hs htarget => exact hkept t (by simpa [Link.mentioned?] using ht)
  | @reference d o s range hd hfile ho hs hrange =>
    rw [picked_addLink, picked_addSymbol] at ht
    rcases List.mem_append.1 ht with ht | ht
    · rw [List.mem_singleton.1 ht]
      exact hasSymbol_addSymbol_self g s
    · exact hkept t ht
  | definition hd hfile hs hrecord =>
    rw [picked_setDefinition _ _ (fun _ _ => rfl)] at ht
    exact hkept t ht
  | call hd hmethod hkind hknown hresolver hspan hr hother hcallable =>
    exact hkept t (by simpa [Link.mentioned?] using ht)

theorem mentionsKnown_addDocument (resolver : Option SourceResolver) (hg : MentionsKnown g)
    (d : Document) :
    MentionsKnown (addDocument resolver g d) :=
  (writes_addDocument (x := { documents := [d] }) (List.mem_singleton_self d) g).keeps
    (fun _ _ hwrite => hwrite.mentionsKnown) hg

theorem MentionsKnown.congr (hg : MentionsKnown g) (h : SameButCalls g' g) : MentionsKnown g' := by
  have hmentioned (g : SymbolGraph) : g.picked Link.mentioned? =
      g.told.filterMap Link.mentioned? := by
    rw [told, picked, picked, List.filterMap_filterMap]
    refine List.filterMap_congr ?_
    rintro ⟨slot, l⟩ _
    cases l <;> rfl
  unfold MentionsKnown hasSymbol
  rw [hmentioned, h.told_eq, h.symbols_eq, ← hmentioned]
  exact hg

theorem sameButCalls_addCalls (resolver : SourceResolver) (hg : MentionsKnown g) {method : Symbol}
    (hmethod : g.hasSymbol method) : SameButCalls (addCalls resolver g method) g := by
  have hknown {g' : SymbolGraph} {s : Symbol} (h : SameButCalls g' g) (hs : g.hasSymbol s) :
      g'.addSymbol s = g' := by
    unfold hasSymbol at hs
    rw [← h.symbols_eq] at hs
    exact if_pos hs
  unfold addCalls
  split
  · rename_i span hspan
    rw [hknown (.refl g) hmethod]
    refine List.foldlRecOn (motive := fun g' => SameButCalls g' g) _ _ (.refl g)
      fun g' hsame r hr => ?_
    have hmentioned := hg _ (mem_mentioned_of_mem_referencesInSpan hr)
    unfold addCall
    split
    · exact hsame
    · rw [hknown hsame hmentioned]
      exact ⟨hsame.files_eq,
        hsame.symbols_eq, by rw [told_addLink, told_addLink]; exact hsame.told_eq⟩
  · exact .refl g

theorem sameButCalls_foldl_addCalls (resolver : SourceResolver) (hg : MentionsKnown g)
    {methods : List Symbol} (hmethods : ∀ method ∈ methods, g.hasSymbol method) :
    SameButCalls (methods.foldl (addCalls resolver) g) g := by
  refine List.foldlRecOn (motive := fun g' => SameButCalls g' g) _ _ (.refl g)
    fun g' hsame method hmem => ?_
  have hmethod : g'.hasSymbol method := by
    unfold hasSymbol
    rw [hsame.symbols_eq]
    exact hmethods method hmem
  exact (sameButCalls_addCalls resolver (hg.congr hsame) hmethod).trans hsame

/-! ### Building without a resolver -/

theorem sameButCalls_addDocument (resolver : Option SourceResolver) (h : SameButCalls g g')
    (hg : MentionsKnown g) {log : List (Symbol × String)} (hlog : Tracks g log) (d : Document) :
    SameButCalls (addDocument resolver g d) (addDocument none g' d) := by
  have hwritten : SameButCalls (addDocument none g d) (addDocument none g' d) :=
    ((h.addFile d.path).foldl (SameButCalls.addDeclaration d.path) d.symbols).foldl
      (SameButCalls.addOccurrence d.path) d.occurrences
  cases resolver with
  | none => exact hwritten
  | some resolver =>
    have hmethods : ∀ method ∈ (declared d).filter (fun s => s.kind = .method),
        (addDocument none g d).hasSymbol method := fun method hmethod =>
      (Tracks.addDocument none g log d hlog).known (method, d.path) (List.mem_append_right _
        (List.mem_map_of_mem (List.mem_append_left _ (List.mem_of_mem_filter hmethod))))
    exact (sameButCalls_foldl_addCalls resolver (mentionsKnown_addDocument none hg d)
      hmethods).trans hwritten

theorem sameButCalls_foldl_addDocument (resolver : Option SourceResolver) (h : SameButCalls g g')
    (hg : MentionsKnown g) {log : List (Symbol × String)} (hlog : Tracks g log)
    (ds : List Document) :
    SameButCalls (ds.foldl (addDocument resolver) g) (ds.foldl (addDocument none) g') := by
  induction ds generalizing g g' log with
  | nil => exact h
  | cons d ds ih =>
    exact ih (sameButCalls_addDocument resolver h hg hlog d)
      (mentionsKnown_addDocument resolver hg d)
      (Tracks.addDocument resolver g log d hlog)

theorem SameButCalls.of_build (hg : build resolver x = .ok g) (hg' : build none x = .ok g') :
    SameButCalls g g' := by
  have hempty : MentionsKnown {} := by simp [MentionsKnown, picked]
  rw [eq_of_build hg, eq_of_build hg']
  exact (sameButCalls_foldl_addDocument resolver (.refl _) hempty .empty x.documents).foldl
    SameButCalls.addInformation x.externalSymbols

/-! ### Calls after an outage -/

section
variable (sources : SourceResolver) (o : Outage)

theorem bodyLinks_during (recorded : String → List Reference) (m : Symbol) :
    bodyLinks (sources.during o) recorded m =
      if o.affects m then [] else bodyLinks sources recorded m := by
  unfold bodyLinks SourceResolver.during
  cases haffects : o.affects m with
  | false => simp [haffects]
  | true => cases hfailure : o.spanFailure m <;> simp [haffects, hfailure]

theorem calls_bodyLinks_during (recorded : String → List Reference) (m : Symbol) :
    (bodyLinks (sources.during o) recorded m).filterMap Link.call? =
      ((bodyLinks sources recorded m).filterMap Link.call?).filter fun c =>
        !o.affects c.caller := by
  have hcaller : ∀ c ∈ (bodyLinks sources recorded m).filterMap Link.call?, c.caller = m := by
    intro c hc
    obtain ⟨l, hl, hcall⟩ := List.mem_filterMap.1 hc
    exact ((mem_bodyLinks_call_iff hcall).1 hl).1
  rw [bodyLinks_during]
  cases haffects : o.affects m with
  | true =>
    refine (List.filter_eq_nil_iff.2 fun c hc => ?_).symm
    simp [hcaller c hc, haffects]
  | false =>
    refine (List.filter_eq_self.2 fun c hc => ?_).symm
    simp [hcaller c hc, haffects]

theorem calls_methodLinks_during (recorded : String → List Reference) (d : Document) :
    (methodLinks (some (sources.during o)) recorded d).filterMap Link.call? =
      ((methodLinks (some sources) recorded d).filterMap Link.call?).filter fun c =>
        !o.affects c.caller := by
  simp only [methodLinks, List.filterMap_flatMap, calls_bodyLinks_during, List.filter_flatMap]

theorem calls_linksAfter_during (before ds : List Document) :
    (linksAfter (some (sources.during o)) before ds).filterMap Link.call? =
      ((linksAfter (some sources) before ds).filterMap Link.call?).filter fun c =>
        !o.affects c.caller := by
  have hdocument : ∀ d, (documentLinks d).filterMap Link.call? = [] :=
    filterMap_documentLinks (fun _ _ _ => rfl) fun _ _ _ => rfl
  induction ds generalizing before with
  | nil => rfl
  | cons d ds ih =>
    simp only [linksAfter, List.filterMap_append, hdocument, List.nil_append,
      calls_methodLinks_during, ih, List.filter_append]

theorem calls_of_build (hg : build resolver x = .ok g) :
    g.calls = ((linksAfter resolver [] x.documents).filterMap Link.call?).reverse :=
  picked_calls_of_build hg (fun _ _ => rfl) fun _ _ _ => rfl

end
end SymbolGraph

/-! ### Ranked graphs after an outage -/

def RankGraph.without {α : Type} (a : RankGraph α) (F : Symbol → Bool) : RankGraph α :=
  { a with edges := a.edges.filter fun e => !F a.nodes[e.source] }

namespace Navigator
variable (graph : SymbolGraph) (sources : SourceResolver) (o : Outage)

theorem linked_during_eq {s : Symbol} (hs : o.affects s = false) :
    (mk graph (sources.during o)).linked s = (mk graph sources).linked s := by
  have hspan : (sources.during o).span s = sources.span s := by simp [SourceResolver.during, hs]
  simp only [linked, dependencies, referencesInScope, hspan]

theorem linked_during_eq_error {s : Symbol} (hs : o.affects s = true) :
    ∃ e, (mk graph (sources.during o)).linked s = .error e := by
  unfold linked
  cases hdeps : (mk graph (sources.during o)).dependencies s with
  | error e => exact ⟨e, rfl⟩
  | ok deps =>
    -- dependencies need a span
    obtain ⟨-, file, span, -, hspan, -⟩ := dependencies_eq_ok_iff.1 hdeps
    cases hfailure : o.spanFailure s <;> simp [SourceResolver.during, hs, hfailure] at hspan

theorem source_of_mem_linkedPairs {v : Navigator} {nodes : Array Symbol} {i : Fin nodes.size}
    {p : Fin nodes.size × Fin nodes.size} (hp : p ∈ v.linkedPairs .toDependents nodes i) :
    p.1 = i := by
  unfold linkedPairs at hp
  split at hp
  · cases hp
  · obtain ⟨t, -, hp⟩ := List.mem_flatMap.1 hp
    split at hp
    · cases hp
    · split at hp
      · cases hp
      · exact congrArg Prod.fst (List.mem_singleton.1 hp)

theorem linkedPairs_during (nodes : Array Symbol) (i : Fin nodes.size) :
    (mk graph (sources.during o)).linkedPairs .toDependents nodes i =
      ((mk graph sources).linkedPairs .toDependents nodes i).filter fun p =>
        !o.affects nodes[p.1] := by
  have hsource : ∀ p ∈ (mk graph sources).linkedPairs .toDependents nodes i,
      o.affects nodes[p.1] = o.affects nodes[i] := fun p hp =>
    congrArg (fun j : Fin nodes.size => o.affects nodes[j]) (source_of_mem_linkedPairs hp)
  rw [List.filter_congr fun p hp => congrArg Bool.not (hsource p hp)]
  cases haffects : o.affects nodes[i] with
  | false =>
    have hsame : (mk graph (sources.during o)).linkedPairs .toDependents nodes i =
        (mk graph sources).linkedPairs .toDependents nodes i := by
      rw [linkedPairs, linkedPairs, linked_during_eq graph sources o haffects]
    rw [hsame, Bool.not_false, List.filter_true]
  | true =>
    obtain ⟨e, he⟩ := linked_during_eq_error graph sources o haffects
    rw [linkedPairs, he, Bool.not_true, List.filter_false]

theorem rankableSubgraph_during (α : Type) (filter : Option String) :
    ((mk graph (sources.during o)).rankableSubgraph .toDependents filter : RankGraph α) =
      ((mk graph sources).rankableSubgraph .toDependents filter).without o.affects := by
  let nodes := ((mk graph sources).rankableSymbols filter).toArray
  let edge (p : Fin nodes.size × Fin nodes.size) : RankEdge α nodes.size :=
    ⟨p.1, p.2, .attributes []⟩
  let pairs := ((List.finRange nodes.size).flatMap
    ((mk graph sources).linkedPairs .toDependents nodes)).eraseDups
  let pairs' := ((List.finRange nodes.size).flatMap
    ((mk graph (sources.during o)).linkedPairs .toDependents nodes)).eraseDups
  have hpairs : pairs' = pairs.filter fun p => !o.affects nodes[p.1] := by
    have hlinked := funext (linkedPairs_during graph sources o nodes)
    rw [← eraseDups_filter, List.filter_flatMap, ← hlinked]
  have hedges : pairs'.map edge = (pairs.map edge).filter fun e => !o.affects nodes[e.source] := by
    rw [hpairs, List.filter_map]
    rfl
  exact congrArg (fun edges => (⟨nodes, edges, true⟩ : RankGraph α)) hedges

end Navigator

namespace SymbolGraph

/-- With a resolver that fails for some symbols the graph of an index lacks the calls of
these symbols and nothing else, and of a graph the edges that start in them are left out when
it is ranked. -/
theorem build_during (sources : SourceResolver) (o : Outage) (x : Index) (α : Type) :
    (∃ g g', build (some sources) x = .ok g ∧ build (some (sources.during o)) x = .ok g' ∧
      g'.files = g.files ∧ g'.symbols = g.symbols ∧ g'.told = g.told ∧
      g'.calls = g.calls.filter (fun c => !o.affects c.caller) ∧
      g'.callBacks = g.callBacks.filter fun c => !o.affects c.caller) ∧
    ∀ (graph : SymbolGraph) (filter : Option String),
      ((Navigator.mk graph (sources.during o)).rankableSubgraph .toDependents
        filter : RankGraph α) =
        ((Navigator.mk graph sources).rankableSubgraph .toDependents filter).without o.affects := by
  refine ⟨?_, fun graph filter => Navigator.rankableSubgraph_during graph sources o α filter⟩
  obtain ⟨g, hg, -⟩ := exists_build (some sources) x
  obtain ⟨g', hg', -⟩ := exists_build (some (sources.during o)) x
  obtain ⟨plain, hplain, -⟩ := exists_build none x
  have hsame := (SameButCalls.of_build hg' hplain).trans (SameButCalls.of_build hg hplain).symm
  have hcalls : g'.calls = g.calls.filter fun c => !o.affects c.caller := by
    rw [calls_of_build hg, calls_of_build hg', calls_linksAfter_during, List.filter_reverse]
  refine ⟨g, g', hg, hg', hsame.files_eq, hsame.symbols_eq, hsame.told_eq, hcalls, ?_⟩
  rw [← (Reciprocal.of_build hg).calls_eq, ← (Reciprocal.of_build hg').calls_eq, hcalls]

end SymbolGraph
end CodeAtlas
