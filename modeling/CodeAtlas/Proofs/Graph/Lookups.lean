import CodeAtlas.Proofs.Graph.Arena
import CodeAtlas.Proofs.Graph.Sequence
import Mathlib.Data.List.Find

/-! Questions to an arena. They go from a symbol or a file to its node, from there along edges, and
read the node at the other end, with something to fall back on where it is of the wrong kind. In a
sound arena it never is: whatever the fallback says, the answers are those of the graph. -/

namespace CodeAtlas

def EdgeLabel.reference? : EdgeLabel → Option Site
  | reference site => some site
  | _ => none

def EdgeLabel.isRelationship : EdgeLabel → Bool
  | relationship _ => true
  | _ => false

def EdgeLabel.isCaller : EdgeLabel → Bool
  | caller _ => true
  | _ => false

def EdgeLabel.isCallee : EdgeLabel → Bool
  | callee _ => true
  | _ => false

def Link.mentionOf? (s : Symbol) : Link → Option (String × Reference)
  | reference symbol file site => if symbol == s then some (file, ⟨s, site⟩) else none
  | _ => none

theorem SymbolGraph.mentions_eq (g : SymbolGraph) (s : Symbol) :
    g.mentions s = g.picked (Link.mentionOf? s) := by
  rw [mentions, picked]
  refine List.filterMap_congr ?_
  rintro ⟨slot, l⟩ _
  cases l <;> rfl

/-- What is read off a node that is missing or of the wrong kind; nothing, as far as the program is
concerned. -/
structure Fallback where
  path : Option String := none
  symbol : Option Symbol := none

namespace Arena

def pathAt? (a : Arena) (f : Fallback) (i : Nat) : Option String :=
  match a.nodes[i]? with
  | some (.file path) => some path
  | _ => f.path

def symbolAt? (a : Arena) (f : Fallback) (i : Nat) : Option Symbol :=
  match a.nodes[i]? with
  | some (.symbol s) => some s
  | _ => f.symbol

def count (a : Arena) (p : EdgeLabel → Bool) : Nat := (a.edges.filter fun e => p e.label).length

def stats (a : Arena) : GraphStats where
  files := a.files.length
  symbols := a.symbols.length
  contains := a.count EdgeLabel.isContains
  relationships := a.count EdgeLabel.isRelationship
  references := a.count fun label => label.reference?.isSome
  callerPairs := a.count EdgeLabel.isCaller

def definitionsOf (a : Arena) (s : Symbol) : List GraphEdge :=
  match a.symbolNode? s with
  | some i => a.definitions i
  | none => []

def definitionCount (a : Arena) (s : Symbol) : Nat := (a.definitionsOf s).length

def definingFile? (a : Arena) (f : Fallback) (s : Symbol) : Option String :=
  (a.definitionsOf s).head?.bind fun e => a.pathAt? f e.source

def find (a : Arena) (s : Symbol) : Except GraphError Nat :=
  match a.symbolNode? s with
  | some i => .ok i
  | none => .error (.symbolNotFound s.uri)

def targets (a : Arena) (f : Fallback) (wanted : EdgeLabel → Bool) (s : Symbol) :
    Except GraphError (List Symbol) := do
  let i ← a.find s
  let found := ((a.edgesFrom i).filter fun e => wanted e.label).filterMap fun e =>
    (a.symbolAt? f e.target).map fun t => (e.slot, t)
  return ((found.mergeSort fun x y => x.1 ≤ y.1).map (·.2)).eraseDups

def relationships (a : Arena) (f : Fallback) (s : Symbol) : Except GraphError (List Symbol) :=
  a.targets f EdgeLabel.isRelationship s

def callers (a : Arena) (f : Fallback) (s : Symbol) : Except GraphError (List Symbol) :=
  a.targets f EdgeLabel.isCallee s

def callees (a : Arena) (f : Fallback) (s : Symbol) : Except GraphError (List Symbol) :=
  a.targets f EdgeLabel.isCaller s

def mentionsFrom (a : Arena) (f : Fallback) (s : Symbol) (i : Nat) : List (String × Reference) :=
  (a.edgesFrom i).filterMap fun e => e.label.reference?.bind fun site =>
    (a.pathAt? f e.target).map fun path => (path, ⟨s, site⟩)

def references (a : Arena) (f : Fallback) (s : Symbol) :
    Except GraphError (List (String × List Reference)) := do
  let i ← a.find s
  let grouped := (Ordered.group (a.mentionsFrom f s i)).map fun e =>
    (e.1, Ordered.squeeze (e.2.mergeSort Reference.positionLe))
  return grouped.mergeSort fun x y => x.1 ≤ y.1

def recordedAt (a : Arena) (f : Fallback) (i : Nat) : List Reference :=
  (a.edgesInto i).filterMap fun e => e.label.reference?.bind fun site =>
    (a.symbolAt? f e.source).map fun s => ⟨s, site⟩

def referencesInSpan (a : Arena) (f : Fallback) (span : SourceSpan) : List Reference :=
  match a.fileNode? span.path with
  | some i => SymbolGraph.enclosed (a.recordedAt f i) span
  | none => []

def isBroken (a : Arena) (declared : List Symbol) (e : Symbol × Nat) : Bool :=
  let n := (a.definitions e.2).length
  1 < n || (n = 0 && declared.any (· == e.1))

def verify (a : Arena) (declared : List Symbol) : Except GraphError Arena :=
  match a.symbols.find? (a.isBroken declared) with
  | none => .ok a
  | some e => .error (.integrity e.1.uri (a.definitions e.2).length)

/-- An arena answers as a graph does, whatever its nodes of the wrong kind are taken for. -/
structure AnswersAs (a : Arena) (g : SymbolGraph) : Prop where
  stats : a.stats = g.stats
  definitionCount : ∀ s, a.definitionCount s = g.definitionCount s
  definingFile : ∀ f s, a.definingFile? f s = g.definingFile? s
  relationships : ∀ f s, a.relationships f s = g.relationships s
  callers : ∀ f s, a.callers f s = g.callers s
  callees : ∀ f s, a.callees f s = g.callees s
  references : ∀ f s, a.references f s = g.references s
  referencesInSpan : ∀ f span, a.referencesInSpan f span = g.referencesInSpan span

variable {a : Arena} {s : Symbol} {path : String} {i : Nat} {e : GraphEdge} {l : Link} {β : Type}

theorem pathAt?_eq (f : Fallback) (hi : a.nodes[i]? = some (.file path)) :
    a.pathAt? f i = some path := by
  rw [pathAt?, hi]

theorem symbolAt?_eq (f : Fallback) (hi : a.nodes[i]? = some (.symbol s)) :
    a.symbolAt? f i = some s := by
  rw [symbolAt?, hi]

/-! ### Reading edge by edge -/

theorem Sound.picked_graph (h : a.Sound) {pick : Link → Option β} {read : GraphEdge → Option β}
    (hread : ∀ e l, a.Joins e l → pick l = read e) :
    a.graph.picked pick = a.edges.filterMap read := by
  rw [SymbolGraph.picked, graph, List.filterMap_filterMap]
  refine List.filterMap_congr fun e he => ?_
  obtain ⟨l, hl⟩ := (h.typed e he).exists_link
  rw [hl, ← hread e l (joins_of_link? hl)]
  rfl

theorem Sound.count_graph (h : a.Sound) {p : Link → Bool} {q : EdgeLabel → Bool}
    (hlabel : ∀ e l, a.Joins e l → p l = q e.label) : a.graph.count p = a.count q := by
  rw [SymbolGraph.count, count, graph, ← List.countP_eq_length_filter,
    ← List.countP_eq_length_filter, List.countP_filterMap]
  refine List.countP_congr fun e he => ?_
  obtain ⟨l, hl⟩ := (h.typed e he).exists_link
  rw [hl, ← hlabel e l (joins_of_link? hl)]
  rfl

theorem Sound.stats_graph (h : a.Sound) : a.stats = a.graph.stats := by
  have hcontains : a.graph.count Link.isContains = a.count EdgeLabel.isContains :=
    h.count_graph fun e l hl => by cases hl <;> rfl
  have hrelationships : a.graph.count Link.isRelationship = a.count EdgeLabel.isRelationship :=
    h.count_graph fun e l hl => by cases hl <;> rfl
  have hreferences : a.graph.count Link.isReference =
      a.count fun label => label.reference?.isSome :=
    h.count_graph fun e l hl => by cases hl <;> rfl
  have hcallers : a.graph.count Link.isCaller = a.count EdgeLabel.isCaller :=
    h.count_graph fun e l hl => by cases hl <;> rfl
  rw [stats, SymbolGraph.stats, hcontains, hrelationships, hreferences, hcallers, graph,
    List.length_map, List.length_map]

/-! ### Definitions -/

theorem Sound.exists_path_of_mem_definitions (h : a.Sound) (he : e ∈ a.definitions i) :
    ∃ path, a.nodes[e.source]? = some (.file path) := by
  obtain ⟨hmem, hdefines⟩ := List.mem_filter.1 he
  obtain ⟨l, hl⟩ := (h.typed e hmem).exists_link
  have hcontains : e.label.isContains := (Bool.and_eq_true_iff.1 hdefines).2
  cases joins_of_link? hl with
  | contains hsource _ => exact ⟨_, hsource⟩
  | reference | relationship | caller | callee => cases hcontains

theorem Sound.homes_graph (h : a.Sound) (f : Fallback) (s : Symbol) :
    a.graph.homes s = (a.definitionsOf s).filterMap fun e => a.pathAt? f e.source := by
  unfold definitionsOf
  cases hs : a.symbolNode? s with
  | none =>
    have hread : ∀ e l, a.Joins e l → l.definitionOf? s = none := by
      intro e l hl
      cases hl with
      | @contains _ _ j _ t _ ht =>
        refine if_neg fun hts => ?_
        rw [(h.symbolNode?_eq_iff_beq ht).2 hts] at hs
        cases hs
      | reference | relationship | caller | callee => rfl
    have hpicked : a.graph.homes s = a.edges.filterMap fun _ => none := h.picked_graph hread
    rw [hpicked, List.filterMap_nil, List.filterMap_eq_nil_iff]
    exact fun _ _ => rfl
  | some i =>
    have hread : ∀ e l, a.Joins e l →
        l.definitionOf? s = if e.defines i then a.pathAt? f e.source else none := by
      intro e l hl
      rw [← h.defines_link hs hl]
      cases hl with
      | @contains _ _ j path t hpath ht =>
        rw [Link.defines, pathAt?_eq f hpath, Link.definitionOf?]
        split <;> rfl
      | reference | relationship | caller | callee => rfl
    have hpicked : a.graph.homes s =
        a.edges.filterMap fun e => if e.defines i then a.pathAt? f e.source else none :=
      h.picked_graph hread
    rw [hpicked, ← List.filterMap_filter]
    rfl

theorem Sound.definitionCount_graph (h : a.Sound) (s : Symbol) :
    a.definitionCount s = a.graph.definitionCount s := by
  rw [SymbolGraph.definitionCount_eq, h.homes_graph {} s, List.length_filterMap_eq_countP,
    definitionCount, eq_comm, List.countP_eq_length]
  intro e he
  unfold definitionsOf at he
  split at he
  · obtain ⟨path, hpath⟩ := h.exists_path_of_mem_definitions he
    rw [pathAt?_eq _ hpath]
    rfl
  · cases he

theorem Sound.definingFile?_graph (h : a.Sound) (f : Fallback) (s : Symbol) :
    a.definingFile? f s = a.graph.definingFile? s := by
  rw [SymbolGraph.definingFile?_eq, h.homes_graph f s, definingFile?, definitionsOf]
  split
  · rename_i i hs
    cases hdefinitions : a.definitions i with
    | nil => rfl
    | cons e rest =>
      have he : e ∈ a.definitions i := hdefinitions ▸ List.mem_cons_self
      obtain ⟨path, hpath⟩ := h.exists_path_of_mem_definitions he
      rw [List.head?_cons, Option.bind_some, pathAt?_eq f hpath, List.filterMap_cons_some]
      · rfl
      · exact pathAt?_eq f hpath
  · rfl

/-! ### Targets -/

theorem find_of_some (hs : a.symbolNode? s = some i) :
    a.find s = .ok i ∧ a.graph.find s = .ok () := by
  rw [find, SymbolGraph.find, hasSymbol_graph, hs]
  exact ⟨rfl, rfl⟩

theorem find_of_none (hs : a.symbolNode? s = none) :
    a.find s = .error (.symbolNotFound s.uri) ∧
      a.graph.find s = .error (.symbolNotFound s.uri) := by
  rw [find, SymbolGraph.find, hasSymbol_graph, hs]
  exact ⟨rfl, rfl⟩

theorem Sound.targets_graph (h : a.Sound) (f : Fallback) {wanted : EdgeLabel → Bool}
    (pick : Link → Option Symbol)
    (hread : ∀ i, a.symbolNode? s = some i → ∀ e l, a.Joins e l →
      pick l = if decide (e.source = i) && wanted e.label then a.symbolAt? f e.target else none) :
    a.targets f wanted s = (do a.graph.find s; return a.graph.targets pick) := by
  cases hs : a.symbolNode? s with
  | none =>
    rw [targets, (find_of_none hs).1, (find_of_none hs).2]
    rfl
  | some i =>
    have hfound : ((a.edgesFrom i).filter fun e => wanted e.label).filterMap
        (fun e => (a.symbolAt? f e.target).map fun t => (e.slot, t)) =
        a.graph.links.filterMap fun e => (pick e.2).map fun t => (e.1, t) := by
      rw [graph, List.filterMap_filterMap, edgesFrom, List.filter_filter, List.filterMap_filter]
      refine List.filterMap_congr fun e he => ?_
      obtain ⟨l, hl⟩ := (h.typed e he).exists_link
      rw [hl, Option.map_some, Option.bind_some, hread i hs e l (joins_of_link? hl), Bool.and_comm]
      split <;> rfl
    rw [targets, (find_of_some hs).1, (find_of_some hs).2]
    simp only [bind, Except.bind, hfound]
    rfl

theorem Sound.relationships_graph (h : a.Sound) (f : Fallback) (s : Symbol) :
    a.relationships f s = a.graph.relationships s := by
  refine h.targets_graph f (Link.relativeOf? s) fun i hs e l hl => ?_
  cases hl with
  | relationship hp ht =>
    rw [Link.relativeOf?, h.beq_eq hs hp, symbolAt?_eq f ht, EdgeLabel.isRelationship,
      Bool.and_true]
  | contains | reference | caller | callee =>
    exact (if_neg (Bool.and_false _ ▸ Bool.false_ne_true)).symm

theorem Sound.callers_graph (h : a.Sound) (f : Fallback) (s : Symbol) :
    a.callers f s = a.graph.callers s := by
  refine h.targets_graph f (Link.callerOf? s) fun i hs e l hl => ?_
  cases hl with
  | callee hp ht =>
    rw [Link.callerOf?, h.beq_eq hs hp, symbolAt?_eq f ht, EdgeLabel.isCallee, Bool.and_true]
  | contains | reference | caller | relationship =>
    exact (if_neg (Bool.and_false _ ▸ Bool.false_ne_true)).symm

theorem Sound.callees_graph (h : a.Sound) (f : Fallback) (s : Symbol) :
    a.callees f s = a.graph.callees s := by
  refine h.targets_graph f (Link.calleeOf? s) fun i hs e l hl => ?_
  cases hl with
  | caller hp ht =>
    rw [Link.calleeOf?, h.beq_eq hs hp, symbolAt?_eq f ht, EdgeLabel.isCaller, Bool.and_true]
  | contains | reference | callee | relationship =>
    exact (if_neg (Bool.and_false _ ▸ Bool.false_ne_true)).symm

/-! ### References -/

theorem Sound.mentions_graph (h : a.Sound) (f : Fallback) (hs : a.symbolNode? s = some i) :
    a.graph.mentions s = a.mentionsFrom f s i := by
  have hread : ∀ e l, a.Joins e l → l.mentionOf? s =
      if decide (e.source = i) then
        e.label.reference?.bind fun site => (a.pathAt? f e.target).map fun path => (path, ⟨s, site⟩)
      else none := by
    intro e l hl
    cases hl with
    | reference hp hpath =>
      rw [Link.mentionOf?, h.beq_eq hs hp, pathAt?_eq f hpath]
      rfl
    | contains | relationship | caller | callee => exact (ite_self none).symm
  rw [SymbolGraph.mentions_eq, h.picked_graph hread, ← List.filterMap_filter]
  rfl

theorem Sound.references_graph (h : a.Sound) (f : Fallback) (s : Symbol) :
    a.references f s = a.graph.references s := by
  cases hs : a.symbolNode? s with
  | none =>
    rw [references, SymbolGraph.references, (find_of_none hs).1, (find_of_none hs).2]
    rfl
  | some i =>
    rw [references, SymbolGraph.references, (find_of_some hs).1, (find_of_some hs).2,
      h.mentions_graph f hs]
    rfl

theorem Sound.recordedIn_graph (h : a.Sound) (f : Fallback) (hi : a.fileNode? path = some i) :
    a.graph.recordedIn path = a.recordedAt f i := by
  have hread : ∀ e l, a.Joins e l → l.recordedIn? path =
      if decide (e.target = i) then
        e.label.reference?.bind fun site => (a.symbolAt? f e.source).map fun s => ⟨s, site⟩
      else none := by
    intro e l hl
    cases hl with
    | @reference _ _ j _ _ file hs hfile =>
      have hsame : (file == path) = decide (j = i) := by
        rw [Bool.eq_iff_iff, decide_eq_true_iff, beq_iff_eq]
        have hj := h.fileNode?_eq_some_iff.2 hfile
        constructor
        · rintro rfl
          exact Option.some.inj (hj.symm.trans hi)
        · rintro rfl
          have hpath := h.fileNode?_eq_some_iff.1 hi
          rw [hfile] at hpath
          cases hpath
          rfl
      rw [Link.recordedIn?, hsame, symbolAt?_eq f hs]
      rfl
    | contains | relationship | caller | callee => exact (ite_self none).symm
  rw [SymbolGraph.recordedIn, h.picked_graph hread, ← List.filterMap_filter]
  rfl

theorem Sound.recordedIn_graph_of_none (h : a.Sound) (hpath : a.fileNode? path = none) :
    a.graph.recordedIn path = [] := by
  have hread : ∀ e l, a.Joins e l → l.recordedIn? path = none := by
    intro e l hl
    cases hl with
    | @reference _ _ j _ _ file _ hfile =>
      refine if_neg fun hsame => ?_
      rw [beq_iff_eq] at hsame
      rw [← hsame, h.fileNode?_eq_some_iff.2 hfile] at hpath
      cases hpath
    | contains | relationship | caller | callee => rfl
  rw [SymbolGraph.recordedIn, h.picked_graph hread, List.filterMap_eq_nil_iff]
  exact fun _ _ => rfl

theorem Sound.referencesInSpan_graph (h : a.Sound) (f : Fallback) (span : SourceSpan) :
    a.referencesInSpan f span = a.graph.referencesInSpan span := by
  rw [SymbolGraph.referencesInSpan_eq_enclosed, referencesInSpan]
  split
  · rename_i i hi
    rw [h.recordedIn_graph f hi]
  · rename_i hnone
    rw [h.recordedIn_graph_of_none hnone, SymbolGraph.enclosed_nil]

theorem Sound.mem_referencesInSpan (h : a.Sound) {f : Fallback} {span : SourceSpan} {r : Reference}
    (hr : r ∈ a.referencesInSpan f span) :
    SymbolGraph.symbol? r.symbol.uri = some r.symbol ∧ r.site.IsNear := by
  unfold referencesInSpan at hr
  split at hr
  · obtain ⟨e, he, hread⟩ := List.mem_filterMap.1 (SymbolGraph.mem_of_mem_enclosed hr)
    have hmem := List.mem_of_mem_filter he
    obtain ⟨l, hl⟩ := (h.typed e hmem).exists_link
    have hnear := h.near e hmem
    cases joins_of_link? hl with
    | reference hs _ =>
      rw [EdgeLabel.reference?, Option.bind_some, symbolAt?_eq f hs] at hread
      obtain rfl := Option.some.inj hread
      exact ⟨h.spelled _ ((h.symbol_iff _ _).1 hs), hnear _ rfl⟩
    | contains | relationship | caller | callee => cases hread
  · cases hr

/-! ### All answers -/

theorem Sound.answersAs_graph (h : a.Sound) : a.AnswersAs a.graph where
  stats := h.stats_graph
  definitionCount := h.definitionCount_graph
  definingFile := h.definingFile?_graph
  relationships := h.relationships_graph
  callers := h.callers_graph
  callees := h.callees_graph
  references := h.references_graph
  referencesInSpan := h.referencesInSpan_graph

theorem Sound.map_verify (h : a.Sound) (declared : List Symbol) :
    (a.verify declared).map graph = a.graph.verify declared := by
  have hcount : ∀ e ∈ a.symbols, (a.definitions e.2).length = a.graph.definitionCount e.1 := by
    intro e he
    have hnode : a.symbolNode? e.1 = some e.2 :=
      h.symbolNode?_eq_some_iff.2 ⟨e.1, BEq.rfl, (h.symbol_iff _ _).2 he⟩
    rw [← h.definitionCount_graph, definitionCount, definitionsOf, hnode]
  have hbroken : ∀ e ∈ a.symbols, a.isBroken declared e =
      (1 < a.graph.definitionCount e.1 ||
        (a.graph.definitionCount e.1 = 0 && declared.any (· == e.1))) := by
    intro e he
    rw [isBroken, hcount e he]
  have hsymbols : a.graph.symbols = a.symbols.map (·.1) := rfl
  simp only [SymbolGraph.verify, hsymbols, List.find?_map, verify, List.find?_congr hbroken,
    Function.comp_def]
  -- both reports are made of the first broken symbol, if there is one
  generalize hfound : a.symbols.find? _ = found
  cases found with
  | none => rfl
  | some e =>
    have he : e ∈ a.symbols := List.mem_of_find?_eq_some hfound
    simp only [Option.map_some, Except.map, hcount e he]

end Arena
end CodeAtlas
