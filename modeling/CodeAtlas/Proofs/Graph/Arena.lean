import CodeAtlas.Proofs.Graph.Callees
import CodeAtlas.Proofs.Ordered

/-! The graph in numbered nodes. Files and symbols are nodes of one list, two maps say which
numbers they have, and edges join numbers, so that only the nodes say what an edge links. A sound
arena reads as a symbol graph, and each of the four writes to an arena reads as the same write to
that graph. -/

namespace CodeAtlas

inductive NodeKind where
  | file
  | symbol
  deriving DecidableEq

inductive GraphNode where
  | file (path : String)
  | symbol (s : Symbol)

namespace GraphNode

def kind : GraphNode → NodeKind
  | file _ => .file
  | symbol _ => .symbol

theorem exists_file {n : GraphNode} (h : n.kind = .file) : ∃ path, n = .file path := by
  cases n with
  | file path => exact ⟨path, rfl⟩
  | symbol s => cases h

theorem exists_symbol {n : GraphNode} (h : n.kind = .symbol) : ∃ s, n = .symbol s := by
  cases n with
  | file path => cases h
  | symbol s => exact ⟨s, rfl⟩

end GraphNode

inductive EdgeLabel where
  | contains
  | relationship (kinds : Nat)
  | reference (site : Site)
  | caller (site : Site)
  | callee (site : Site)

namespace EdgeLabel

def ends : EdgeLabel → NodeKind × NodeKind
  | contains => (.file, .symbol)
  | reference _ => (.symbol, .file)
  | relationship _ | caller _ | callee _ => (.symbol, .symbol)

def isContains : EdgeLabel → Bool
  | contains => true
  | _ => false

def site? : EdgeLabel → Option Site
  | contains | relationship _ => none
  | reference site | caller site | callee site => some site

def link? : EdgeLabel → GraphNode → GraphNode → Option Link
  | contains, .file path, .symbol s => some (.contains path s)
  | relationship kinds, .symbol s, .symbol t => some (.relationship s t kinds)
  | reference site, .symbol s, .file path => some (.reference s path site)
  | caller site, .symbol s, .symbol t => some (.caller s t site)
  | callee site, .symbol s, .symbol t => some (.callee s t site)
  | _, _, _ => none

variable {label : EdgeLabel} {n m : GraphNode}

theorem exists_link (hsource : n.kind = label.ends.1) (htarget : m.kind = label.ends.2) :
    ∃ l, label.link? n m = some l := by
  cases label with
  | contains =>
    obtain ⟨path, rfl⟩ := GraphNode.exists_file hsource
    obtain ⟨s, rfl⟩ := GraphNode.exists_symbol htarget
    exact ⟨_, rfl⟩
  | reference site =>
    obtain ⟨s, rfl⟩ := GraphNode.exists_symbol hsource
    obtain ⟨path, rfl⟩ := GraphNode.exists_file htarget
    exact ⟨_, rfl⟩
  | relationship _ | caller _ | callee _ =>
    obtain ⟨s, rfl⟩ := GraphNode.exists_symbol hsource
    obtain ⟨t, rfl⟩ := GraphNode.exists_symbol htarget
    exact ⟨_, rfl⟩

theorem kinds_of_link? {l : Link} (h : label.link? n m = some l) :
    n.kind = label.ends.1 ∧ m.kind = label.ends.2 := by
  cases label <;> cases n <;> cases m <;> cases h <;> exact ⟨rfl, rfl⟩

end EdgeLabel

structure GraphEdge where
  slot : Nat
  source : Nat
  target : Nat
  label : EdgeLabel

def GraphEdge.defines (i : Nat) (e : GraphEdge) : Bool := e.target = i && e.label.isContains

/-- Edges come newest first. A freed slot goes to the next edge, the one freed last before
the others. -/
structure Arena where
  nodes : List GraphNode := []
  edges : List GraphEdge := []
  freed : List Nat := []
  symbols : List (Symbol × Nat) := []
  files : List (String × Nat) := []

theorem SymbolGraph.eq_of_parts {g g' : SymbolGraph} (hfiles : g.files = g'.files)
    (hsymbols : g.symbols = g'.symbols)
    (hlinks : g.links = g'.links) (hfreed : g.freed = g'.freed) : g = g' := by
  cases g
  cases hfiles
  cases hsymbols
  cases hlinks
  cases hfreed
  rfl

def Site.IsNear (s : Site) : Prop := s.line ≤ 2147483647 ∧ s.column ≤ 2147483647

namespace EdgeLabel
variable {label : EdgeLabel}

theorem near_of_none (h : label.site? = none) : ∀ site, label.site? = some site → site.IsNear := by
  intro site hsite
  cases h.symm.trans hsite

theorem near_of_site {site : Site} (h : label.site? = some site) (hnear : site.IsNear) :
    ∀ other, label.site? = some other → other.IsNear := by
  intro other hother
  rwa [← Option.some.inj (h.symm.trans hother)]

end EdgeLabel

namespace Arena

def symbolNode? (a : Arena) (s : Symbol) : Option Nat := a.symbols.lookup s

def fileNode? (a : Arena) (path : String) : Option Nat := a.files.lookup path

/-! ### Writes -/

def addFile (a : Arena) (path : String) : Nat × Arena :=
  match a.fileNode? path with
  | some i => (i, a)
  | none => (a.nodes.length,
    { a with nodes := a.nodes ++ [.file path], files := a.files ++ [(path, a.nodes.length)] })

def addSymbol (a : Arena) (s : Symbol) : Nat × Arena :=
  match a.symbolNode? s with
  | some i => (i, a)
  | none => (a.nodes.length,
    { a with nodes := a.nodes ++ [.symbol s], symbols := a.symbols ++ [(s, a.nodes.length)] })

def nextSlot (a : Arena) : Nat := a.freed.head?.getD a.edges.length

def addEdge (a : Arena) (source target : Nat) (label : EdgeLabel) : Arena :=
  { a with edges := ⟨a.nextSlot, source, target, label⟩ :: a.edges, freed := a.freed.tail }

def removeEdge (a : Arena) (slot : Nat) : Arena :=
  if a.edges.any (·.slot = slot) then
    { a with edges := a.edges.filter (·.slot ≠ slot), freed := slot :: a.freed }
  else a

def edgesFrom (a : Arena) (i : Nat) : List GraphEdge := a.edges.filter (·.source = i)

def edgesInto (a : Arena) (i : Nat) : List GraphEdge := a.edges.filter (·.target = i)

def definitions (a : Arena) (i : Nat) : List GraphEdge := a.edges.filter (·.defines i)

def dropDefinitions (a : Arena) (i : Nat) : Arena :=
  ((a.definitions i).map (·.slot)).foldl removeEdge a

def setDefinition (a : Arena) (symbol file : Nat) : Arena :=
  (a.dropDefinitions symbol).addEdge file symbol .contains

/-! ### What an arena stands for -/

def link? (a : Arena) (e : GraphEdge) : Option Link :=
  a.nodes[e.source]?.bind fun source => a.nodes[e.target]?.bind fun target =>
    e.label.link? source target

/-- Nodes of the wrong kind would drop a link. -/
def graph (a : Arena) : SymbolGraph where
  files := a.files.map (·.1)
  symbols := a.symbols.map (·.1)
  links := a.edges.filterMap fun e => (a.link? e).map fun l => (e.slot, l)
  freed := a.freed

def kindAt? (a : Arena) (i : Nat) : Option NodeKind := a.nodes[i]?.map GraphNode.kind

def IsTyped (a : Arena) (e : GraphEdge) : Prop :=
  a.kindAt? e.source = some e.label.ends.1 ∧ a.kindAt? e.target = some e.label.ends.2

/-- The maps and the nodes say the same, edges join what they should, and each slot is taken once
or free. -/
structure Sound (a : Arena) : Prop where
  symbol_iff : ∀ i s, a.nodes[i]? = some (.symbol s) ↔ (s, i) ∈ a.symbols
  file_iff : ∀ i path, a.nodes[i]? = some (.file path) ↔ (path, i) ∈ a.files
  symbols_distinct : a.symbols.Pairwise fun d e => ¬d.1 == e.1
  files_distinct : a.files.Pairwise fun d e => ¬d.1 == e.1
  spelled : ∀ e ∈ a.symbols, SymbolGraph.symbol? e.1.uri = some e.1
  typed : ∀ e ∈ a.edges, a.IsTyped e
  near : ∀ e ∈ a.edges, ∀ site, e.label.site? = some site → site.IsNear
  slots : (a.edges.map (·.slot) ++ a.freed).Perm (List.range (a.edges.length + a.freed.length))

/-- What a later arena has kept: all nodes with their numbers, and all edges but those of
definitions. -/
structure Grows (earlier later : Arena) : Prop where
  nodes : earlier.nodes <+: later.nodes
  symbols : earlier.symbols <+: later.symbols
  files : earlier.files <+: later.files
  edges : ∀ e ∈ earlier.edges, e.label.isContains = false → e ∈ later.edges

/-! ### Reading an arena -/

section
variable {nodes nodes' : List GraphNode} {i : Nat} {n m : GraphNode}

theorem getElem?_mono (h : nodes <+: nodes') (hi : nodes[i]? = some n) : nodes'[i]? = some n := by
  obtain ⟨more, rfl⟩ := h
  obtain ⟨hlt, -⟩ := List.getElem?_eq_some_iff.1 hi
  rw [List.getElem?_append_left hlt, hi]

theorem getElem?_concat_eq_some_iff :
    (nodes ++ [n])[i]? = some m ↔ nodes[i]? = some m ∨ i = nodes.length ∧ m = n := by
  constructor
  · intro hi
    by_cases hlt : i < nodes.length
    · rw [List.getElem?_append_left hlt] at hi
      exact .inl hi
    · obtain ⟨hend, hm⟩ := List.getElem?_eq_some_iff.1 hi
      have hlast : i = nodes.length := by
        rw [List.length_append, List.length_singleton] at hend
        omega
      subst hlast
      rw [List.getElem_concat_length] at hm
      · exact .inr ⟨rfl, hm.symm⟩
      · rfl
  · rintro (hi | ⟨rfl, rfl⟩)
    · exact getElem?_mono (List.prefix_append nodes [n]) hi
    · exact List.getElem?_concat_length

end

variable {a b : Arena} {e : GraphEdge} {s : Symbol} {path : String} {i : Nat}

theorem sound_empty : ({} : Arena).Sound where
  symbol_iff i s := by simp
  file_iff i path := by simp
  symbols_distinct := .nil
  files_distinct := .nil
  spelled e he := absurd he List.not_mem_nil
  typed e he := absurd he List.not_mem_nil
  near e he := absurd he List.not_mem_nil
  slots := .nil

theorem Sound.symbolNode?_eq_some_iff (h : a.Sound) :
    a.symbolNode? s = some i ↔ ∃ t, t == s ∧ a.nodes[i]? = some (.symbol t) := by
  simp only [symbolNode?, Ordered.lookup_eq_some_iff_exists h.symbols_distinct, h.symbol_iff]

theorem Sound.fileNode?_eq_some_iff (h : a.Sound) :
    a.fileNode? path = some i ↔ a.nodes[i]? = some (.file path) := by
  rw [h.file_iff, fileNode?, Ordered.lookup_eq_some_iff_exists h.files_distinct]
  simp

theorem Sound.symbolNode?_eq_iff_beq (h : a.Sound) {t : Symbol}
    (ht : a.nodes[i]? = some (.symbol t)) :
    a.symbolNode? s = some i ↔ t == s := by
  rw [h.symbolNode?_eq_some_iff]
  constructor
  · rintro ⟨t', hts, ht'⟩
    obtain rfl : t' = t := by simpa [ht] using ht'.symm
    exact hts
  · exact fun hts => ⟨t, hts, ht⟩

theorem Sound.beq_eq (h : a.Sound) (hs : a.symbolNode? s = some i) {j : Nat} {t : Symbol}
    (ht : a.nodes[j]? = some (.symbol t)) : (t == s) = decide (j = i) := by
  rw [Bool.eq_iff_iff, decide_eq_true_iff, ← h.symbolNode?_eq_iff_beq ht, hs, Option.some.injEq,
    eq_comm]

theorem IsTyped.exists_nodes (h : a.IsTyped e) :
    ∃ n m, a.nodes[e.source]? = some n ∧ a.nodes[e.target]? = some m ∧
    n.kind = e.label.ends.1 ∧ m.kind = e.label.ends.2 := by
  obtain ⟨n, hn, hsource⟩ := Option.map_eq_some_iff.1 h.1
  obtain ⟨m, hm, htarget⟩ := Option.map_eq_some_iff.1 h.2
  exact ⟨n, m, hn, hm, hsource, htarget⟩

theorem isTyped_of_nodes {n m : GraphNode} (hn : a.nodes[e.source]? = some n)
    (hm : a.nodes[e.target]? = some m)
    (hsource : n.kind = e.label.ends.1) (htarget : m.kind = e.label.ends.2) : a.IsTyped e :=
  ⟨Option.map_eq_some_iff.2 ⟨n, hn, hsource⟩, Option.map_eq_some_iff.2 ⟨m, hm, htarget⟩⟩

theorem link?_of_nodes {n m : GraphNode} (hn : a.nodes[e.source]? = some n)
    (hm : a.nodes[e.target]? = some m) :
    a.link? e = e.label.link? n m := by
  simp only [link?, hn, hm, Option.bind_some]

theorem IsTyped.exists_link (h : a.IsTyped e) : ∃ l, a.link? e = some l := by
  obtain ⟨n, m, hn, hm, hsource, htarget⟩ := h.exists_nodes
  rw [link?_of_nodes hn hm]
  exact EdgeLabel.exists_link hsource htarget

/-- An edge with what its ends hold, and the link that it is read as. -/
inductive Joins (a : Arena) : GraphEdge → Link → Prop
  | contains {slot i j : Nat} {path : String} {s : Symbol} (hi : a.nodes[i]? = some (.file path))
    (hj : a.nodes[j]? = some (.symbol s)) : Joins a ⟨slot, i, j, .contains⟩ (.contains path s)
  | relationship {slot i j kinds : Nat} {s t : Symbol} (hi : a.nodes[i]? = some (.symbol s))
    (hj : a.nodes[j]? = some (.symbol t)) :
      Joins a ⟨slot, i, j, .relationship kinds⟩ (.relationship s t kinds)
  | reference {slot i j : Nat} {site : Site} {s : Symbol} {path : String}
    (hi : a.nodes[i]? = some (.symbol s))
    (hj : a.nodes[j]? = some (.file path)) :
      Joins a ⟨slot, i, j, .reference site⟩ (.reference s path site)
  | caller {slot i j : Nat} {site : Site} {s t : Symbol} (hi : a.nodes[i]? = some (.symbol s))
    (hj : a.nodes[j]? = some (.symbol t)) : Joins a ⟨slot, i, j, .caller site⟩ (.caller s t site)
  | callee {slot i j : Nat} {site : Site} {s t : Symbol} (hi : a.nodes[i]? = some (.symbol s))
    (hj : a.nodes[j]? = some (.symbol t)) : Joins a ⟨slot, i, j, .callee site⟩ (.callee s t site)

theorem joins_of_link? {l : Link} (hl : a.link? e = some l) : a.Joins e l := by
  obtain ⟨n, hn, hl⟩ := Option.bind_eq_some_iff.1 hl
  obtain ⟨m, hm, hl⟩ := Option.bind_eq_some_iff.1 hl
  obtain ⟨slot, source, target, label⟩ := e
  cases label <;> cases n <;> cases m <;> cases hl
  · exact .contains hn hm
  · exact .relationship hn hm
  · exact .reference hn hm
  · exact .caller hn hm
  · exact .callee hn hm

theorem IsTyped.mono (h : a.IsTyped e) (hnodes : a.nodes <+: b.nodes) : b.IsTyped e := by
  obtain ⟨n, m, hn, hm, hsource, htarget⟩ := h.exists_nodes
  exact isTyped_of_nodes (getElem?_mono hnodes hn) (getElem?_mono hnodes hm) hsource htarget

theorem IsTyped.link?_eq (h : a.IsTyped e) (hnodes : a.nodes <+: b.nodes) :
    b.link? e = a.link? e := by
  obtain ⟨n, m, hn, hm, -, -⟩ := h.exists_nodes
  rw [link?_of_nodes hn hm, link?_of_nodes (getElem?_mono hnodes hn) (getElem?_mono hnodes hm)]

theorem links_congr (h : a.Sound) (hnodes : a.nodes <+: b.nodes) (hedges : b.edges = a.edges) :
    b.graph.links = a.graph.links := by
  simp only [graph, hedges]
  refine List.filterMap_congr fun e he => ?_
  rw [(h.typed e he).link?_eq hnodes]

theorem length_links (h : a.Sound) : a.graph.links.length = a.edges.length := by
  rw [graph, List.length_filterMap_eq_countP, List.countP_eq_length]
  intro e he
  obtain ⟨l, hl⟩ := (h.typed e he).exists_link
  simp [hl]

theorem nextSlot_graph (h : a.Sound) : a.graph.nextSlot = a.nextSlot := by
  rw [SymbolGraph.nextSlot, length_links h]
  rfl

theorem Sound.symbol_eq (h : a.Sound) (hs : SymbolGraph.symbol? s.uri = some s) {t : Symbol}
    (ht : a.nodes[i]? = some (.symbol t)) (hts : t == s) : t = s :=
  SymbolGraph.eq_of_beq_of_symbol? (h.spelled (t, i) ((h.symbol_iff i t).1 ht)) hs hts

/-! ### Growing -/

namespace Grows
variable {c : Arena}

theorem refl (a : Arena) :
    a.Grows a := ⟨List.prefix_rfl, List.prefix_rfl, List.prefix_rfl, fun _ he _ => he⟩

theorem trans (h : a.Grows b) (h' : b.Grows c) : a.Grows c where
  nodes := h.nodes.trans h'.nodes
  symbols := h.symbols.trans h'.symbols
  files := h.files.trans h'.files
  edges e he hlabel := h'.edges e (h.edges e he hlabel) hlabel

end Grows

/-! ### Files and symbols -/

theorem addFile_of_some (hpath : a.fileNode? path = some i) : a.addFile path = (i, a) := by
  rw [addFile, hpath]

theorem addFile_of_none (hpath : a.fileNode? path = none) :
    a.addFile path = (a.nodes.length,
      { a with
        nodes := a.nodes ++ [.file path]
        files := a.files ++ [(path, a.nodes.length)] }) := by
  rw [addFile, hpath]

theorem addSymbol_of_some (hs : a.symbolNode? s = some i) : a.addSymbol s = (i, a) := by
  rw [addSymbol, hs]

theorem addSymbol_of_none (hs : a.symbolNode? s = none) :
    a.addSymbol s = (a.nodes.length,
      { a with
        nodes := a.nodes ++ [.symbol s]
        symbols := a.symbols ++ [(s, a.nodes.length)] }) := by
  rw [addSymbol, hs]

theorem grows_addFile (a : Arena) (path : String) : a.Grows (a.addFile path).2 := by
  cases hpath : a.fileNode? path with
  | some i =>
    rw [addFile_of_some hpath]
    exact .refl a
  | none =>
    rw [addFile_of_none hpath]
    exact ⟨List.prefix_append _ _, List.prefix_rfl, List.prefix_append _ _, fun _ he _ => he⟩

theorem grows_addSymbol (a : Arena) (s : Symbol) : a.Grows (a.addSymbol s).2 := by
  cases hs : a.symbolNode? s with
  | some i =>
    rw [addSymbol_of_some hs]
    exact .refl a
  | none =>
    rw [addSymbol_of_none hs]
    exact ⟨List.prefix_append _ _, List.prefix_append _ _, List.prefix_rfl, fun _ he _ => he⟩

theorem Sound.addFile (h : a.Sound) (path : String) : (a.addFile path).2.Sound := by
  cases hpath : a.fileNode? path with
  | some i => rwa [addFile_of_some hpath]
  | none =>
    rw [addFile_of_none hpath]
    have hmore : a.nodes <+: a.nodes ++ [.file path] := List.prefix_append _ _
    refine ⟨fun i s => ?_, fun i file => ?_, h.symbols_distinct, ?_, h.spelled, ?_, h.near, h.slots⟩
    · rw [getElem?_concat_eq_some_iff, h.symbol_iff]
      simp
    · rw [getElem?_concat_eq_some_iff, h.file_iff]
      simp [and_comm]
    · exact Ordered.pairwise_concat_of_lookup_eq_none h.files_distinct hpath _
    · exact fun e he => (h.typed e he).mono hmore

theorem Sound.addSymbol (h : a.Sound) (hs : SymbolGraph.symbol? s.uri = some s) :
    (a.addSymbol s).2.Sound := by
  cases hnode : a.symbolNode? s with
  | some i => rwa [addSymbol_of_some hnode]
  | none =>
    rw [addSymbol_of_none hnode]
    have hmore : a.nodes <+: a.nodes ++ [.symbol s] := List.prefix_append _ _
    refine ⟨fun i t => ?_, fun i file => ?_, ?_, h.files_distinct, fun e he => ?_,
      ?_, h.near, h.slots⟩
    · rw [getElem?_concat_eq_some_iff, h.symbol_iff]
      simp [and_comm]
    · rw [getElem?_concat_eq_some_iff, h.file_iff]
      simp
    · exact Ordered.pairwise_concat_of_lookup_eq_none h.symbols_distinct hnode _
    · rcases List.mem_append.1 he with he | he
      · exact h.spelled e he
      · rwa [List.mem_singleton.1 he]
    · exact fun e he => (h.typed e he).mono hmore

theorem Sound.node_addFile (h : a.Sound) (path : String) :
    (a.addFile path).2.nodes[(a.addFile path).1]? = some (.file path) := by
  cases hpath : a.fileNode? path with
  | some i =>
    rw [addFile_of_some hpath]
    exact h.fileNode?_eq_some_iff.1 hpath
  | none =>
    rw [addFile_of_none hpath]
    exact List.getElem?_concat_length

theorem Sound.node_addSymbol (h : a.Sound) (hs : SymbolGraph.symbol? s.uri = some s) :
    (a.addSymbol s).2.nodes[(a.addSymbol s).1]? = some (.symbol s) := by
  cases hnode : a.symbolNode? s with
  | some i =>
    rw [addSymbol_of_some hnode]
    obtain ⟨t, hts, ht⟩ := h.symbolNode?_eq_some_iff.1 hnode
    rwa [h.symbol_eq hs ht hts] at ht
  | none =>
    rw [addSymbol_of_none hnode]
    exact List.getElem?_concat_length

theorem contains_files_graph (a : Arena) (path : String) :
    a.graph.files.contains path = (a.fileNode? path).isSome := by
  rw [Bool.eq_iff_iff, graph, fileNode?, List.contains_iff_exists_mem_beq, List.lookup_isSome_iff]
  simp

theorem hasSymbol_graph (a : Arena) (s : Symbol) :
    a.graph.hasSymbol s = (a.symbolNode? s).isSome := by
  rw [Bool.eq_iff_iff, SymbolGraph.hasSymbol, graph, symbolNode?, List.any_map, List.any_eq_true,
    List.lookup_isSome_iff]
  simp only [Function.comp_apply, BEq.comm]

theorem Sound.graph_addFile (h : a.Sound) (path : String) :
    (a.addFile path).2.graph = a.graph.addFile path := by
  have hlinks : (a.addFile path).2.graph.links = a.graph.links := by
    refine links_congr h (grows_addFile a path).nodes ?_
    unfold Arena.addFile
    split <;> rfl
  cases hpath : a.fileNode? path with
  | some i =>
    rw [addFile_of_some hpath, SymbolGraph.addFile, contains_files_graph, hpath]
    rfl
  | none =>
    rw [addFile_of_none hpath] at hlinks ⊢
    rw [SymbolGraph.addFile, contains_files_graph, hpath]
    exact SymbolGraph.eq_of_parts List.map_append rfl hlinks rfl

theorem Sound.graph_addSymbol (h : a.Sound) (s : Symbol) :
    (a.addSymbol s).2.graph = a.graph.addSymbol s := by
  have hlinks : (a.addSymbol s).2.graph.links = a.graph.links := by
    refine links_congr h (grows_addSymbol a s).nodes ?_
    unfold Arena.addSymbol
    split <;> rfl
  cases hs : a.symbolNode? s with
  | some i =>
    rw [addSymbol_of_some hs, SymbolGraph.addSymbol, hasSymbol_graph, hs]
    rfl
  | none =>
    rw [addSymbol_of_none hs] at hlinks ⊢
    rw [SymbolGraph.addSymbol, hasSymbol_graph, hs]
    exact SymbolGraph.eq_of_parts rfl List.map_append hlinks rfl

/-! ### Edges -/

theorem grows_addEdge (a : Arena) (source target : Nat) (label : EdgeLabel) :
    a.Grows (a.addEdge source target label) :=
  ⟨List.prefix_rfl, List.prefix_rfl, List.prefix_rfl, fun _ he _ => List.mem_cons_of_mem _ he⟩

theorem Sound.slots_addEdge (h : a.Sound) (source target : Nat) (label : EdgeLabel) :
    ((a.addEdge source target label).edges.map (·.slot) ++
      (a.addEdge source target label).freed).Perm
      (List.range ((a.addEdge source target label).edges.length +
        (a.addEdge source target label).freed.length)) := by
  have hslots := h.slots
  cases hfreed : a.freed with
  | nil =>
    rw [hfreed, List.append_nil, List.length_nil, Nat.add_zero] at hslots
    simp only [Arena.addEdge, nextSlot, hfreed, List.head?_nil, Option.getD_none, List.tail_nil,
      List.map_cons, List.append_nil, List.length_cons, List.length_nil, Nat.add_zero,
      List.range_succ]
    exact (hslots.cons _).trans (List.perm_append_singleton _ _).symm
  | cons slot freed =>
    rw [hfreed, List.length_cons] at hslots
    have htotal : a.edges.length + 1 + freed.length =
        a.edges.length + (freed.length + 1) := by omega
    simp only [Arena.addEdge, nextSlot, hfreed, List.head?_cons, Option.getD_some, List.tail_cons,
      List.map_cons, List.length_cons, List.cons_append, htotal]
    exact List.perm_middle.symm.trans hslots

theorem Sound.addEdge (h : a.Sound) {source target : Nat} {label : EdgeLabel} {n m : GraphNode}
    {l : Link} (hn : a.nodes[source]? = some n) (hm : a.nodes[target]? = some m)
    (hl : label.link? n m = some l) (hnear : ∀ site, label.site? = some site → site.IsNear) :
    (a.addEdge source target label).Sound := by
  obtain ⟨hsource, htarget⟩ := EdgeLabel.kinds_of_link? hl
  refine ⟨h.symbol_iff, h.file_iff, h.symbols_distinct, h.files_distinct, h.spelled,
    fun e he => ?_, fun e he => ?_,
    h.slots_addEdge source target label⟩
  · rcases List.mem_cons.1 he with rfl | he
    · exact isTyped_of_nodes hn hm hsource htarget
    · exact h.typed e he
  · rcases List.mem_cons.1 he with rfl | he
    · exact hnear
    · exact h.near e he

theorem Sound.graph_addEdge (h : a.Sound) {source target : Nat} {label : EdgeLabel}
    {n m : GraphNode} {l : Link} (hn : a.nodes[source]? = some n) (hm : a.nodes[target]? = some m)
    (hl : label.link? n m = some l) :
    (a.addEdge source target label).graph = a.graph.addLink l := by
  have hlink : (a.addEdge source target label).link? ⟨a.nextSlot, source, target, label⟩ =
      some l := by
    rw [← hl]
    exact link?_of_nodes hn hm
  refine SymbolGraph.eq_of_parts rfl rfl ?_ rfl
  rw [SymbolGraph.addLink, nextSlot_graph h, graph, Arena.addEdge, List.filterMap_cons_some]
  · rfl
  · exact Option.map_eq_some_iff.2 ⟨l, hlink, rfl⟩

/-! ### Definitions -/

theorem foldl_removeEdge {slots : List Nat} (hdistinct : slots.Nodup)
    (hslots : ∀ slot ∈ slots, ∃ e ∈ a.edges, e.slot = slot) :
    slots.foldl removeEdge a =
      { a with edges := a.edges.filter (·.slot ∉ slots), freed := slots.reverse ++ a.freed } := by
  induction slots generalizing a with
  | nil => simp
  | cons slot slots ih =>
    obtain ⟨hnew, hdistinct⟩ := List.nodup_cons.1 hdistinct
    have hfound : a.edges.any (·.slot = slot) := by simpa using hslots slot List.mem_cons_self
    have hremoved : a.removeEdge slot =
        { a with edges := a.edges.filter (·.slot ≠ slot), freed := slot :: a.freed } := by
      rw [removeEdge, if_pos hfound]
    have hrest : ∀ other ∈ slots, ∃ e ∈ (a.removeEdge slot).edges, e.slot = other := by
      intro other hother
      obtain ⟨e, he, rfl⟩ := hslots other (List.mem_cons_of_mem _ hother)
      have hne : e.slot ≠ slot := fun heq => hnew (heq ▸ hother)
      rw [hremoved]
      exact ⟨e, List.mem_filter.2 ⟨he, decide_eq_true hne⟩, rfl⟩
    rw [List.foldl_cons, ih hdistinct hrest, hremoved]
    simp [List.filter_filter, Bool.and_comm]

theorem Sound.distinct_slots (h : a.Sound) : (a.edges.map (·.slot)).Nodup := by
  have hall : (a.edges.map (·.slot) ++ a.freed).Nodup := h.slots.nodup_iff.2 List.nodup_range
  exact (List.nodup_append.1 hall).1

theorem Sound.dropDefinitions_eq (h : a.Sound) (i : Nat) : a.dropDefinitions i =
    { a with
      edges := a.edges.filter (!·.defines i)
      freed := ((a.definitions i).map (·.slot)).reverse ++ a.freed } := by
  have hdistinct : ((a.definitions i).map (·.slot)).Nodup :=
    h.distinct_slots.sublist (List.filter_sublist.map _)
  have hpresent : ∀ slot ∈ (a.definitions i).map (·.slot), ∃ e ∈ a.edges, e.slot = slot := by
    intro slot hslot
    obtain ⟨e, he, rfl⟩ := List.mem_map.1 hslot
    exact ⟨e, List.mem_of_mem_filter he, rfl⟩
  -- a slot is that of one edge only
  have hstale : ∀ e ∈ a.edges, (e.slot ∉ (a.definitions i).map (·.slot)) ↔ e.defines i = false := by
    intro e he
    rw [← Bool.not_eq_true, not_iff_not, List.mem_map]
    constructor
    · rintro ⟨other, hother, hslot⟩
      obtain ⟨hmem, hdefines⟩ := List.mem_filter.1 hother
      rwa [List.inj_on_of_nodup_map h.distinct_slots hmem he hslot] at hdefines
    · exact fun hdefines => ⟨e, List.mem_filter.2 ⟨he, hdefines⟩, rfl⟩
  have hkept : a.edges.filter (·.slot ∉ (a.definitions i).map (·.slot)) =
      a.edges.filter (!·.defines i) := by
    refine List.filter_congr fun e he => ?_
    rw [Bool.eq_iff_iff, decide_eq_true_iff, hstale e he, Bool.not_eq_true']
  rw [dropDefinitions, foldl_removeEdge hdistinct hpresent, hkept]

theorem Sound.slots_dropDefinitions (h : a.Sound) (i : Nat) :
    ((a.dropDefinitions i).edges.map (·.slot) ++ (a.dropDefinitions i).freed).Perm
      (List.range ((a.dropDefinitions i).edges.length + (a.dropDefinitions i).freed.length)) := by
  have hsplit : (a.edges.filter (!·.defines i) ++ a.definitions i).Perm a.edges :=
    List.perm_append_comm.trans (List.filter_append_perm _ _)
  have hedges : (a.edges.filter (!·.defines i)).length + (a.definitions i).length =
      a.edges.length := by
    rw [← List.length_append, hsplit.length_eq]
  have htotal : (a.edges.filter (!·.defines i)).length +
      ((a.definitions i).length + a.freed.length) =
      a.edges.length + a.freed.length := by omega
  rw [h.dropDefinitions_eq]
  simp only [List.length_append, List.length_reverse, List.length_map, htotal]
  refine List.Perm.trans ?_ h.slots
  have hslots := hsplit.map (·.slot)
  rw [List.map_append] at hslots
  rw [← List.append_assoc]
  exact (((List.reverse_perm _).append_left _).trans hslots).append_right _

theorem Sound.dropDefinitions (h : a.Sound) (i : Nat) : (a.dropDefinitions i).Sound := by
  have hslots := h.slots_dropDefinitions i
  rw [h.dropDefinitions_eq] at hslots ⊢
  exact ⟨h.symbol_iff, h.file_iff, h.symbols_distinct, h.files_distinct, h.spelled,
    fun e he => h.typed e (List.mem_of_mem_filter he),
    fun e he => h.near e (List.mem_of_mem_filter he), hslots⟩

theorem Sound.defines_link (h : a.Sound) (hi : a.symbolNode? s = some i) {l : Link}
    (hl : a.Joins e l) :
    l.defines s = e.defines i := by
  cases hl with
  | contains _ ht =>
    rw [Link.defines, Link.definitionOf?, h.beq_eq hi ht, GraphEdge.defines, EdgeLabel.isContains,
      Bool.and_true]
    split
    · rename_i hsame
      exact hsame.symm
    · rename_i hother
      exact (Bool.not_eq_true _ ▸ hother).symm
  | reference | relationship | caller | callee => exact (Bool.and_false _).symm

theorem Sound.graph_dropDefinitions (h : a.Sound) (hi : a.symbolNode? s = some i) :
    (a.dropDefinitions i).graph = a.graph.dropDefinitions s := by
  -- what is kept, and what is dropped
  have hlinks (keep : Bool → Bool) : (a.edges.filter fun e => keep (e.defines i)).filterMap
      (fun e => (a.link? e).map fun l => (e.slot, l)) =
        a.graph.links.filter fun e => keep (e.2.defines s) := by
    rw [graph, List.filter_filterMap, List.filterMap_filter]
    refine List.filterMap_congr fun e he => ?_
    obtain ⟨l, hl⟩ := (h.typed e he).exists_link
    rw [hl, ← h.defines_link hi (joins_of_link? hl)]
    cases hkeep : keep (l.defines s) <;> simp [hkeep, Option.filter]
  have hfreed : (a.definitions i).map (·.slot) =
      (a.graph.links.filter fun e => e.2.defines s).map (·.1) := by
    have hdropped : (a.definitions i).filterMap (fun e => (a.link? e).map fun l => (e.slot, l)) =
        a.graph.links.filter fun e => e.2.defines s := hlinks id
    rw [← hdropped, List.map_filterMap, ← List.filterMap_eq_map]
    refine List.filterMap_congr fun e he => ?_
    obtain ⟨l, hl⟩ := (h.typed e (List.mem_of_mem_filter he)).exists_link
    simp [hl]
  rw [h.dropDefinitions_eq]
  refine SymbolGraph.eq_of_parts rfl rfl (hlinks (!·)) ?_
  rw [SymbolGraph.dropDefinitions, ← hfreed]
  rfl

theorem Sound.grows_dropDefinitions (h : a.Sound) (i : Nat) : a.Grows (a.dropDefinitions i) := by
  rw [h.dropDefinitions_eq]
  refine ⟨List.prefix_rfl, List.prefix_rfl, List.prefix_rfl,
    fun e he hlabel => List.mem_filter.2 ⟨he, ?_⟩⟩
  rw [GraphEdge.defines, hlabel, Bool.and_false]
  rfl

variable {file : Nat}

theorem Sound.setDefinition (h : a.Sound) (hs : a.nodes[i]? = some (.symbol s))
    (hfile : a.nodes[file]? = some (.file path)) : (a.setDefinition i file).Sound := by
  have hnodes := (h.grows_dropDefinitions i).nodes
  exact (h.dropDefinitions i).addEdge (getElem?_mono hnodes hfile) (getElem?_mono hnodes hs) rfl
    (EdgeLabel.near_of_none rfl)

theorem Sound.grows_setDefinition (h : a.Sound) (i file : Nat) : a.Grows (a.setDefinition i file) :=
  (h.grows_dropDefinitions i).trans (grows_addEdge _ _ _ _)

theorem Sound.graph_setDefinition (h : a.Sound) (hs : a.nodes[i]? = some (.symbol s))
    (hfile : a.nodes[file]? = some (.file path)) :
    (a.setDefinition i file).graph = a.graph.setDefinition s path := by
  have hnodes := (h.grows_dropDefinitions i).nodes
  have hi : a.symbolNode? s = some i := (h.symbolNode?_eq_iff_beq hs).2 BEq.rfl
  rw [Arena.setDefinition, SymbolGraph.setDefinition, ← h.graph_dropDefinitions hi]
  exact (h.dropDefinitions i).graph_addEdge (getElem?_mono hnodes hfile)
    (getElem?_mono hnodes hs) rfl

end Arena
end CodeAtlas
