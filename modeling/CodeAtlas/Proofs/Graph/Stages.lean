import CodeAtlas.CommandLine.Run
import CodeAtlas.Proofs.Graph.Lookups
import CodeAtlas.Proofs.Graph.References
import CodeAtlas.Proofs.Search.Exact
import CodeAtlas.Proofs.Source.Lookup

/-! The builder on numbered nodes, with every stage that the arena goes through. It builds the same
graph, and at every stage the maps name the nodes, the edges join nodes of the right kinds, and
nothing has been lost but edges to definitions. -/

namespace CodeAtlas

theorem SourceRange.IsRange.isNear {raw : List Int32} {r : SourceRange} (h : IsRange raw r)
    (roles : Roles) :
    Site.IsNear ⟨r.startLine, r.startColumn, roles⟩ := by
  have hbound : ∀ n ∈ raw.map Int32.toInt, n ≤ 2147483647 := by
    intro n hn
    obtain ⟨number, -, rfl⟩ := List.mem_map.1 hn
    exact number.toInt_le
  have hline : (r.startLine : Int) ∈ raw.map Int32.toInt := by
    rcases h.numbers with ⟨hthree, -⟩ | hfour
    · simp [hthree]
    · simp [hfour]
  have hcolumn : (r.startColumn : Int) ∈ raw.map Int32.toInt := by
    rcases h.numbers with ⟨hthree, -⟩ | hfour
    · simp [hthree]
    · simp [hfour]
  exact ⟨Int.ofNat_le.1 (hbound _ hline), Int.ofNat_le.1 (hbound _ hcolumn)⟩

namespace Arena

inductive Write : Arena → Arena → Prop
  | file (a : Arena) (path : String) : Write a (a.addFile path).2
  | symbol (a : Arena) (s : Symbol) : Write a (a.addSymbol s).2
  | edge (a : Arena) (source target : Nat) (label : EdgeLabel) :
    Write a (a.addEdge source target label)
  | definition (a : Arena) (symbol file : Nat) : Write a (a.setDefinition symbol file)

end Arena

/-- An arena that is being built, and all that it has been, latest first. -/
structure Building where
  present : Arena := {}
  past : List Arena := []

namespace Building

def stages (b : Building) : List Arena := b.present :: b.past

def write (b : Building) (a : Arena) : Building := ⟨a, b.stages⟩

def addFile (b : Building) (path : String) : Nat × Building :=
  let added := b.present.addFile path
  (added.1, b.write added.2)

def addSymbol (b : Building) (s : Symbol) : Nat × Building :=
  let added := b.present.addSymbol s
  (added.1, b.write added.2)

def addEdge (b : Building) (source target : Nat) (label : EdgeLabel) : Building :=
  b.write (b.present.addEdge source target label)

def setDefinition (b : Building) (symbol file : Nat) : Building :=
  b.write (b.present.setDefinition symbol file)

open SymbolGraph (symbol? declared)

def addRelationship (node : Nat) (b : Building) (r : Relationship) : Building :=
  match symbol? r.symbol with
  | none => b
  | some target =>
    let target := b.addSymbol target
    target.2.addEdge node target.1 (.relationship r.kindBits)

def addInformation (b : Building) (i : SymbolInformation) : Building :=
  match symbol? i.symbol with
  | none => b
  | some s =>
    let node := b.addSymbol s
    i.relationships.foldl (addRelationship node.1) node.2

def addDeclaration (file : Nat) (b : Building) (i : SymbolInformation) : Building :=
  match symbol? i.symbol with
  | none => b
  | some s =>
    let node := (b.addInformation i).addSymbol s
    node.2.setDefinition node.1 file

def addOccurrence (file : Nat) (b : Building) (o : Occurrence) : Building :=
  match symbol? o.symbol, SourceRange.ofRaw? o.range with
  | some s, some range =>
    let roles := Roles.ofRaw o.roles
    let node := b.addSymbol s
    let b := node.2.addEdge node.1 file (.reference ⟨range.startLine, range.startColumn, roles⟩)
    if roles.isDefinition then b.setDefinition node.1 file else b
  | _, _ => b

def addCall (method : Symbol) (caller : Nat) (b : Building) (r : Reference) : Building :=
  if r.symbol == method || !r.symbol.isCallable then b
  else
    let callee := b.addSymbol r.symbol
    (callee.2.addEdge caller callee.1 (.caller r.site)).addEdge callee.1 caller (.callee r.site)

def addCalls (resolver : SourceResolver) (b : Building) (method : Symbol) : Building :=
  match resolver.span method with
  | .ok (some span) =>
    let caller := b.addSymbol method
    (caller.2.present.referencesInSpan {} span).foldl (addCall method caller.1) caller.2
  | _ => b

def addDocument (resolver : Option SourceResolver) (b : Building) (d : Document) : Building :=
  let file := b.addFile d.path
  let b := d.symbols.foldl (addDeclaration file.1) file.2
  let b := d.occurrences.foldl (addOccurrence file.1) b
  match resolver with
  | none => b
  | some resolver => ((declared d).filter fun s => s.kind = .method).foldl (addCalls resolver) b

def ofIndex (resolver : Option SourceResolver) (x : Index) : Building :=
  x.externalSymbols.foldl addInformation (x.documents.foldl (addDocument resolver) {})

/-! ### What a run keeps -/

/-- A building that has come to the graph `g`, with sound stages only and since some arena
without a loss. -/
structure Follows (start : Arena) (b : Building) (g : SymbolGraph) : Prop where
  sound : ∀ a ∈ b.stages, a.Sound
  grows : b.stages.Pairwise fun later earlier => earlier.Grows later
  written : b.stages.IsChain fun later earlier => earlier.Write later
  begins : b.stages.getLast? = some {}
  since : start.Grows b.present
  graph_eq : b.present.graph = g

namespace Follows
variable {start : Arena} {b : Building} {g g' : SymbolGraph} {s : Symbol} {path : String}
  {node file : Nat}

theorem present_sound (h : Follows start b g) : b.present.Sound := h.sound _ List.mem_cons_self

theorem node_eq (h : Follows start b g) {n : GraphNode} {i : Nat} (hi : start.nodes[i]? = some n) :
    b.present.nodes[i]? = some n := Arena.getElem?_mono h.since.nodes hi

theorem again (h : Follows start b g) : Follows b.present b g := { h with since := .refl _ }

theorem before {start' : Arena} (h : Follows start' b g) (hstart : start.Grows start') :
    Follows start b g :=
  { h with since := hstart.trans h.since }

theorem write (h : Follows start b g) {a : Arena} (ha : a.Sound) (hgrows : b.present.Grows a)
    (hwrite : b.present.Write a) (hgraph : a.graph = g') : Follows start (b.write a) g' where
  sound := List.forall_mem_cons.2 ⟨ha, h.sound⟩
  grows := by
    refine List.pairwise_cons.2 ⟨fun earlier hearlier => ?_, h.grows⟩
    rcases List.mem_cons.1 hearlier with rfl | hpast
    · exact hgrows
    · exact ((List.pairwise_cons.1 h.grows).1 earlier hpast).trans hgrows
  written := List.isChain_cons_cons.2 ⟨hwrite, h.written⟩
  begins := h.begins
  since := h.since.trans hgrows
  graph_eq := hgraph

theorem addFile (h : Follows start b g) (path : String) :
    Follows start (b.addFile path).2 (g.addFile path) := by
  obtain rfl := h.graph_eq
  exact h.write (h.present_sound.addFile path) (Arena.grows_addFile _ path) (.file _ path)
    (h.present_sound.graph_addFile path)

theorem addSymbol (h : Follows start b g) (hs : symbol? s.uri = some s) :
    Follows start (b.addSymbol s).2 (g.addSymbol s) := by
  obtain rfl := h.graph_eq
  exact h.write (h.present_sound.addSymbol hs) (Arena.grows_addSymbol _ s) (.symbol _ s)
    (h.present_sound.graph_addSymbol s)

theorem node_addFile (h : Follows start b g) (path : String) :
    (b.addFile path).2.present.nodes[(b.addFile path).1]? = some (.file path) :=
  h.present_sound.node_addFile path

theorem node_addSymbol (h : Follows start b g) (hs : symbol? s.uri = some s) :
    (b.addSymbol s).2.present.nodes[(b.addSymbol s).1]? = some (.symbol s) :=
  h.present_sound.node_addSymbol hs

theorem addEdge (h : Follows start b g) {source target : Nat} (label : EdgeLabel) {n m : GraphNode}
    {l : Link} (hn : b.present.nodes[source]? = some n) (hm : b.present.nodes[target]? = some m)
    (hl : label.link? n m = some l) (hnear : ∀ site, label.site? = some site → site.IsNear) :
    Follows start (b.addEdge source target label) (g.addLink l) := by
  obtain rfl := h.graph_eq
  exact h.write (h.present_sound.addEdge hn hm hl hnear) (Arena.grows_addEdge _ _ _ _)
    (.edge _ _ _ _)
    (h.present_sound.graph_addEdge hn hm hl)

theorem setDefinition (h : Follows start b g) (hs : b.present.nodes[node]? = some (.symbol s))
    (hfile : b.present.nodes[file]? = some (.file path)) :
    Follows start (b.setDefinition node file) (g.setDefinition s path) := by
  obtain rfl := h.graph_eq
  exact h.write (h.present_sound.setDefinition hs hfile)
    (h.present_sound.grows_setDefinition node file)
    (.definition _ _ _) (h.present_sound.graph_setDefinition hs hfile)

theorem foldl {α : Type} {f : Building → α → Building} {f' : SymbolGraph → α → SymbolGraph}
    (h : Follows start b g) (as : List α)
    (hround : ∀ a ∈ as, ∀ b g, Follows start b g → Follows start (f b a) (f' g a)) :
    Follows start (as.foldl f b) (as.foldl f' g) := by
  induction as generalizing b g with
  | nil => exact h
  | cons a as ih =>
    exact ih (hround a List.mem_cons_self b g h) fun c hc => hround c (List.mem_cons_of_mem a hc)

theorem addRelationship (h : Follows start b g) (hnode : start.nodes[node]? = some (.symbol s))
    (r : Relationship) :
    Follows start (Building.addRelationship node b r) (SymbolGraph.addRelationship s g r) := by
  unfold Building.addRelationship SymbolGraph.addRelationship
  cases htarget : symbol? r.symbol with
  | none => exact h
  | some target =>
    have htarget := SymbolGraph.symbol?_uri htarget
    have hadded := h.addSymbol htarget
    exact hadded.addEdge (.relationship _) (hadded.node_eq hnode) (h.node_addSymbol htarget) rfl
      (EdgeLabel.near_of_none rfl)

theorem addInformation (h : Follows start b g) (i : SymbolInformation) :
    Follows start (b.addInformation i) (g.addInformation i) := by
  unfold Building.addInformation SymbolGraph.addInformation
  cases hs : symbol? i.symbol with
  | none => exact h
  | some s =>
    have hs := SymbolGraph.symbol?_uri hs
    have hadded := h.addSymbol hs
    exact (hadded.again.foldl _ fun r _ b g h' =>
      h'.addRelationship (h.node_addSymbol hs) r).before hadded.since

theorem addDeclaration (h : Follows start b g) (hfile : start.nodes[file]? = some (.file path))
    (i : SymbolInformation) :
    Follows start (Building.addDeclaration file b i) (SymbolGraph.addDeclaration path g i) := by
  unfold Building.addDeclaration SymbolGraph.addDeclaration
  cases hs : symbol? i.symbol with
  | none => exact h
  | some s =>
    have hs := SymbolGraph.symbol?_uri hs
    have hinformation := h.addInformation i
    have hadded := hinformation.addSymbol hs
    exact hadded.setDefinition (hinformation.node_addSymbol hs) (hadded.node_eq hfile)

theorem addOccurrence (h : Follows start b g) (hfile : start.nodes[file]? = some (.file path))
    (o : Occurrence) :
    Follows start (Building.addOccurrence file b o) (SymbolGraph.addOccurrence path g o) := by
  unfold Building.addOccurrence SymbolGraph.addOccurrence
  cases hs : symbol? o.symbol with
  | none => exact h
  | some s =>
    cases hrange : SourceRange.ofRaw? o.range with
    | none => exact h
    | some range =>
      have hs := SymbolGraph.symbol?_uri hs
      have hadded := h.addSymbol hs
      have hnode := h.node_addSymbol hs
      have hnear := (SourceRange.ofRaw?_eq_some_iff.1 hrange).isNear (Roles.ofRaw o.roles)
      have hreference := hadded.addEdge (.reference _) hnode (hadded.node_eq hfile) rfl
        (EdgeLabel.near_of_site rfl hnear)
      by_cases hdefinition : (Roles.ofRaw o.roles).isDefinition
      · simp only [hdefinition, if_true]
        exact hreference.setDefinition hnode (hreference.node_eq hfile)
      · simp only [hdefinition]
        exact hreference

theorem addCall (h : Follows start b g) {method : Symbol} {caller : Nat}
    (hcaller : start.nodes[caller]? = some (.symbol method)) {r : Reference}
    (hr : symbol? r.symbol.uri = some r.symbol) (hnear : r.site.IsNear) :
    Follows start (Building.addCall method caller b r) (SymbolGraph.addCall method g r) := by
  unfold Building.addCall SymbolGraph.addCall
  split
  · exact h
  · have hadded := h.addSymbol hr
    have hcallee := h.node_addSymbol hr
    have hforth := hadded.addEdge (.caller r.site) (hadded.node_eq hcaller) hcallee rfl
      (EdgeLabel.near_of_site rfl hnear)
    exact hforth.addEdge (.callee r.site) hcallee (hforth.node_eq hcaller) rfl
      (EdgeLabel.near_of_site rfl hnear)

theorem addCalls (h : Follows start b g) (resolver : SourceResolver) {method : Symbol}
    (hmethod : symbol? method.uri = some method) :
    Follows start (Building.addCalls resolver b method)
      (SymbolGraph.addCalls resolver g method) := by
  unfold Building.addCalls SymbolGraph.addCalls
  rcases hspan : resolver.span method with e | (_ | span)
  · exact h
  · exact h
  · have hadded := h.addSymbol hmethod
    have hsound := hadded.present_sound
    -- the method itself brings no reference, so that both loops run over the same ones
    have hsame : (b.addSymbol method).2.present.referencesInSpan {} span =
        g.referencesInSpan span := by
      rw [hsound.referencesInSpan_graph, hadded.graph_eq,
        SymbolGraph.referencesInSpan_congr (SymbolGraph.links_addSymbol g method)]
    dsimp only
    rw [hsame]
    refine (hadded.again.foldl _ fun r hr b' g' h' => ?_).before hadded.since
    rw [← hsame] at hr
    obtain ⟨hlegible, hnear⟩ := hsound.mem_referencesInSpan hr
    exact h'.addCall (h.node_addSymbol hmethod) hlegible hnear

theorem addDocument (h : Follows start b g) (resolver : Option SourceResolver) (d : Document) :
    Follows start (b.addDocument resolver d) (SymbolGraph.addDocument resolver g d) := by
  have hadded := h.addFile d.path
  have hfile := h.node_addFile d.path
  have hsymbols := hadded.again.foldl d.symbols fun i _ b g h' => h'.addDeclaration hfile i
  have hoccurrences := hsymbols.foldl d.occurrences fun o _ b g h' => h'.addOccurrence hfile o
  have hwritten := hoccurrences.before hadded.since
  cases resolver with
  | none => exact hwritten
  | some resolver =>
    refine hwritten.foldl _ fun method hmethod b g h' => ?_
    exact h'.addCalls resolver
      (SymbolGraph.symbol?_of_mem_declared (List.mem_of_mem_filter hmethod))

theorem empty : Follows {} {} {} where
  sound := List.forall_mem_singleton.2 Arena.sound_empty
  grows := List.pairwise_singleton _ _
  written := .singleton _
  begins := rfl
  since := .refl _
  graph_eq := rfl

theorem ofIndex (resolver : Option SourceResolver) (x : Index) :
    Follows {} (Building.ofIndex resolver x)
    (x.externalSymbols.foldl SymbolGraph.addInformation
      (x.documents.foldl (SymbolGraph.addDocument resolver) {})) := by
  have hdocuments := empty.foldl x.documents fun d _ b g h => h.addDocument resolver d
  exact hdocuments.foldl _ fun i _ b g h => h.addInformation i

end Follows
end Building

namespace Arena
variable {a : Arena}

def build (resolver : Option SourceResolver) (x : Index) : Except GraphError Arena :=
  (Building.ofIndex resolver x).present.verify (x.documents.flatMap SymbolGraph.declared)

theorem eq_of_verify {declared : List Symbol} {a' : Arena} (h : a.verify declared = .ok a') :
    a' = a := by
  simp only [verify] at h
  split at h
  · exact (Except.ok.inj h).symm
  · cases h

theorem build_eq_of_follows {resolver : Option SourceResolver} {x : Index} {start : Arena}
    {g : SymbolGraph} (h : Building.Follows start (.ofIndex resolver x) g)
    (hg : g.verify (x.documents.flatMap SymbolGraph.declared) = .ok g) :
    build resolver x = .ok (Building.ofIndex resolver x).present := by
  have hgraph := h.present_sound.map_verify (x.documents.flatMap SymbolGraph.declared)
  rw [h.graph_eq, hg] at hgraph
  rw [build]
  cases hverify : (Building.ofIndex resolver x).present.verify
    (x.documents.flatMap SymbolGraph.declared) with
  | error e =>
    rw [hverify] at hgraph
    cases hgraph
  | ok a => rw [eq_of_verify hverify]

/-! ### What the stages say -/

/-- An arena whose maps number its nodes, one to one and with nothing left over, whose edges join
nodes of the kinds that their labels ask for, with positions that fit into 31 bits, and which
answers as the graph does. -/
structure Represents (a : Arena) : Prop where
  symbol_agrees : ∀ s i, a.symbolNode? s = some i → ∃ t, t == s ∧ a.nodes[i]? = some (.symbol t)
  file_agrees : ∀ path i, a.fileNode? path = some i → a.nodes[i]? = some (.file path)
  symbol_injective : ∀ s t i, a.symbolNode? s = some i → a.symbolNode? t = some i → s == t
  file_injective : ∀ path other i, a.fileNode? path = some i →
    a.fileNode? other = some i → path = other
  apart : ∀ s path i, a.symbolNode? s = some i → a.fileNode? path ≠ some i
  covered : ∀ i < a.nodes.length, (∃ s, a.symbolNode? s = some i) ∨
    ∃ path, a.fileNode? path = some i
  typed : ∀ e ∈ a.edges, a.IsTyped e
  slots : (a.edges.map (·.slot)).Nodup
  near : ∀ e ∈ a.edges, ∀ site, e.label.site? = some site → site.IsNear
  answers : a.AnswersAs a.graph

theorem Sound.represents (h : a.Sound) : a.Represents where
  symbol_agrees s i hs := h.symbolNode?_eq_some_iff.1 hs
  file_agrees path i hpath := h.fileNode?_eq_some_iff.1 hpath
  symbol_injective s t i hs ht := by
    obtain ⟨u, hus, hu⟩ := h.symbolNode?_eq_some_iff.1 hs
    have hut : u == t := (h.symbolNode?_eq_iff_beq hu).1 ht
    exact BEq.trans (BEq.symm hus) hut
  file_injective path other i hpath hother := by
    have hnode := h.fileNode?_eq_some_iff.1 hpath
    rw [h.fileNode?_eq_some_iff.1 hother] at hnode
    cases hnode
    rfl
  apart s path i hs hpath := by
    obtain ⟨t, -, ht⟩ := h.symbolNode?_eq_some_iff.1 hs
    rw [h.fileNode?_eq_some_iff.1 hpath] at ht
    cases ht
  covered i hi := by
    have hnode := List.getElem?_eq_getElem hi
    cases hn : a.nodes[i] with
    | file path =>
      rw [hn] at hnode
      exact .inr ⟨path, h.fileNode?_eq_some_iff.2 hnode⟩
    | symbol s =>
      rw [hn] at hnode
      exact .inl ⟨s, (h.symbolNode?_eq_iff_beq hnode).2 BEq.rfl⟩
  typed := h.typed
  slots := h.distinct_slots
  near := h.near
  answers := h.answersAs_graph

end Arena

/-- A run that goes from the empty arena to one of the graph `g`, write by write: each stage
represents a graph, and later ones keep what earlier ones have. -/
structure Building.RunsTo (b : Building) (g : SymbolGraph) : Prop where
  begins : b.stages.getLast? = some {}
  written : b.stages.IsChain fun later earlier => earlier.Write later
  represents : ∀ a ∈ b.stages, a.Represents
  grows : b.stages.Pairwise fun later earlier => earlier.Grows later
  ends : b.present.graph = g

/-! ### Places on the command line -/

def Reference.placeInWords (r : Reference) : String :=
  toString (UInt32.ofNat r.site.line + 1) ++ ":" ++ toString (UInt32.ofNat r.site.column + 1)

/-- One more than a line or a column is still a word, so that what is printed is what words give. -/
structure Reference.FitsWords (r : Reference) : Prop where
  line : r.site.line + 1 < UInt32.size
  column : r.site.column + 1 < UInt32.size
  place : CommandLine.place r = r.placeInWords

theorem toNat_ofNat_add_one {n : Nat} (hn : n ≤ 2147483647) :
    (UInt32.ofNat n + 1).toNat = n + 1 := by
  have hword : (UInt32.ofNat n).toNat = n :=
    UInt32.toNat_ofNat_of_lt' (by change n < 4294967296; omega)
  rw [UInt32.toNat_add, hword]
  change (n + 1) % 4294967296 = n + 1
  omega

theorem Site.IsNear.fitsWords {r : Reference} (h : r.site.IsNear) : r.FitsWords := by
  obtain ⟨hline, hcolumn⟩ := h
  refine ⟨?_, ?_, ?_⟩
  · change r.site.line + 1 < 4294967296
    omega
  · change r.site.column + 1 < 4294967296
    omega
  · have hline := toNat_ofNat_add_one hline
    have hcolumn := toNat_ofNat_add_one hcolumn
    have hwords : r.placeInWords = toString (UInt32.ofNat r.site.line + 1).toNat ++ ":" ++
        toString (UInt32.ofNat r.site.column + 1).toNat := rfl
    rw [hwords, hline, hcolumn, CommandLine.place]

namespace SymbolGraph
variable {resolver : Option SourceResolver} {x : Index} {g : SymbolGraph}

theorem isNear_of_mem_occurrencesIn {file : String} {r : Reference}
    (hr : r ∈ occurrencesIn x file) :
    r.site.IsNear := by
  obtain ⟨d, -, hr⟩ := List.mem_flatMap.1 hr
  obtain ⟨o, -, ho⟩ := List.mem_filterMap.1 hr
  unfold referenceOf? at ho
  split at ho
  · rename_i s range hs hrange
    obtain rfl := Option.some.inj ho
    exact (SourceRange.ofRaw?_eq_some_iff.1 hrange).isNear _
  · cases ho

theorem verify_of_build (hg : build resolver x = .ok g) :
    g.verify (x.documents.flatMap declared) = .ok g := by
  have hverify := hg
  rwa [build, ← eq_of_build hg] at hverify

theorem fitsWords_of_references (hg : build resolver x = .ok g) {s : Symbol}
    {found : List (String × List Reference)} (hfound : g.references s = .ok found) :
    ∀ file ∈ found, ∀ r ∈ file.2, r.FitsWords := by
  have hs : g.hasSymbol s := by
    by_contra hnone
    simp only [references, find, hnone, bind, Except.bind] at hfound
    cases hfound
  obtain ⟨found', hfound', -, -, htold⟩ := exists_references hg hs
  obtain rfl : found' = found := Except.ok.inj (hfound'.symm.trans hfound)
  intro file hfile r hr
  obtain ⟨o, ho, -, hline, hcolumn⟩ :=
    ((htold file.1 file.2 hfile).positions r.site.line r.site.column).1 ⟨r, hr, rfl, rfl⟩
  have hnear := isNear_of_mem_occurrencesIn ho
  rw [Site.IsNear, hline, hcolumn] at hnear
  exact Site.IsNear.fitsWords hnear

/-- The graph is built on numbered nodes, and no stage of that loses or mistakes any of them. -/
theorem build_represented {m : Type → Type} [Monad m] {α κ : Type} [Scalar α]
    (resolver : Option SourceResolver) (x : Index) :
    ∃ g, build resolver x = .ok g ∧ Arena.build resolver x =
      .ok (Building.ofIndex resolver x).present ∧
      (Building.ofIndex resolver x).RunsTo g ∧
      ∀ e : SearchEngine m α κ, e.navigator.graph = g → ∀ uri found, e.references uri = .ok found →
        ∀ file ∈ found, ∀ r ∈ file.2, r.FitsWords := by
  obtain ⟨g, hg, -⟩ := exists_build resolver x
  have hrun := Building.Follows.ofIndex resolver x
  rw [← eq_of_build hg] at hrun
  have hrepresents : ∀ a ∈ (Building.ofIndex resolver x).stages, a.Represents :=
    fun a ha => (hrun.sound a ha).represents
  have hverified := Arena.build_eq_of_follows hrun (verify_of_build hg)
  refine ⟨g, hg, hverified, ⟨hrun.begins, hrun.written, hrepresents, hrun.grows, hrun.graph_eq⟩, ?_⟩
  rintro e rfl uri found hfound
  obtain ⟨s, -, hs⟩ := bind_eq_ok_iff.1 hfound
  exact fitsWords_of_references hg (mapError_eq_ok_iff.1 hs)

/-- A symbol with the uri that is also the path of a file. Two files define it, the first at the
last place there is. -/
def twofold : Index where
  documents := [
    { path := "local f"
      occurrences :=
        [{ range := [2147483647, 2147483647, 2147483647], symbol := "local f", roles := 1 }] },
    { path := "b.py", occurrences := [{ range := [0, 4, 5], symbol := "local f", roles := 1 }] }]

def engineOver (g : SymbolGraph) : SearchEngine (StateM Nat) Float Nat :=
  { SearchEngine.listingEngine with navigator := ⟨g,
    SearchEngine.listingEngine.navigator.resolver⟩ }

theorem build_represented_twofold :
    ∃ g a found, build none twofold = .ok g ∧ Arena.build none twofold = .ok a ∧ a.Represents ∧
      a.fileNode? "local f" = some 0 ∧ a.symbolNode? (localSymbol "f") = some 1 ∧
      (∀ f, a.definingFile? f (localSymbol "f") = some "b.py") ∧
      (engineOver g).references "local f" = .ok found ∧
      ∃ file ∈ found, ∃ r ∈ file.2, r.site.line = 2147483647 ∧ r.FitsWords := by
  obtain ⟨g, hg, harena, hrun, hplaces⟩ :=
    build_represented (m := StateM Nat) (α := Float) (κ := Nat) none twofold
  have hrepresents := hrun.represents _ List.mem_cons_self
  have hfile (f : Fallback) :
      (Building.ofIndex none twofold).present.definingFile? f (localSymbol "f") = some "b.py" := by
    rw [hrepresents.answers.definingFile, hrun.ends, eq_of_build hg]
    rfl
  have hknown : g.hasSymbol (localSymbol "f") := by
    rw [eq_of_build hg]
    rfl
  have hmentioned : (⟨localSymbol "f", 2147483647, 2147483647, ⟨1⟩⟩ : Reference) ∈
      occurrencesIn twofold "local f" :=
    List.mem_singleton.2 rfl
  obtain ⟨found, hfound, -, hfiles, htold⟩ := exists_references hg hknown
  obtain ⟨file, hmem, hpath⟩ := List.mem_map.1 ((hfiles "local f").2 ⟨_, hmentioned, BEq.rfl⟩)
  have htells := htold file.1 file.2 hmem
  rw [hpath] at htells
  obtain ⟨r, hr, hline, -⟩ :=
    (htells.positions 2147483647 2147483647).2 ⟨_, hmentioned, BEq.rfl, rfl, rfl⟩
  have hparse : Symbol.parse? "local f" = .ok (localSymbol "f") := by rfl
  have hasked : (engineOver g).references "local f" = .ok found := by
    rw [SearchEngine.references, SearchEngine.withSymbol, hparse]
    exact mapError_eq_ok_iff.2 hfound
  exact ⟨g, _, found, hg, harena, hrepresents, rfl, rfl, hfile, hasked, file, hmem, r, hr, hline,
    hplaces (engineOver g) rfl "local f" found hasked file hmem r hr⟩

end SymbolGraph
end CodeAtlas
