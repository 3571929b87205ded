import CodeAtlas.Index.Load
import CodeAtlas.Proofs.Graph.Writes

/-! Items that are not well formed leave no trace. Without them an index has the same graph, and a
source index that answers the same for every symbol that has a legal uri; and a graph knows no other
symbols. -/

namespace CodeAtlas

def isLegalUri (uri : String) : Bool := (SymbolGraph.symbol? uri).isSome

theorem isLegalUri_of_symbol? {uri : String} {s : Symbol} (h : SymbolGraph.symbol? uri = some s) :
    isLegalUri s.uri := by
  rw [isLegalUri, SymbolGraph.symbol?_uri h]
  rfl

def Link.mentioned? : Link → Option Symbol
  | .reference symbol _ _ => some symbol
  | _ => none

/-! ### Clean indexes -/

def Occurrence.isSound (o : Occurrence) : Bool :=
  isLegalUri o.symbol && (SourceRange.ofRaw? o.range).isSome

def SymbolInformation.clean (i : SymbolInformation) : SymbolInformation :=
  { i with relationships := i.relationships.filter fun r => isLegalUri r.symbol }

def cleanInformations (is : List SymbolInformation) : List SymbolInformation :=
  (is.filter fun i => isLegalUri i.symbol).map SymbolInformation.clean

def Document.clean (d : Document) : Document :=
  { d with
    symbols := cleanInformations d.symbols
    occurrences := d.occurrences.filter Occurrence.isSound }

def Index.clean (x : Index) : Index :=
  { x with
    documents := x.documents.map Document.clean
    externalSymbols := cleanInformations x.externalSymbols }

theorem foldl_filter_eq {α β : Type} {f : β → α → β} {keep : α → Bool}
    (hskip : ∀ a, keep a = false → ∀ b, f b a = b) (as : List α) (b : β) :
    (as.filter keep).foldl f b = as.foldl f b := by
  rw [List.foldl_filter]
  congr 1
  funext b a
  cases ha : keep a with
  | true => rfl
  | false => exact (hskip a ha b).symm

theorem foldl_cleanInformations {β : Type} {f : β → SymbolInformation → β}
    (hskip : ∀ i, isLegalUri i.symbol = false → ∀ b, f b i = b)
    (hclean : ∀ b i, f b i.clean = f b i)
    (is : List SymbolInformation) (b : β) : (cleanInformations is).foldl f b = is.foldl f b := by
  rw [cleanInformations, List.foldl_map]
  simp only [hclean]
  exact foldl_filter_eq hskip is b

namespace SymbolGraph

/-! ### The graph of a clean index -/

theorem symbol?_eq_none {uri : String} (h : isLegalUri uri = false) : symbol? uri = none :=
  Option.isNone_iff_eq_none.1 (Option.isSome_eq_false_iff.1 h)

theorem addInformation_of_illegal (i : SymbolInformation) (h : isLegalUri i.symbol = false)
    (g : SymbolGraph) : g.addInformation i = g := by
  rw [addInformation, symbol?_eq_none h]

theorem addInformation_clean (g : SymbolGraph) (i : SymbolInformation) :
    g.addInformation i.clean = g.addInformation i := by
  have hskip (s : Symbol) (r : Relationship) (h : isLegalUri r.symbol = false) (g : SymbolGraph) :
      addRelationship s g r = g := by
    rw [addRelationship, symbol?_eq_none h]
  unfold addInformation SymbolInformation.clean
  cases symbol? i.symbol with
  | none => rfl
  | some s => exact foldl_filter_eq (hskip s) i.relationships (g.addSymbol s)

theorem addDeclaration_of_illegal (file : String) (i : SymbolInformation)
    (h : isLegalUri i.symbol = false) (g : SymbolGraph) : addDeclaration file g i = g := by
  rw [addDeclaration, symbol?_eq_none h]

theorem addDeclaration_clean (file : String) (g : SymbolGraph) (i : SymbolInformation) :
    addDeclaration file g i.clean = addDeclaration file g i := by
  unfold addDeclaration
  rw [addInformation_clean]
  rfl

theorem addOccurrence_of_not_sound (file : String) (o : Occurrence) (h : o.isSound = false)
    (g : SymbolGraph) : addOccurrence file g o = g := by
  rcases Bool.and_eq_false_iff.1 h with hs | hrange
  · rw [addOccurrence, symbol?_eq_none hs]
  · rw [Option.isSome_eq_false_iff, Option.isNone_iff_eq_none] at hrange
    rw [addOccurrence, hrange]
    cases symbol? o.symbol <;> rfl

theorem declared_clean (d : Document) : declared d.clean = declared d := by
  have hlegal (i : SymbolInformation) :
      (if isLegalUri i.symbol = true then symbol? i.symbol else none) = symbol? i.symbol := by
    cases h : isLegalUri i.symbol with
    | true => rfl
    | false => exact (symbol?_eq_none h).symm
  simp only [declared, Document.clean, cleanInformations, List.filterMap_map, List.filterMap_filter,
    Function.comp_def, SymbolInformation.clean, hlegal]

theorem addDocument_clean (resolver : Option SourceResolver) (g : SymbolGraph) (d : Document) :
    addDocument resolver g d.clean = addDocument resolver g d := by
  have hsymbols (g : SymbolGraph) :
      d.clean.symbols.foldl (addDeclaration d.path) g = d.symbols.foldl (addDeclaration d.path) g :=
    foldl_cleanInformations (addDeclaration_of_illegal d.path)
      (addDeclaration_clean d.path) d.symbols g
  have hoccurrences (g : SymbolGraph) :
      d.clean.occurrences.foldl (addOccurrence d.path) g =
        d.occurrences.foldl (addOccurrence d.path) g :=
    foldl_filter_eq (addOccurrence_of_not_sound d.path) d.occurrences g
  have hpath : d.clean.path = d.path := rfl
  simp only [addDocument, hpath, hsymbols, hoccurrences, declared_clean]

theorem build_clean (resolver : Option SourceResolver) (x : Index) :
    build resolver x.clean = build resolver x := by
  have hexternal (g : SymbolGraph) :
      x.clean.externalSymbols.foldl addInformation g = x.externalSymbols.foldl addInformation g :=
    foldl_cleanInformations addInformation_of_illegal addInformation_clean x.externalSymbols g
  have hdocuments : x.clean.documents = x.documents.map Document.clean := rfl
  simp only [build, hexternal]
  simp only [hdocuments, List.foldl_map, addDocument_clean, List.flatMap_map, declared_clean]

end SymbolGraph

/-! ### The sources of a clean index -/

namespace SourceIndex

def legal (t : SourceIndex) : SourceIndex :=
  { t with definitions := t.definitions.filter fun e => isLegalUri e.1 }

theorem filterMap_definition?_clean (d : Document) :
    d.clean.occurrences.filterMap (definition? d.path) =
      (d.occurrences.filterMap (definition? d.path)).filter fun e => isLegalUri e.1 := by
  rw [List.filter_filterMap, Document.clean, List.filterMap_filter]
  refine List.filterMap_congr fun o _ => ?_
  -- an occurrence of a range that is not valid records no definition in any case
  unfold definition? Occurrence.isSound
  cases SourceRange.ofRaw? o.range with
  | none => simp
  | some range =>
    cases hlegal : isLegalUri o.symbol <;> cases (Roles.ofRaw o.roles).isDefinition <;>
      simp [hlegal, Option.filter]

theorem build_clean {textOf : Document → Option String} (h : ∀ d, textOf d.clean = textOf d)
    (x : Index) : build textOf x.clean = (build textOf x).legal := by
  have hpath (d : Document) : d.clean.path = d.path := rfl
  simp only [build, legal, Index.clean, List.filterMap_map, List.flatMap_map, Function.comp_def, h,
    hpath, filterMap_definition?_clean, List.filter_reverse, List.filter_flatMap]

section
variable {m : Type → Type} [Monad m] [MonadFiles m]

theorem readTexts_clean (root : String) (ds : List Document) :
    (readTexts root (ds.map Document.clean) : m _) = readTexts root ds := by
  induction ds with
  | nil => rfl
  | cons d ds ih =>
    rw [List.map_cons, readTexts, readTexts, ih]
    rfl

theorem load_clean [LawfulMonad m] (root : Option String) (x : Index) :
    (load root x.clean : m SourceIndex) = legal <$> load root x := by
  have htexts (root : String) :
      (readTexts root x.clean.documents : m _) = readTexts root x.documents :=
    readTexts_clean root x.documents
  have hbuild (texts : List (String × String)) :
      build (fun d => (embedded? d).or (texts.lookup d.path)) x.clean =
        (build (fun d => (embedded? d).or (texts.lookup d.path)) x).legal :=
    build_clean (fun _ => rfl) x
  cases root <;> simp [load, htexts, hbuild]

end

theorem span?_legal (t : SourceIndex) {s : Symbol} (hs : isLegalUri s.uri) :
    t.legal.span? s = t.span? s := by
  have hsite : t.legal.site? s.uri = t.site? s.uri := by
    rw [site?, legal, Ordered.lookup_filter, if_pos hs]
    rfl
  rw [span?, span?, hsite]
  rfl

theorem source?_legal (t : SourceIndex) {s : Symbol} (hs : isLegalUri s.uri) :
    t.legal.source? s = t.source? s := by
  rw [source?, source?, span?_legal t hs]
  rfl

end SourceIndex

/-- Two resolvers that answer the same for every symbol that has a legal uri. -/
structure SourceResolver.Agrees (r r' : SourceResolver) : Prop where
  span_eq : ∀ s : Symbol, isLegalUri s.uri → r'.span s = r.span s
  source_eq : ∀ s : Symbol, isLegalUri s.uri → r'.source s = r.source s
  modules_eq : r'.modules = r.modules

theorem SourceIndex.agrees_legal (t : SourceIndex) : t.resolver.Agrees t.legal.resolver where
  span_eq _ hs := congrArg Except.ok (t.span?_legal hs)
  source_eq _ hs := congrArg Except.ok (t.source?_legal hs)
  modules_eq := rfl

namespace SymbolGraph

theorem build_congr {r r' : SourceResolver} (h : r.Agrees r') (x : Index) :
    build (some r') x = build (some r) x := by
  have hdocument : addDocument (some r') = addDocument (some r) := by
    funext g d
    unfold addDocument
    -- the resolver is only asked about methods that the document declares
    refine List.foldl_ext _ _ _ fun g method hmethod => ?_
    obtain ⟨i, -, hi⟩ := List.mem_filterMap.1 (List.mem_of_mem_filter hmethod)
    rw [addCalls, addCalls, h.span_eq method (isLegalUri_of_symbol? hi)]
  simp only [build, hdocument]

/-! ### The symbols of a graph -/

theorem mem_mentioned_of_mem_referencesInSpan {g : SymbolGraph} {span : SourceSpan} {r : Reference}
    (hr : r ∈ g.referencesInSpan span) : r.symbol ∈ g.picked Link.mentioned? := by
  have hsorted := (Ordered.squeeze_sublist _).subset hr
  obtain ⟨⟨slot, l⟩, hl, hfound⟩ := List.mem_filterMap.1 (List.mem_mergeSort.1 hsorted)
  refine List.mem_filterMap.2 ⟨(slot, l), hl, ?_⟩
  cases l with
  | reference symbol file site =>
    obtain ⟨-, hsome⟩ := Option.ite_none_right_eq_some.1 hfound
    cases hsome
    rfl
  | _ => cases hfound

/-- All symbols have legal uris; those that references mention have to be followed as well, since a
call takes its symbol from there. -/
structure Spelled (g : SymbolGraph) : Prop where
  symbols : ∀ s ∈ g.symbols, isLegalUri s.uri
  mentioned : ∀ s ∈ g.picked Link.mentioned?, isLegalUri s.uri

variable {resolver : Option SourceResolver} {x : Index} {g g' : SymbolGraph}

theorem Spelled.addSymbol (h : Spelled g) {s : Symbol} (hs : isLegalUri s.uri) :
    Spelled (g.addSymbol s) := by
  refine ⟨fun t ht => ?_, by simpa using h.mentioned⟩
  unfold SymbolGraph.addSymbol at ht
  split at ht
  · exact h.symbols t ht
  · rcases List.mem_append.1 ht with ht | ht
    · exact h.symbols t ht
    · rwa [List.mem_singleton.1 ht]

theorem Spelled.addLink (h : Spelled g) {l : Link} (hl : ∀ s ∈ l.mentioned?, isLegalUri s.uri) :
    Spelled (g.addLink l) := by
  refine ⟨h.symbols, fun s hs => ?_⟩
  rw [picked_addLink, List.mem_append, Option.mem_toList] at hs
  exact hs.elim (hl s) (h.mentioned s)

theorem Write.spelled (h : Write resolver x g g') (hg : Spelled g) : Spelled g' := by
  cases h with
  | file hd =>
    refine ⟨?_, by simpa using hg.mentioned⟩
    unfold addFile
    split
    · exact hg.symbols
    · exact hg.symbols
  | symbol hs => exact hg.addSymbol (isLegalUri_of_symbol? hs)
  | relationship hs htarget =>
    have hlegal := isLegalUri_of_symbol? htarget
    exact (hg.addSymbol hlegal).addLink (by simp [Link.mentioned?])
  | reference hd hfile ho hs hrange =>
    have hlegal := isLegalUri_of_symbol? hs
    refine (hg.addSymbol hlegal).addLink fun t ht => ?_
    rwa [← Option.some.inj ht]
  | definition hd hfile hs hrecord =>
    refine ⟨hg.symbols, ?_⟩
    rw [picked_setDefinition _ _ (fun _ _ => rfl)]
    exact hg.mentioned
  | call hd hmethod hkind hknown hresolver hspan hr hother hcallable =>
    have hlegal := hg.mentioned _ (mem_mentioned_of_mem_referencesInSpan hr)
    exact ((hg.addSymbol hlegal).addLink (by simp [Link.mentioned?])).addLink
      (by simp [Link.mentioned?])

theorem Spelled.of_build (hg : build resolver x = .ok g) : Spelled g :=
  SymbolGraph.of_build ⟨by simp, by simp [picked]⟩ (fun _ _ => Write.spelled) hg

theorem Spelled.isLegalUri (h : Spelled g) {s : Symbol} (hs : g.hasSymbol s) :
    isLegalUri s.uri := by
  obtain ⟨t, ht, hts⟩ := List.any_eq_true.1 hs
  rw [← Symbol.beq_iff.1 hts]
  exact h.symbols t ht

end SymbolGraph
end CodeAtlas
