import CodeAtlas.Proofs.Graph.Lasting
import Mathlib.Data.List.Nodup

/-! What a finished graph knows: the paths of the documents as its files, and as its symbols, each
once, all that the index mentions by a legal uri. Calls add no symbols, since what they link was
mentioned before. -/

namespace CodeAtlas.SymbolGraph

/-! ### Files -/

theorem files_addInformation (g : SymbolGraph) (i : SymbolInformation) :
    (g.addInformation i).files = g.files := by
  have hround (s : Symbol) (g : SymbolGraph) (r : Relationship) : (addRelationship s g r).files =
      g.files := by
    unfold addRelationship
    split <;> simp
  unfold addInformation
  split
  · rfl
  · rename_i s hs
    rw [foldl_keeps (hround s), files_addSymbol]

theorem files_addDeclaration (file : String) (g : SymbolGraph) (i : SymbolInformation) :
    (addDeclaration file g i).files = g.files := by
  unfold addDeclaration
  split
  · rfl
  · rw [files_setDefinition, files_addSymbol, files_addInformation]

theorem files_addOccurrence (file : String) (g : SymbolGraph) (o : Occurrence) :
    (addOccurrence file g o).files = g.files := by
  unfold addOccurrence
  split
  · simp only
    split <;> simp
  · rfl

theorem files_addCalls (resolver : SourceResolver) (g : SymbolGraph) (method : Symbol) :
    (addCalls resolver g method).files = g.files := by
  have hround (g : SymbolGraph) (r : Reference) : (addCall method g r).files = g.files := by
    unfold addCall
    split <;> simp
  unfold addCalls
  split
  · rw [foldl_keeps hround, files_addSymbol]
  · rfl

theorem files_addDocument (resolver : Option SourceResolver) (g : SymbolGraph) (d : Document) :
    (addDocument resolver g d).files = (g.addFile d.path).files := by
  have hwritten : (d.occurrences.foldl (addOccurrence d.path)
      (d.symbols.foldl (addDeclaration d.path) (g.addFile d.path))).files =
        (g.addFile d.path).files := by
    rw [foldl_keeps (files_addOccurrence d.path), foldl_keeps (files_addDeclaration d.path)]
  cases resolver with
  | none => exact hwritten
  | some resolver => exact (foldl_keeps (files_addCalls resolver) _ _).trans hwritten

variable {resolver : Option SourceResolver} {x : Index} {g : SymbolGraph}

theorem files_foldl_addDocument (ds : List Document) (g : SymbolGraph)
    (hpaths : (g.files ++ ds.map (·.path)).Nodup) :
    (ds.foldl (addDocument resolver) g).files = g.files ++ ds.map (·.path) := by
  induction ds generalizing g with
  | nil => exact (List.append_nil _).symm
  | cons d ds ih =>
    have hnew : d.path ∉ g.files := fun hmem =>
      (List.nodup_append.1 hpaths).2.2 d.path hmem d.path List.mem_cons_self rfl
    have hfiles : (addDocument resolver g d).files = g.files ++ [d.path] := by
      rw [files_addDocument, addFile, if_neg (by simpa using hnew)]
    rw [List.map_cons, List.append_cons, ← hfiles] at hpaths ⊢
    exact ih _ hpaths

theorem files_of_build (hg : build resolver x = .ok g) (hpaths : (x.documents.map (·.path)).Nodup) :
    g.files = x.documents.map (·.path) := by
  rw [eq_of_build hg, foldl_keeps files_addInformation]
  exact files_foldl_addDocument x.documents {} hpaths

/-! ### Symbols -/

def informationNames (i : SymbolInformation) : List Symbol :=
  match symbol? i.symbol with
  | none => []
  | some s => s :: i.relationships.filterMap fun r => symbol? r.symbol

def documentNames (d : Document) : List Symbol :=
  d.symbols.flatMap informationNames ++ (referencesOf d).map (·.symbol)

def namesOf (x : Index) : List Symbol :=
  x.documents.flatMap documentNames ++ x.externalSymbols.flatMap informationNames

structure Lists (g : SymbolGraph) (names : List Symbol) : Prop where
  mem : ∀ s ∈ g.symbols, s ∈ names
  known : ∀ s ∈ names, g.hasSymbol s
  distinct : (g.symbols.map (·.uri)).Nodup

namespace Lists
variable {names : List Symbol}

theorem empty : Lists {} [] := ⟨by simp, by simp, List.nodup_nil⟩

theorem congr {g' : SymbolGraph} (h : Lists g names) (hsymbols : g'.symbols = g.symbols) :
    Lists g' names := by
  constructor
  · rw [hsymbols]
    exact h.mem
  · unfold hasSymbol
    rw [hsymbols]
    exact h.known
  · rw [hsymbols]
    exact h.distinct

theorem addSymbol (h : Lists g names) (s : Symbol) : Lists (g.addSymbol s) (names ++ [s]) := by
  refine ⟨fun t ht => ?_, fun t ht => ?_, ?_⟩
  · unfold SymbolGraph.addSymbol at ht
    split at ht
    · exact List.mem_append_left _ (h.mem t ht)
    · exact (List.mem_append.1 ht).elim (fun ht =>
        List.mem_append_left _ (h.mem t ht)) (List.mem_append_right _)
  · rcases List.mem_append.1 ht with ht | ht
    · exact hasSymbol_addSymbol (h.known t ht) s
    · rw [List.mem_singleton.1 ht]
      exact hasSymbol_addSymbol_self g s
  · unfold SymbolGraph.addSymbol
    split
    · exact h.distinct
    · rename_i hnew
      have hnew : s.uri ∉ g.symbols.map (·.uri) := by
        intro hmem
        obtain ⟨t, ht, hts⟩ := List.mem_map.1 hmem
        exact hnew (List.any_eq_true.2 ⟨t, ht, Symbol.beq_iff.2 hts⟩)
      rw [List.map_append, List.map_singleton, ← List.concat_eq_append]
      exact List.Nodup.concat hnew h.distinct

theorem addSymbol_mem (h : Lists g names) {s : Symbol} (hs : s ∈ names) :
    Lists (g.addSymbol s) names := by
  obtain ⟨hmem, hknown, hdistinct⟩ := h.addSymbol s
  refine ⟨fun t ht => ?_, fun t ht => hknown t (List.mem_append_left _ ht), hdistinct⟩
  rcases List.mem_append.1 (hmem t ht) with ht | ht
  · exact ht
  · rwa [List.mem_singleton.1 ht]

theorem foldl {α : Type} {f : SymbolGraph → α → SymbolGraph} {more : α → List Symbol}
    (step : ∀ g names a, Lists g names → Lists (f g a) (names ++ more a)) (h : Lists g names)
    (as : List α) :
    Lists (as.foldl f g) (names ++ as.flatMap more) := by
  induction as generalizing g names with
  | nil => simpa using h
  | cons a as ih => simpa using ih (step g names a h)

theorem addRelationship (s : Symbol) (g : SymbolGraph) (names : List Symbol) (r : Relationship)
    (h : Lists g names) :
    Lists (SymbolGraph.addRelationship s g r) (names ++ (symbol? r.symbol).toList) := by
  unfold SymbolGraph.addRelationship
  cases symbol? r.symbol with
  | none => simpa using h
  | some target => exact (h.addSymbol target).congr rfl

theorem addInformation (g : SymbolGraph) (names : List Symbol) (i : SymbolInformation)
    (h : Lists g names) :
    Lists (g.addInformation i) (names ++ informationNames i) := by
  unfold SymbolGraph.addInformation informationNames
  cases symbol? i.symbol with
  | none => simpa using h
  | some s =>
    simpa [List.filterMap_eq_flatMap_toList] using (h.addSymbol s).foldl
      (addRelationship s) i.relationships

theorem addDeclaration (file : String) (g : SymbolGraph) (names : List Symbol)
    (i : SymbolInformation) (h : Lists g names) :
    Lists (SymbolGraph.addDeclaration file g i) (names ++ informationNames i) := by
  have hinformation := addInformation g names i h
  unfold SymbolGraph.addDeclaration
  cases hs : symbol? i.symbol with
  | none => simpa [informationNames, hs] using h
  | some s =>
    have hmem : s ∈ names ++ informationNames i := by simp [informationNames, hs]
    exact (hinformation.addSymbol_mem hmem).congr rfl

theorem addOccurrence (file : String) (g : SymbolGraph) (names : List Symbol) (o : Occurrence)
    (h : Lists g names) :
    Lists (SymbolGraph.addOccurrence file g o)
      (names ++ (referenceOf? o).toList.map (·.symbol)) := by
  unfold SymbolGraph.addOccurrence referenceOf?
  cases symbol? o.symbol with
  | none => simpa using h
  | some s =>
    cases SourceRange.ofRaw? o.range with
    | none => simpa using h
    | some range =>
      simp only
      split
      · exact (h.addSymbol s).congr rfl
      · exact (h.addSymbol s).congr rfl

theorem addCalls (resolver : SourceResolver) (h : Lists g names) {method : Symbol}
    (hmethod : method ∈ names) (hrecorded : ∀ file, ∀ r ∈ g.recordedIn file, r.symbol ∈ names) :
    Lists (SymbolGraph.addCalls resolver g method) names := by
  unfold SymbolGraph.addCalls
  split
  · rename_i span hspan
    have hrefs : ∀ r ∈ g.referencesInSpan span, r.symbol ∈ names := by
      intro r hr
      rw [referencesInSpan_eq_enclosed] at hr
      exact hrecorded span.path r (mem_of_mem_enclosed hr)
    refine List.foldlRecOn (motive := fun g => Lists g names) _ _ (h.addSymbol_mem hmethod)
      fun g hg r hr => ?_
    unfold addCall
    split
    · exact hg
    · exact (hg.addSymbol_mem (hrefs r hr)).congr rfl
  · exact h

theorem foldl_addCalls (resolver : SourceResolver) (h : Lists g names) {methods : List Symbol}
    (hmethods : ∀ s ∈ methods, s ∈ names)
    (hrecorded : ∀ file, ∀ r ∈ g.recordedIn file, r.symbol ∈ names) :
    Lists (methods.foldl (SymbolGraph.addCalls resolver) g) names := by
  induction methods generalizing g with
  | nil => exact h
  | cons method methods ih =>
    have hrest : ∀ s ∈ methods, s ∈ names := fun s hs => hmethods s (List.mem_cons_of_mem method hs)
    refine ih (h.addCalls resolver (hmethods method List.mem_cons_self) hrecorded) hrest ?_
    rwa [recordedIn_addCalls]

theorem addDocument (resolver : Option SourceResolver) {before : List Document}
    (h : Lists g (before.flatMap documentNames)) (hg : g.recordedIn = recordedBy before)
    (d : Document) :
    Lists (SymbolGraph.addDocument resolver g d) ((before ++ [d]).flatMap documentNames) := by
  let written := d.occurrences.foldl (SymbolGraph.addOccurrence d.path)
    (d.symbols.foldl (SymbolGraph.addDeclaration d.path) (g.addFile d.path))
  have hfile : Lists (g.addFile d.path) (before.flatMap documentNames) := by
    refine h.congr ?_
    unfold addFile
    split <;> rfl
  have hwritten : Lists written ((before ++ [d]).flatMap documentNames) := by
    have hfolds :=
      (hfile.foldl (addDeclaration d.path) d.symbols).foldl (addOccurrence d.path) d.occurrences
    rw [← List.map_flatMap, ← List.filterMap_eq_flatMap_toList, List.append_assoc] at hfolds
    rwa [List.flatMap_append, List.flatMap_singleton]
  cases resolver with
  | none => exact hwritten
  | some resolver =>
    have hrecorded : written.recordedIn = recordedBy (before ++ [d]) :=
      (addDocument_lasting none hg d).2
    refine hwritten.foldl_addCalls resolver (fun s hs => ?_) fun file r hr => ?_
    · obtain ⟨i, hi, hs⟩ := List.mem_filterMap.1 (List.mem_of_mem_filter hs)
      have hname : s ∈ informationNames i := by simp [informationNames, hs]
      simp only [documentNames, List.mem_flatMap, List.mem_append, List.mem_singleton]
      exact ⟨d, .inr rfl, .inl ⟨i, hi, hname⟩⟩
    · rw [hrecorded] at hr
      obtain ⟨e, he, hr⟩ := List.mem_flatMap.1 (List.mem_reverse.1 hr)
      exact List.mem_flatMap.2 ⟨e, List.mem_of_mem_filter he,
        List.mem_append_right _ (List.mem_map_of_mem hr)⟩

theorem of_build (hg : build resolver x = .ok g) : Lists g (namesOf x) := by
  have hdocuments : ∀ (ds before : List Document) (g : SymbolGraph), g.recordedIn =
      recordedBy before →
      Lists g (before.flatMap documentNames) →
      Lists (ds.foldl (SymbolGraph.addDocument resolver) g)
        ((before ++ ds).flatMap documentNames) := by
    intro ds
    induction ds with
    | nil =>
      intro before g _ h
      rwa [List.append_nil]
    | cons d ds ih =>
      intro before g hg h
      rw [← List.singleton_append, ← List.append_assoc]
      exact ih _ _ (addDocument_lasting resolver hg d).2 (h.addDocument resolver hg d)
  rw [eq_of_build hg]
  exact (hdocuments x.documents [] {} rfl empty).foldl addInformation x.externalSymbols

end Lists

theorem symbol?_of_mem_informationNames {i : SymbolInformation} {s : Symbol}
    (hs : s ∈ informationNames i) :
    symbol? s.uri = some s := by
  unfold informationNames at hs
  split at hs
  · cases hs
  · rename_i t ht
    rcases List.mem_cons.1 hs with rfl | hs
    · exact symbol?_uri ht
    · obtain ⟨r, -, hr⟩ := List.mem_filterMap.1 hs
      exact symbol?_uri hr

theorem symbol?_of_mem_namesOf {s : Symbol} (hs : s ∈ namesOf x) : symbol? s.uri = some s := by
  rcases List.mem_append.1 hs with hs | hs
  · obtain ⟨d, -, hs⟩ := List.mem_flatMap.1 hs
    rcases List.mem_append.1 hs with hs | hs
    · obtain ⟨i, -, hs⟩ := List.mem_flatMap.1 hs
      exact symbol?_of_mem_informationNames hs
    · obtain ⟨r, hr, rfl⟩ := List.mem_map.1 hs
      exact symbol?_of_mem_referencesOf hr
  · obtain ⟨i, -, hs⟩ := List.mem_flatMap.1 hs
    exact symbol?_of_mem_informationNames hs

theorem symbol?_of_mem_symbols (hg : build resolver x = .ok g) {s : Symbol} (hs : s ∈ g.symbols) :
    symbol? s.uri = some s :=
  symbol?_of_mem_namesOf ((Lists.of_build hg).mem s hs)

theorem mem_symbols_iff (hg : build resolver x = .ok g) {s : Symbol} :
    s ∈ g.symbols ↔ s ∈ namesOf x := by
  have hlists := Lists.of_build hg
  refine ⟨hlists.mem s, fun hs => ?_⟩
  obtain ⟨t, ht, hts⟩ := List.any_eq_true.1 (hlists.known s hs)
  rwa [← eq_of_beq_of_symbol? (symbol?_of_mem_symbols hg ht) (symbol?_of_mem_namesOf hs) hts]

theorem nodup_symbols (hg : build resolver x = .ok g) :
    g.symbols.Nodup := (Lists.of_build hg).distinct.of_map _

end CodeAtlas.SymbolGraph
