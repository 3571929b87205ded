import CodeAtlas.Graph.Build
import Mathlib.Data.List.Basic

/-! Where the graph of an index says that a symbol is defined: in the file of the last document that
declares it or holds a definition occurrence of it, and nowhere else. -/

namespace CodeAtlas.SymbolGraph

/-! ### The definitions that an index records -/

def definedBy? (o : Occurrence) : Option Symbol :=
  if (Roles.ofRaw o.roles).isDefinition && (SourceRange.ofRaw? o.range).isSome then symbol? o.symbol
  else none

def defined (d : Document) : List Symbol := d.occurrences.filterMap definedBy?

def declares (d : Document) (s : Symbol) : Bool := (declared d).any (· == s)

def defines (d : Document) (s : Symbol) : Bool := (defined d).any (· == s)

def homesIn (d : Document) : List (Symbol × String) := (declared d ++ defined d).map (·, d.path)

def homesOf (x : Index) : List (Symbol × String) := x.documents.flatMap homesIn

def lastHome? (log : List (Symbol × String)) (s : Symbol) : Option String :=
  (log.reverse.find? (·.1 == s)).map (·.2)

theorem lastHome?_append (log more : List (Symbol × String)) (s : Symbol) :
    lastHome? (log ++ more) s = (lastHome? more s).or (lastHome? log s) := by
  simp only [lastHome?, List.reverse_append, List.find?_append]
  cases more.reverse.find? (·.1 == s) <;> rfl

theorem lastHome?_singleton (t : Symbol) (file : String) (s : Symbol) :
    lastHome? [(t, file)] s = if t == s then some file else none := by
  cases h : t == s <;> simp [lastHome?, h]

theorem isSome_lastHome? (log : List (Symbol × String)) (s : Symbol) :
    (lastHome? log s).isSome = log.any (·.1 == s) := by
  rw [lastHome?, Option.isSome_map, List.isSome_find?, List.any_reverse]

theorem exists_mem_of_lastHome? {log : List (Symbol × String)} {s : Symbol} {file : String}
    (h : lastHome? log s = some file) : ∃ e ∈ log, e.1 == s := by
  rw [← List.any_eq_true, ← isSome_lastHome?, h]
  rfl

/-! ### What is picked from the links -/

@[simp] theorem links_addFile (g : SymbolGraph) (path : String) :
    (g.addFile path).links = g.links := by
  unfold addFile
  split <;> rfl

@[simp] theorem links_addSymbol (g : SymbolGraph) (s : Symbol) :
    (g.addSymbol s).links = g.links := by
  unfold addSymbol
  split <;> rfl

def picked {β : Type} (g : SymbolGraph) (pick : Link → Option β) : List β :=
  g.links.filterMap fun (_, l) => pick l

section
variable {β : Type} (pick : Link → Option β) (g : SymbolGraph)

@[simp] theorem picked_addFile (path : String) : (g.addFile path).picked pick = g.picked pick := by
  rw [picked, picked, links_addFile]

@[simp] theorem picked_addSymbol (s : Symbol) : (g.addSymbol s).picked pick = g.picked pick := by
  rw [picked, picked, links_addSymbol]

@[simp] theorem picked_addLink (l : Link) :
    (g.addLink l).picked pick = (pick l).toList ++ g.picked pick := by
  simp only [picked, addLink]
  cases h : pick l <;> simp [h]

theorem picked_setDefinition (hpick : ∀ file s, pick (.contains file s) = none) (s : Symbol)
    (file : String) : (g.setDefinition s file).picked pick = g.picked pick := by
  have hkept : (g.dropDefinitions s).picked pick = g.picked pick := by
    simp only [picked, dropDefinitions, List.filterMap_filter]
    refine List.filterMap_congr ?_
    rintro ⟨slot, l⟩ _
    cases l with
    | contains file t => simp [hpick]
    | _ => rfl
  rw [setDefinition, picked_addLink, hpick, hkept]
  rfl

theorem count_eq_length_picked {p : Link → Bool} (h : ∀ l, p l = (pick l).isSome) :
    g.count p = (g.picked pick).length := by
  rw [picked, List.length_filterMap_eq_countP, List.countP_eq_length_filter, count]
  simp only [h]

end

/-! ### The files that a graph links with a symbol -/

def homes (g : SymbolGraph) (s : Symbol) : List String :=
  g.links.filterMap fun (_, l) => l.definitionOf? s

theorem definitionCount_eq (g : SymbolGraph) (s : Symbol) :
    g.definitionCount s = (g.homes s).length :=
  count_eq_length_picked _ g fun _ => rfl

theorem definingFile?_eq (g : SymbolGraph) (s : Symbol) :
    g.definingFile? s = (g.homes s).head? := by
  rw [homes, List.head?_filterMap, definingFile?]

@[simp] theorem homes_addFile (g : SymbolGraph) (path : String) (s : Symbol) :
    (g.addFile path).homes s = g.homes s := picked_addFile ..

@[simp] theorem homes_addSymbol (g : SymbolGraph) (t s : Symbol) :
    (g.addSymbol t).homes s = g.homes s := picked_addSymbol ..

theorem homes_addLink (g : SymbolGraph) (l : Link) (s : Symbol) :
    (g.addLink l).homes s = (l.definitionOf? s).toList ++ g.homes s := picked_addLink ..

theorem homes_dropDefinitions (g : SymbolGraph) (t s : Symbol) :
    (g.dropDefinitions t).homes s = if t == s then [] else g.homes s := by
  simp only [homes, dropDefinitions, List.filterMap_filter]
  split
  · rename_i hts
    rw [List.filterMap_eq_nil_iff]
    rintro ⟨slot, l⟩ _
    simp [Link.defines, Link.definitionOf?_congr hts]
  · rename_i hts
    -- what is dropped defines `t`, and so never defined `s`
    refine List.filterMap_congr ?_
    rintro ⟨slot, l⟩ _
    by_cases hl : l.defines t
    · simp [hl, Link.definitionOf?_eq_none hts hl]
    · simp [hl]

theorem homes_setDefinition (g : SymbolGraph) (t : Symbol) (file : String) (s : Symbol) :
    (g.setDefinition t file).homes s = if t == s then [file] else g.homes s := by
  rw [setDefinition, homes_addLink, homes_dropDefinitions, Link.definitionOf?]
  cases t == s <;> rfl

/-! ### Known symbols -/

theorem hasSymbol_congr {g : SymbolGraph} {s t : Symbol} (h : s == t) :
    g.hasSymbol s = g.hasSymbol t := by
  simp only [hasSymbol, BEq.congr_right h]

theorem hasSymbol_addSymbol_self (g : SymbolGraph) (s : Symbol) : (g.addSymbol s).hasSymbol s := by
  unfold addSymbol
  split
  · assumption
  · simp [hasSymbol]

theorem hasSymbol_addSymbol {g : SymbolGraph} {s : Symbol} (h : g.hasSymbol s) (t : Symbol) :
    (g.addSymbol t).hasSymbol s := by
  unfold addSymbol
  split
  · exact h
  · simp only [hasSymbol, List.any_append, Bool.or_eq_true]
    exact .inl h

@[simp] theorem hasSymbol_addFile (g : SymbolGraph) (path : String) (s : Symbol) :
    (g.addFile path).hasSymbol s = g.hasSymbol s := by
  unfold addFile
  split <;> rfl

@[simp] theorem hasSymbol_addLink (g : SymbolGraph) (l : Link) (s : Symbol) :
    (g.addLink l).hasSymbol s = g.hasSymbol s := rfl

@[simp] theorem hasSymbol_setDefinition (g : SymbolGraph) (t : Symbol)
    (file : String) (s : Symbol) :
    (g.setDefinition t file).hasSymbol s = g.hasSymbol s := rfl

/-! ### The builder -/

/-- The graph after the definitions of `log`: of each symbol only the last one is left. -/
structure Tracks (g : SymbolGraph) (log : List (Symbol × String)) : Prop where
  homes_eq : ∀ s, g.homes s = (lastHome? log s).toList
  known : ∀ e ∈ log, g.hasSymbol e.1

namespace Tracks
variable {g : SymbolGraph} {log : List (Symbol × String)}

theorem empty : Tracks {} [] := ⟨fun _ => rfl, by simp⟩

theorem addFile (h : Tracks g log) (path : String) : Tracks (g.addFile path) log :=
  ⟨by simpa using h.homes_eq, by simpa using h.known⟩

theorem addSymbol (h : Tracks g log) (s : Symbol) : Tracks (g.addSymbol s) log :=
  ⟨by simpa using h.homes_eq, fun e he => hasSymbol_addSymbol (h.known e he) s⟩

theorem addLink (h : Tracks g log) {l : Link} (hl : ∀ s, l.definitionOf? s = none) :
    Tracks (g.addLink l) log :=
  ⟨fun s => by rw [homes_addLink, hl, h.homes_eq]; rfl, by simpa using h.known⟩

theorem setDefinition (h : Tracks g log) {s : Symbol} (hs : g.hasSymbol s) (file : String) :
    Tracks (g.setDefinition s file) (log ++ [(s, file)]) := by
  constructor
  · intro t
    rw [homes_setDefinition, lastHome?_append, lastHome?_singleton, h.homes_eq]
    cases s == t <;> rfl
  · intro e he
    rw [hasSymbol_setDefinition]
    rcases List.mem_append.1 he with he | he
    · exact h.known e he
    · rw [List.mem_singleton.1 he]
      exact hs

theorem foldl {α : Type} {f : SymbolGraph → α → SymbolGraph} {events : α → List (Symbol × String)}
    (step : ∀ g log a, Tracks g log → Tracks (f g a) (log ++ events a)) (h : Tracks g log)
    (as : List α) : Tracks (as.foldl f g) (log ++ as.flatMap events) := by
  induction as generalizing g log with
  | nil => simpa using h
  | cons a as ih => simpa using ih (step g log a h)

theorem foldl_frame {α : Type} {f : SymbolGraph → α → SymbolGraph}
    (step : ∀ g log a, Tracks g log → Tracks (f g a) log) (h : Tracks g log) (as : List α) :
    Tracks (as.foldl f g) log := by
  induction as generalizing g with
  | nil => exact h
  | cons a as ih => exact ih (step g log a h)

theorem addRelationship (s : Symbol) (g : SymbolGraph) (log : List (Symbol × String))
    (r : Relationship) (h : Tracks g log) : Tracks (SymbolGraph.addRelationship s g r) log := by
  unfold SymbolGraph.addRelationship
  split
  · exact h
  · exact (h.addSymbol _).addLink fun _ => rfl

theorem addInformation (g : SymbolGraph) (log : List (Symbol × String)) (i : SymbolInformation)
    (h : Tracks g log) : Tracks (g.addInformation i) log := by
  unfold SymbolGraph.addInformation
  split
  · exact h
  · exact foldl_frame (addRelationship _) (h.addSymbol _) _

theorem addDeclaration (file : String) (g : SymbolGraph) (log : List (Symbol × String))
    (i : SymbolInformation) (h : Tracks g log) :
    Tracks (SymbolGraph.addDeclaration file g i)
      (log ++ (symbol? i.symbol).toList.map (·, file)) := by
  unfold SymbolGraph.addDeclaration
  split
  · rename_i hs
    simpa [hs] using h
  · rename_i s hs
    rw [hs]
    exact ((addInformation g log i h).addSymbol s).setDefinition (hasSymbol_addSymbol_self _ s) file

theorem addOccurrence (file : String) (g : SymbolGraph) (log : List (Symbol × String))
    (o : Occurrence) (h : Tracks g log) :
    Tracks (SymbolGraph.addOccurrence file g o)
      (log ++ (definedBy? o).toList.map (·, file)) := by
  unfold SymbolGraph.addOccurrence definedBy?
  split
  · rename_i s range hs hrange
    -- a reference is added in any case, and only its roles decide on the definition
    have hadd := (h.addSymbol s).addLink (l := .reference s file
      ⟨range.startLine, range.startColumn, Roles.ofRaw o.roles⟩) fun _ => rfl
    by_cases hdef : (Roles.ofRaw o.roles).isDefinition
    · simpa [hdef, hs, hrange] using hadd.setDefinition (hasSymbol_addSymbol_self g s) file
    · simpa [hdef] using hadd
  · rename_i hnot
    cases hs : symbol? o.symbol with
    | none => simpa using h
    | some s =>
      cases hrange : SourceRange.ofRaw? o.range with
      | none => simpa using h
      | some range => exact absurd hrange (hnot s range hs)

theorem addCall (method : Symbol) (g : SymbolGraph) (log : List (Symbol × String)) (r : Reference)
    (h : Tracks g log) : Tracks (SymbolGraph.addCall method g r) log := by
  unfold SymbolGraph.addCall
  split
  · exact h
  · exact ((h.addSymbol _).addLink fun _ => rfl).addLink fun _ => rfl

theorem addCalls (resolver : SourceResolver) (g : SymbolGraph) (log : List (Symbol × String))
    (method : Symbol) (h : Tracks g log) : Tracks (SymbolGraph.addCalls resolver g method) log := by
  unfold SymbolGraph.addCalls
  split
  · exact foldl_frame (addCall method) (h.addSymbol method) _
  · exact h

theorem homesIn_eq (d : Document) :
    homesIn d = (d.symbols.flatMap fun i => (symbol? i.symbol).toList.map (·, d.path)) ++
      d.occurrences.flatMap fun o => (definedBy? o).toList.map (·, d.path) := by
  simp only [homesIn, declared, defined, List.filterMap_eq_flatMap_toList, List.map_append,
    List.map_flatMap]

theorem addDocument (resolver : Option SourceResolver) (g : SymbolGraph)
    (log : List (Symbol × String)) (d : Document) (h : Tracks g log) :
    Tracks (SymbolGraph.addDocument resolver g d) (log ++ homesIn d) := by
  have hsymbols := foldl (addDeclaration d.path) (h.addFile d.path) d.symbols
  have hoccurrences := foldl (addOccurrence d.path) hsymbols d.occurrences
  rw [List.append_assoc, ← homesIn_eq] at hoccurrences
  cases resolver with
  | none => exact hoccurrences
  | some resolver => exact foldl_frame (addCalls resolver) hoccurrences _

end Tracks

/-! ### The finished graph -/

theorem Tracks.definitionCount_eq {g : SymbolGraph} {log : List (Symbol × String)}
    (h : Tracks g log)
    (s : Symbol) : g.definitionCount s = if log.any (·.1 == s) then 1 else 0 := by
  rw [SymbolGraph.definitionCount_eq, h.homes_eq, ← isSome_lastHome?]
  cases lastHome? log s <;> rfl

theorem Tracks.definingFile?_eq {g : SymbolGraph} {log : List (Symbol × String)} (h : Tracks g log)
    (s : Symbol) : g.definingFile? s = lastHome? log s := by
  rw [SymbolGraph.definingFile?_eq, h.homes_eq]
  cases lastHome? log s <;> rfl

theorem Tracks.hasSymbol_of_lastHome? {g : SymbolGraph} {log : List (Symbol × String)}
    (h : Tracks g log)
    {s : Symbol} {file : String} (hs : lastHome? log s = some file) : g.hasSymbol s := by
  obtain ⟨e, he, hes⟩ := exists_mem_of_lastHome? hs
  rw [← hasSymbol_congr hes]
  exact h.known e he

theorem Tracks.verify_eq_ok {g : SymbolGraph} {log : List (Symbol × String)} (h : Tracks g log)
    {symbols : List Symbol} (hd : ∀ s ∈ symbols, ∃ e ∈ log, e.1 = s) :
    g.verify symbols = .ok g := by
  have hnone : (g.symbols.find? fun s =>
      let n := g.definitionCount s
      1 < n || (n = 0 && symbols.any (· == s))) = none := by
    rw [List.find?_eq_none]
    intro s _
    simp only [h.definitionCount_eq]
    by_cases hlog : log.any (·.1 == s)
    · simp [hlog]
    · have hnot : ¬symbols.any (· == s) := by
        intro hany
        obtain ⟨t, ht, hts⟩ := List.any_eq_true.1 hany
        obtain ⟨e, he, rfl⟩ := hd t ht
        exact hlog (List.any_eq_true.2 ⟨e, he, hts⟩)
      simp [hlog, hnot]
  simp only [verify, hnone]

theorem exists_build (resolver : Option SourceResolver) (x : Index) :
    ∃ g, build resolver x = .ok g ∧ Tracks g (homesOf x) := by
  have hdocuments := Tracks.foldl (Tracks.addDocument resolver) .empty x.documents
  have hexternal := Tracks.foldl_frame Tracks.addInformation hdocuments x.externalSymbols
  refine ⟨_, hexternal.verify_eq_ok ?_, hexternal⟩
  intro s hs
  obtain ⟨d, hd, hs⟩ := List.mem_flatMap.1 hs
  exact ⟨(s, d.path), List.mem_flatMap.2 ⟨d, hd,
    List.mem_map_of_mem (List.mem_append_left _ hs)⟩, rfl⟩

theorem Tracks.of_build {resolver : Option SourceResolver} {x : Index} {g : SymbolGraph}
    (hg : build resolver x = .ok g) : Tracks g (homesOf x) := by
  obtain ⟨g', hg', htracks⟩ := exists_build resolver x
  rw [hg] at hg'
  cases hg'
  exact htracks

theorem any_homesIn (d : Document) (s : Symbol) :
    (homesIn d).any (·.1 == s) = (declares d s || defines d s) := by
  simp [homesIn, declares, defines, Function.comp_def]

theorem any_homesOf (x : Index) (s : Symbol) :
    (homesOf x).any (·.1 == s) = x.documents.any fun d => declares d s || defines d s := by
  simp only [homesOf, List.any_flatMap, any_homesIn]

/-- Building succeeds. A symbol is defined once if some document declares or defines it, in the file
of the last record about it, and not at all otherwise. -/
theorem build_definitions (resolver : Option SourceResolver) (x : Index) :
    ∃ g, build resolver x = .ok g ∧ ∀ s,
      g.definitionCount s =
        (if x.documents.any fun d => declares d s || defines d s then 1 else 0) ∧
      g.definingFile? s = lastHome? (homesOf x) s := by
  obtain ⟨g, hg, htracks⟩ := exists_build resolver x
  refine ⟨g, hg, fun s => ⟨?_, htracks.definingFile?_eq s⟩⟩
  rw [htracks.definitionCount_eq, any_homesOf]

end CodeAtlas.SymbolGraph
