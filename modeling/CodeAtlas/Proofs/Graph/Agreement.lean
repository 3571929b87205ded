import CodeAtlas.Graph.Navigator
import CodeAtlas.Proofs.Graph.Homes
import CodeAtlas.Proofs.Symbol.Legality

/-! The graph and the source index of one index side by side. The graph takes a symbol to the last
document that declares or defines it, the source index to the last one that defines it: the two part
ways where a symbol is declared again after its definition. -/

namespace CodeAtlas

theorem find?_or_eq {α : Type} (p q : α → Bool) (l : List α) :
    (l.find? fun a => p a || q a) = ((l.takeWhile fun a => !q a).find? p).or (l.find? q) := by
  induction l with
  | nil => rfl
  | cons a l ih =>
    cases hq : q a <;> cases hp : p a <;> simp [hq, hp, ih]

theorem map_find?_reverse_cons {α β : Type} (p : α → Bool) (f : α → β) (a : α) (as : List α) :
    (((a :: as).reverse.find? p).map f) =
      ((as.reverse.find? p).map f).or (if p a then some (f a) else none) := by
  rw [List.reverse_cons, List.find?_append, Option.map_or]
  cases hp : p a <;> simp [hp]

theorem lookup_eq_of_forall {κ β γ : Type} [BEq κ] {f : β → γ} {c : γ} {l : List (κ × β)}
    (h : ∀ e ∈ l, f e.2 = c) (k : κ) :
    (l.lookup k).map f = if l.any (k == ·.1) then some c else none := by
  induction l with
  | nil => rfl
  | cons e l ih =>
    have he : f e.2 = c := h e List.mem_cons_self
    have hl := ih fun e' he' => h e' (List.mem_cons_of_mem _ he')
    rw [List.lookup_cons]
    rw [List.any_cons]
    cases k == e.1 with
    | true => exact congrArg some he
    | false => exact hl

namespace SourceIndex

/-! ### Where the source index finds a definition -/

theorem spanOf_path (s : SourceIndex) (site : DefinitionSite) :
    (s.spanOf site).path = site.path := by
  unfold spanOf
  split
  · rfl
  · simp only
    split <;> rfl

theorem path_of_definition? {path : String} {o : Occurrence} {e : String × DefinitionSite}
    (h : definition? path o = some e) : e.2.path = path := by
  unfold definition? at h
  split at h
  · obtain ⟨range, _, rfl⟩ := Option.map_eq_some_iff.1 h
    rfl
  · cases h

def holds (d : Document) (uri : String) : Bool :=
  (d.occurrences.filterMap (definition? d.path)).any (uri == ·.1)

theorem lookup_definitions_of_document (d : Document) (uri : String) :
    ((d.occurrences.filterMap (definition? d.path)).reverse.lookup uri).map (·.path) =
      if holds d uri then some d.path else none := by
  have hpath : ∀ e ∈ (d.occurrences.filterMap (definition? d.path)).reverse, e.2.path = d.path := by
    intro e he
    obtain ⟨o, _, ho⟩ := List.mem_filterMap.1 (List.mem_reverse.1 he)
    exact path_of_definition? ho
  rw [lookup_eq_of_forall hpath, List.any_reverse, holds]

theorem site?_path (textOf : Document → Option String) (x : Index) (uri : String) :
    ((build textOf x).site? uri).map (·.path) =
      (x.documents.reverse.find? (holds · uri)).map (·.path) := by
  simp only [build, site?]
  induction x.documents with
  | nil => rfl
  | cons d ds ih =>
    rw [List.flatMap_cons, List.reverse_append, List.lookup_append, Option.map_or, ih,
      lookup_definitions_of_document, map_find?_reverse_cons]

theorem span?_path (textOf : Document → Option String) (x : Index) (s : Symbol) :
    ((build textOf x).span? s).map (·.path) =
      (x.documents.reverse.find? (holds · s.uri)).map (·.path) := by
  rw [← site?_path textOf, span?, Option.map_map]
  congr 1
  funext site
  exact spanOf_path _ site

end SourceIndex

namespace SymbolGraph
open SourceIndex

/-! ### Where the graph finds it -/

theorem lastHome?_map (symbols : List Symbol) (file : String) (s : Symbol) :
    lastHome? (symbols.map (·, file)) s = if symbols.any (· == s) then some file else none := by
  induction symbols with
  | nil => rfl
  | cons t symbols ih =>
    rw [List.map_cons, ← List.singleton_append, lastHome?_append, lastHome?_singleton, ih,
      List.any_cons]
    cases t == s <;> cases symbols.any (· == s) <;> rfl

theorem lastHome?_homesOf (x : Index) (s : Symbol) :
    lastHome? (homesOf x) s =
      (x.documents.reverse.find? fun d => declares d s || defines d s).map (·.path) := by
  unfold homesOf
  induction x.documents with
  | nil => rfl
  | cons d ds ih =>
    rw [List.flatMap_cons, lastHome?_append, ih, map_find?_reverse_cons, homesIn, lastHome?_map,
      List.any_append]
    rfl

/-! ### Uris and symbols -/

theorem holds_eq_defines {s t : Symbol} (h : symbol? s.uri = some t) (d : Document) :
    holds d s.uri = defines d s := by
  simp only [holds, defines, defined, List.any_filterMap]
  congr 1
  funext o
  unfold definition? definedBy?
  cases (Roles.ofRaw o.roles).isDefinition with
  | false => rfl
  | true =>
    cases SourceRange.ofRaw? o.range with
    | none => rfl
    | some range =>
      -- the source index compares the uri as it stands, the graph the symbol read from it
      simp only [Option.map_some, if_true, Bool.true_and, Option.isSome_some]
      by_cases ho : s.uri = o.symbol
      · have ht : t == s := Symbol.beq_iff.2 (uri_of_symbol? h)
        rw [← ho, h]
        simp [ht]
      · cases hu : symbol? o.symbol with
        | none => simp [ho]
        | some u =>
          have hne : ¬u == s := by
            rw [Symbol.beq_iff, uri_of_symbol? hu]
            exact Ne.symm ho
          simp [ho, hne]

theorem symbol?_uri_of_mem_homesOf {x : Index} {e : Symbol × String} (h : e ∈ homesOf x) :
    symbol? e.1.uri = some e.1 := by
  obtain ⟨d, _, hd⟩ := List.mem_flatMap.1 h
  obtain ⟨t, ht, rfl⟩ := List.mem_map.1 hd
  rcases List.mem_append.1 ht with ht | ht
  · obtain ⟨i, _, hi⟩ := List.mem_filterMap.1 ht
    exact symbol?_uri hi
  · obtain ⟨o, _, ho⟩ := List.mem_filterMap.1 ht
    unfold definedBy? at ho
    split at ho
    · exact symbol?_uri ho
    · cases ho

theorem span?_path_eq {x : Index} {s : Symbol} {file : String}
    (h : lastHome? (homesOf x) s = some file) (textOf : Document → Option String) :
    ((SourceIndex.build textOf x).span? s).map (·.path) =
      (x.documents.reverse.find? (defines · s)).map (·.path) := by
  obtain ⟨e, he, hes⟩ := exists_mem_of_lastHome? h
  have hsymbol := symbol?_uri_of_mem_homesOf he
  rw [Symbol.beq_iff.1 hes] at hsymbol
  rw [span?_path, funext (holds_eq_defines hsymbol)]

/-! ### Where they part ways -/

def redeclaration? (x : Index) (s : Symbol) : Option Document :=
  (x.documents.reverse.takeWhile fun d => !defines d s).find? (declares · s)

theorem lastHome?_eq (x : Index) (s : Symbol) :
    lastHome? (homesOf x) s = ((redeclaration? x s).map (·.path)).or
      ((x.documents.reverse.find? (defines · s)).map (·.path)) := by
  rw [lastHome?_homesOf, find?_or_eq, Option.map_or, redeclaration?]

theorem lastHome?_eq_getD {x : Index} {textOf : Document → Option String} {s : Symbol}
    {span : SourceSpan} (hspan : (SourceIndex.build textOf x).span? s = some span) {file : String}
    (hfile : lastHome? (homesOf x) s = some file) :
    file = ((redeclaration? x s).map (·.path)).getD span.path := by
  have hdefined := span?_path_eq hfile textOf
  rw [hspan, Option.map_some] at hdefined
  rw [lastHome?_eq, ← hdefined, Option.or_some] at hfile
  exact (Option.some.inj hfile).symm

/-- The two tables agree on a symbol unless it is declared again, in another file, after its last
definition occurrence. Its scope is then read with the lines of the definition in the file of the
declaration. -/
theorem span_path_eq_iff {resolver : Option SourceResolver} {x : Index} {g : SymbolGraph}
    (hg : build resolver x = .ok g) {textOf : Document → Option String} {s : Symbol}
    {span : SourceSpan} (hspan : (SourceIndex.build textOf x).resolver.span s = .ok (some span))
    {file : String} (hfile : g.definingFile? s = some file) :
    (span.path = file ↔ ∀ d ∈ redeclaration? x s, d.path = span.path) ∧
      (span.path = file →
        (Navigator.mk g (SourceIndex.build textOf x).resolver).referencesInScope s =
        .ok (g.referencesInSpan span)) ∧
      ∀ d ∈ redeclaration? x s,
        (Navigator.mk g (SourceIndex.build textOf x).resolver).referencesInScope s =
          .ok (g.referencesInSpan { span with path := d.path }) := by
  have htracks := Tracks.of_build hg
  have hhome : lastHome? (homesOf x) s = some file := by rw [← htracks.definingFile?_eq, hfile]
  have hpath := lastHome?_eq_getD (Except.ok.inj hspan) hhome
  have hscope := Navigator.referencesInScope_eq_ok
    (v := ⟨g, (SourceIndex.build textOf x).resolver⟩)
      (htracks.hasSymbol_of_lastHome? hhome) hfile hspan
  cases hr : redeclaration? x s with
  | none =>
    rw [hr] at hpath
    have hfile : file = span.path := hpath
    subst hfile
    exact ⟨by simp, fun _ => hscope, by simp⟩
  | some d =>
    rw [hr] at hpath
    have hfile : file = d.path := hpath
    subst hfile
    refine ⟨by simp [eq_comm], fun hd => ?_, by simpa using hscope⟩
    rw [hscope, ← hd]

def kept : Index where
  documents := [
    { path := "a.py"
      symbols := [{ symbol := "local f" }]
      occurrences := [{ range := [0, 4, 5], symbol := "local f", roles := 1 }] }]

def keptSymbol : Symbol := ⟨"local f", ⟨"local", ⟨"", "", ""⟩, [⟨"f", .localId, none⟩]⟩⟩

def keptGraph : SymbolGraph where
  files := ["a.py"]
  symbols := [keptSymbol]
  links := [(0, .contains "a.py" keptSymbol), (1, .reference keptSymbol "a.py" ⟨0, 4, ⟨1⟩⟩)]

theorem span_path_eq_kept :
    (Navigator.mk keptGraph (SourceIndex.build embedded? kept).resolver).referencesInScope
      keptSymbol =
      .ok (keptGraph.referencesInSpan ⟨"a.py", 0, 4, 0⟩) := by
  have hg : build none kept = .ok keptGraph := by rfl
  have hspan : (SourceIndex.build embedded? kept).resolver.span keptSymbol =
      .ok (some ⟨"a.py", 0, 4, 0⟩) := by rfl
  exact (span_path_eq_iff hg hspan rfl).2.1 rfl

def redeclared (uri : String) : Index where
  documents := [
    { path := "a.py"
      symbols := [{ symbol := uri }]
      occurrences := [{ range := [0, 4, 5], symbol := uri, roles := 1 }] },
    { path := "b.py", symbols := [{ symbol := uri }] }]

def redeclaredGraph (s : Symbol) : SymbolGraph where
  files := ["a.py", "b.py"]
  symbols := [s]
  links := [(0, .contains "b.py" s), (1, .reference s "a.py" ⟨0, 4, ⟨1⟩⟩)]

theorem build_redeclared {s : Symbol} (h : symbol? s.uri = some s) :
    build none (redeclared s.uri) = .ok (redeclaredGraph s) := by
  have hrange : SourceRange.ofRaw? [0, 4, 5] = some ⟨0, 4, 0, 5⟩ := by decide
  have hroles : Roles.ofRaw 1 = ⟨1⟩ := by decide
  have hdef : Roles.isDefinition ⟨1⟩ := by decide
  simp [build, redeclared, addDocument, addDeclaration, addInformation, addOccurrence, declared, h,
    hrange, hroles, hdef, addFile, addSymbol, hasSymbol, setDefinition, dropDefinitions, addLink,
    nextSlot, Link.defines, Link.definitionOf?, verify, definitionCount, count, redeclaredGraph]

theorem span?_redeclared (s : Symbol) :
    (SourceIndex.build embedded? (redeclared s.uri)).span? s = some ⟨"a.py", 0, 4, 0⟩ := by
  have hrange : SourceRange.ofRaw? [0, 4, 5] = some ⟨0, 4, 0, 5⟩ := by decide
  have hdef : (Roles.ofRaw 1).isDefinition := by decide
  have henclosing : SourceRange.ofRaw? [] = none := by decide
  simp [SourceIndex.build, redeclared, span?, site?, spanOf, text?, definition?, embedded?,
    Ordered.ofPairs, hrange, hdef, henclosing]

theorem referencesInSpan_redeclaredGraph (s : Symbol) :
    (redeclaredGraph s).referencesInSpan ⟨"a.py", 0, 4, 0⟩ = [⟨s, 0, 4, ⟨1⟩⟩] ∧
      (redeclaredGraph s).referencesInSpan ⟨"b.py", 0, 4, 0⟩ = [] := by
  constructor <;>
    simp [referencesInSpan, redeclaredGraph, SourceSpan.encloses, Ordered.squeeze,
      Ordered.squeeze.squeezeAfter]

theorem symbol?_ofParts {p : SymbolParts} (h : p.Legal) :
    symbol? (Symbol.ofParts p).uri = some (Symbol.ofParts p) :=
  toOption_eq_some_iff.2 (Symbol.parse?_ofParts h)

/-- The definition stands in one file, and its scope is looked for in the other. -/
theorem exists_span_path_ne :
    ∃ (x : Index) (g : SymbolGraph) (s : Symbol) (span : SourceSpan) (file : String),
      build none x = .ok g ∧ (SourceIndex.build embedded? x).resolver.span s = .ok (some span) ∧
      g.definingFile? s = some file ∧ span.path ≠ file ∧
      (Navigator.mk g (SourceIndex.build embedded? x).resolver).referencesInScope s ≠
        .ok (g.referencesInSpan span) := by
  -- the only reference to the symbol is its own definition, in the file that lost it
  let s := Symbol.ofParts functionParts
  have hspan : (SourceIndex.build embedded? (redeclared s.uri)).resolver.span s =
      .ok (some ⟨"a.py", 0, 4, 0⟩) := congrArg Except.ok (span?_redeclared s)
  have hfile : (redeclaredGraph s).definingFile? s = some "b.py" := by
    simp [definingFile?, redeclaredGraph, Link.definitionOf?]
  have hscope := Navigator.referencesInScope_eq_ok
    (v := ⟨redeclaredGraph s, (SourceIndex.build embedded? (redeclared s.uri)).resolver⟩)
    (by simp [hasSymbol, redeclaredGraph]) hfile hspan
  refine ⟨redeclared s.uri, redeclaredGraph s, s, ⟨"a.py", 0, 4, 0⟩, "b.py",
    build_redeclared (symbol?_ofParts functionParts_legal), hspan, hfile, by decide, ?_⟩
  rw [hscope, (referencesInSpan_redeclaredGraph s).1, (referencesInSpan_redeclaredGraph s).2]
  intro h
  cases h

end SymbolGraph
end CodeAtlas
