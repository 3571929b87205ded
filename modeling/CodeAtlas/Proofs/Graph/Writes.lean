import CodeAtlas.Proofs.Graph.Homes
import Mathlib.Logic.Relation

/-! The builder write by write. A graph grows by files, symbols, relationships, references,
definitions and calls, and what each of these keeps, the finished graph has. -/

namespace CodeAtlas.SymbolGraph

/-! ### What the parts of the builder leave alone -/

theorem foldl_keeps {α β : Type} {f : SymbolGraph → α → SymbolGraph} {part : SymbolGraph → β}
    (step : ∀ g a, part (f g a) = part g) (as : List α) (g : SymbolGraph) :
    part (as.foldl f g) = part g := by
  induction as generalizing g with
  | nil => rfl
  | cons a as ih => rw [List.foldl_cons, ih, step]

@[simp] theorem files_addSymbol (g : SymbolGraph) (s : Symbol) :
    (g.addSymbol s).files = g.files := by
  unfold addSymbol
  split <;> rfl

@[simp] theorem files_addLink (g : SymbolGraph) (l : Link) : (g.addLink l).files = g.files := rfl

@[simp] theorem files_setDefinition (g : SymbolGraph) (s : Symbol) (file : String) :
    (g.setDefinition s file).files = g.files := rfl

theorem mem_files_addFile_self (g : SymbolGraph) (path : String) :
    path ∈ (g.addFile path).files := by
  unfold addFile
  split
  · simpa using ‹g.files.contains path = true›
  · simp

theorem mem_files_addFile {g : SymbolGraph} {file : String} (h : file ∈ g.files) (path : String) :
    file ∈ (g.addFile path).files := by
  unfold addFile
  split
  · exact h
  · exact List.mem_append_left _ h

theorem referencesInSpan_congr {g g' : SymbolGraph} (h : g'.links = g.links) (span : SourceSpan) :
    g'.referencesInSpan span = g.referencesInSpan span := by
  rw [referencesInSpan, referencesInSpan, h]

theorem referencesInSpan_addLink (g : SymbolGraph) {l : Link} (hl : l.isReference = false)
    (span : SourceSpan) : (g.addLink l).referencesInSpan span = g.referencesInSpan span := by
  cases l with
  | reference symbol file site => cases hl
  | _ => rfl

/-! ### Writes -/

/-- One write of the builder, with what it has made sure of before. -/
inductive Write (resolver : Option SourceResolver) (x : Index) : SymbolGraph → SymbolGraph → Prop
  | file (g : SymbolGraph) {d : Document} (hd : d ∈ x.documents) :
    Write resolver x g (g.addFile d.path)
  | symbol (g : SymbolGraph) {uri : String} {s : Symbol} (hs : symbol? uri = some s) :
    Write resolver x g (g.addSymbol s)
  | relationship (g : SymbolGraph) {s target : Symbol} {r : Relationship} (hs : g.hasSymbol s)
    (htarget : symbol? r.symbol = some target) :
    Write resolver x g ((g.addSymbol target).addLink (.relationship s target r.kindBits))
  | reference (g : SymbolGraph) {d : Document} {o : Occurrence} {s : Symbol} {range : SourceRange}
    (hd : d ∈ x.documents) (hfile : d.path ∈ g.files) (ho : o ∈ d.occurrences)
    (hs : symbol? o.symbol = some s) (hrange : SourceRange.ofRaw? o.range = some range) :
    Write resolver x g ((g.addSymbol s).addLink
      (.reference s d.path ⟨range.startLine, range.startColumn, Roles.ofRaw o.roles⟩))
  | definition (g : SymbolGraph) {d : Document} {s : Symbol} (hd : d ∈ x.documents)
    (hfile : d.path ∈ g.files) (hs : g.hasSymbol s) (hrecord : s ∈ declared d ∨ s ∈ defined d) :
    Write resolver x g (g.setDefinition s d.path)
  | call (g : SymbolGraph) {d : Document} {method : Symbol} {sources : SourceResolver}
    {span : SourceSpan}
    {r : Reference} (hd : d ∈ x.documents) (hmethod : method ∈ declared d)
    (hkind : method.kind = .method)
    (hknown : g.hasSymbol method) (hresolver : resolver = some sources)
    (hspan : sources.span method = .ok (some span)) (hr : r ∈ g.referencesInSpan span)
    (hother : ¬r.symbol == method) (hcallable : r.symbol.isCallable) :
    Write resolver x g (((g.addSymbol r.symbol).addLink (.caller method r.symbol r.site)).addLink
      (.callee r.symbol method r.site))

abbrev Writes (resolver : Option SourceResolver) (x : Index) : SymbolGraph → SymbolGraph → Prop :=
  Relation.ReflTransGen (Write resolver x)

variable {resolver : Option SourceResolver} {x : Index} {g g' : SymbolGraph}

theorem Write.hasSymbol (h : Write resolver x g g') {s : Symbol} (hs : g.hasSymbol s) :
    g'.hasSymbol s := by
  cases h with
  | file hd => rwa [hasSymbol_addFile]
  | symbol ht => exact hasSymbol_addSymbol hs _
  | relationship _ _ => exact hasSymbol_addSymbol hs _
  | reference _ _ _ _ _ => exact hasSymbol_addSymbol hs _
  | definition _ _ _ _ => exact hs
  | call _ _ _ _ _ _ _ _ _ => exact hasSymbol_addSymbol hs _

theorem Write.mem_files (h : Write resolver x g g') {file : String} (hfile : file ∈ g.files) :
    file ∈ g'.files := by
  cases h with
  | file hd => exact mem_files_addFile hfile _
  | symbol _ => rwa [files_addSymbol]
  | relationship _ _ => rwa [files_addLink, files_addSymbol]
  | reference _ _ _ _ _ => rwa [files_addLink, files_addSymbol]
  | definition _ _ _ _ => exact hfile
  | call _ _ _ _ _ _ _ _ _ => rwa [files_addLink, files_addLink, files_addSymbol]

theorem Writes.keeps {P : SymbolGraph → Prop} (h : Writes resolver x g g')
    (hstep : ∀ g g', Write resolver x g g' → P g → P g') (hg : P g) : P g' := by
  induction h with
  | refl => exact hg
  | tail _ hwrite ih => exact hstep _ _ hwrite ih

theorem Writes.hasSymbol (h : Writes resolver x g g') {s : Symbol} (hs : g.hasSymbol s) :
    g'.hasSymbol s :=
  h.keeps (fun _ _ hwrite => hwrite.hasSymbol) hs

theorem Writes.mem_files (h : Writes resolver x g g') {file : String} (hfile : file ∈ g.files) :
    file ∈ g'.files :=
  h.keeps (fun _ _ hwrite => hwrite.mem_files) hfile

theorem Writes.foldl {α : Type} {f : SymbolGraph → α → SymbolGraph} {as : List α}
    {Q : SymbolGraph → Prop} (hround : ∀ a ∈ as, ∀ g, Q g → Writes resolver x g (f g a) ∧ Q (f g a))
    (hg : Q g) :
    Writes resolver x g (as.foldl f g) := by
  induction as generalizing g with
  | nil => exact .refl
  | cons a as ih =>
    obtain ⟨hwrites, hkept⟩ := hround a List.mem_cons_self g hg
    exact hwrites.trans (ih (fun b hb => hround b (List.mem_cons_of_mem a hb)) hkept)

/-! ### The builder -/

theorem writes_addRelationship {s : Symbol} (hs : g.hasSymbol s) (r : Relationship) :
    Writes resolver x g (addRelationship s g r) := by
  unfold addRelationship
  split
  · exact .refl
  · rename_i target htarget
    exact .single (.relationship g hs htarget)

theorem writes_addInformation (g : SymbolGraph) (i : SymbolInformation) :
    Writes resolver x g (g.addInformation i) := by
  unfold addInformation
  split
  · exact .refl
  · rename_i s hs
    have hadd : Write resolver x g (g.addSymbol s) := .symbol g hs
    refine .head hadd (Writes.foldl (Q := fun g => g.hasSymbol s) (fun r _ g hg => ?_)
      (hasSymbol_addSymbol_self g s))
    have hwrites : Writes resolver x g (addRelationship s g r) := writes_addRelationship hg r
    exact ⟨hwrites, hwrites.hasSymbol hg⟩

theorem writes_addDeclaration {d : Document} (hd : d ∈ x.documents) {i : SymbolInformation}
    (hi : i ∈ d.symbols) (hfile : d.path ∈ g.files) :
    Writes resolver x g (addDeclaration d.path g i) := by
  unfold addDeclaration
  split
  · exact .refl
  · rename_i s hs
    have hinformation : Writes resolver x g (g.addInformation i) := writes_addInformation g i
    have hsymbol : Writes resolver x g ((g.addInformation i).addSymbol s) :=
      hinformation.tail (.symbol _ hs)
    have hdeclared : s ∈ declared d := List.mem_filterMap.2 ⟨i, hi, hs⟩
    exact hsymbol.tail (.definition _ hd (hsymbol.mem_files hfile) (hasSymbol_addSymbol_self _ s)
      (.inl hdeclared))

theorem writes_addOccurrence {d : Document} (hd : d ∈ x.documents) {o : Occurrence}
    (ho : o ∈ d.occurrences) (hfile : d.path ∈ g.files) :
    Writes resolver x g (addOccurrence d.path g o) := by
  unfold addOccurrence
  split
  · rename_i s range hs hrange
    have hreference : Write resolver x g _ := .reference g hd hfile ho hs hrange
    by_cases hdef : (Roles.ofRaw o.roles).isDefinition
    · have hdefined : s ∈ defined d := by
        refine List.mem_filterMap.2 ⟨o, ho, ?_⟩
        simp [definedBy?, hdef, hrange, hs]
      simp only [hdef, if_true]
      exact .tail (.single hreference) (.definition _ hd (hreference.mem_files hfile)
        (hasSymbol_addSymbol_self g s) (.inr hdefined))
    · simp only [hdef]
      exact .single hreference
  · exact .refl

theorem referencesInSpan_addCall (method : Symbol) (g : SymbolGraph) (r : Reference)
    (span : SourceSpan) :
    (addCall method g r).referencesInSpan span = g.referencesInSpan span := by
  unfold addCall
  split
  · rfl
  · rw [referencesInSpan_addLink _ rfl, referencesInSpan_addLink _ rfl,
      referencesInSpan_congr (links_addSymbol g r.symbol)]

theorem writes_addCalls {d : Document} (hd : d ∈ x.documents) {method : Symbol}
    (hmethod : method ∈ declared d) (hkind : method.kind = .method) {sources : SourceResolver}
    (hresolver : resolver = some sources) (g : SymbolGraph) :
    Writes resolver x g (addCalls sources g method) := by
  unfold addCalls
  split
  · rename_i span hspan
    obtain ⟨i, -, hi⟩ := List.mem_filterMap.1 hmethod
    -- the calls that are added do not change what the span refers to
    let Q (g' : SymbolGraph) : Prop :=
      g'.hasSymbol method ∧ g'.referencesInSpan span = g.referencesInSpan span
    have hstart : Q (g.addSymbol method) :=
      ⟨hasSymbol_addSymbol_self g method, referencesInSpan_congr (links_addSymbol g method) span⟩
    refine .head (.symbol g hi) (Writes.foldl (Q := Q) (fun r hr g' hg' => ?_) hstart)
    have hwrites : Writes resolver x g' (addCall method g' r) := by
      unfold addCall
      split
      · exact .refl
      · rename_i hnot
        rw [Bool.or_eq_true, Bool.not_eq_true', not_or, Bool.not_eq_false] at hnot
        rw [← hg'.2] at hr
        exact .single (.call g' hd hmethod hkind hg'.1 hresolver hspan hr hnot.1 hnot.2)
    exact ⟨hwrites, hwrites.hasSymbol hg'.1, (referencesInSpan_addCall ..).trans hg'.2⟩
  · exact .refl

theorem writes_addDocument {d : Document} (hd : d ∈ x.documents) (g : SymbolGraph) :
    Writes resolver x g (addDocument resolver g d) := by
  let Q (g' : SymbolGraph) : Prop := d.path ∈ g'.files
  have hfile : Writes resolver x g (g.addFile d.path) := .single (.file g hd)
  have hknown : Q (g.addFile d.path) := mem_files_addFile_self g d.path
  have hsymbols : Writes resolver x (g.addFile d.path)
      (d.symbols.foldl (addDeclaration d.path) (g.addFile d.path)) := by
    refine Writes.foldl (Q := Q) (fun i hi g' hg' => ?_) hknown
    have hwrites : Writes resolver x g' (addDeclaration d.path g' i) :=
      writes_addDeclaration hd hi hg'
    exact ⟨hwrites, hwrites.mem_files hg'⟩
  have hoccurrences : Writes resolver x (d.symbols.foldl (addDeclaration d.path) (g.addFile d.path))
      (d.occurrences.foldl (addOccurrence d.path)
        (d.symbols.foldl (addDeclaration d.path) (g.addFile d.path))) := by
    refine Writes.foldl (Q := Q) (fun o ho g' hg' => ?_) (hsymbols.mem_files hknown)
    have hwrites : Writes resolver x g' (addOccurrence d.path g' o) :=
      writes_addOccurrence hd ho hg'
    exact ⟨hwrites, hwrites.mem_files hg'⟩
  have hbefore := (hfile.trans hsymbols).trans hoccurrences
  cases hresolver : resolver with
  | none =>
    rw [hresolver] at hbefore
    exact hbefore
  | some sources =>
    rw [hresolver] at hbefore
    refine hbefore.trans (Writes.foldl (Q := fun _ => True) (fun method hmethod g' _ => ?_) trivial)
    obtain ⟨hdeclared, hkind⟩ := List.mem_filter.1 hmethod
    exact ⟨writes_addCalls hd hdeclared (of_decide_eq_true hkind) rfl g', trivial⟩

theorem eq_of_build (hg : build resolver x = .ok g) :
    g = x.externalSymbols.foldl addInformation (x.documents.foldl (addDocument resolver) {}) := by
  simp only [build, verify] at hg
  split at hg
  · exact (Except.ok.inj hg).symm
  · cases hg

theorem writes_of_build (hg : build resolver x = .ok g) : Writes resolver x {} g := by
  have hdocuments : Writes resolver x {} (x.documents.foldl (addDocument resolver) {}) :=
    Writes.foldl (Q := fun _ => True) (fun d hd g' _ => ⟨writes_addDocument hd g', trivial⟩) trivial
  rw [eq_of_build hg]
  exact hdocuments.trans
    (Writes.foldl (Q := fun _ => True) (fun i _ g' _ => ⟨writes_addInformation g' i,
      trivial⟩) trivial)

theorem of_build {P : SymbolGraph → Prop} (hempty : P {})
    (hstep : ∀ g g', Write resolver x g g' → P g → P g') (hg : build resolver x = .ok g) : P g :=
  (writes_of_build hg).keeps hstep hempty

end CodeAtlas.SymbolGraph
