import CodeAtlas.Proofs.Graph.References

/-! The references in the scope of a symbol, and its dependencies. In the file that defines the
symbol its span encloses some of the references, and all of these are told, in order; the
dependencies are their symbols. -/

namespace CodeAtlas
namespace SymbolGraph

/-- What is told of the references inside a span: every symbol at every position of such a
reference, ascending, with the roles of the last one there. -/
structure TellsScope (recorded : List Reference) (span : SourceSpan) (told : List Reference) :
    Prop where
  ascending : told.Pairwise Reference.Before
  triples : ∀ o, (∃ r ∈ told, r == o) ↔ (∃ r ∈ recorded, r == o) ∧
    span.encloses o.site.line o.site.column
  roles : ∀ r ∈ told, LastRoles recorded r

/-- The symbols of references, less one symbol: each once, in the order of their first
references. -/
structure ListsSymbols (told : List Reference) (s : Symbol) (symbols : List Symbol) : Prop where
  distinct : symbols.Pairwise fun a b => ¬a == b
  mem_iff : ∀ t, (∃ u ∈ symbols, u == t) ↔ ¬t == s ∧ ∃ r ∈ told, r.symbol == t
  ordered : symbols.Pairwise fun a b => ∃ r ∈ told, r.symbol == a ∧
    ∀ r' ∈ told, r'.symbol == b → r.Before r'

theorem encloses_congr {span : SourceSpan} {a b : Reference} (h : a == b) :
    span.encloses a.site.line a.site.column = span.encloses b.site.line b.site.column := by
  obtain ⟨-, hline, hcolumn⟩ := Reference.beq_iff.1 h
  rw [hline, hcolumn]

theorem mem_enclosed_iff {recorded : List Reference} {span : SourceSpan} {r : Reference} :
    r ∈ enclosed recorded span ↔
      span.encloses r.site.line r.site.column ∧ recorded.find? (· == r) = some r := by
  have harranges :=
    Reference.arranges_le (recorded.filter fun r => span.encloses r.site.line r.site.column)
  rw [enclosed, Ordered.mem_squeeze_mergeSort_iff harranges, List.find?_filter]
  cases hinside : span.encloses r.site.line r.site.column with
  | false =>
    have hnone : (recorded.find? fun o => span.encloses o.site.line o.site.column && o == r) =
        none := by
      rw [List.find?_eq_none]
      intro o _ ho
      obtain ⟨henclosed, hor⟩ := Bool.and_eq_true_iff.1 ho
      rw [encloses_congr hor, hinside] at henclosed
      cases henclosed
    simp [hnone]
  | true =>
    have hsame : ∀ o : Reference, (span.encloses o.site.line o.site.column && o == r) =
        (o == r) := by
      intro o
      cases hor : o == r with
      | false => exact Bool.and_false _
      | true => rw [encloses_congr hor, hinside, Bool.and_self]
    simp [hsame]

theorem tellsScope (recorded : List Reference) (span : SourceSpan) :
    TellsScope recorded span (enclosed recorded.reverse span) := by
  have harranges := Reference.arranges_le
    (recorded.reverse.filter fun r => span.encloses r.site.line r.site.column)
  refine ⟨?_, fun o => ?_, fun r hr => ?_⟩
  · exact (Ordered.pairwise_squeeze_mergeSort harranges).imp Reference.before_of_le
  · rw [← List.any_eq_true, enclosed, Ordered.any_squeeze_mergeSort harranges, List.any_filter,
      List.any_reverse, List.any_eq_true]
    constructor
    · rintro ⟨r, hr, hro⟩
      obtain ⟨henclosed, hro⟩ := Bool.and_eq_true_iff.1 hro
      exact ⟨⟨r, hr, hro⟩, encloses_congr hro ▸ henclosed⟩
    · rintro ⟨⟨r, hr, hro⟩, henclosed⟩
      exact ⟨r, hr, Bool.and_eq_true_iff.2 ⟨(encloses_congr hro).trans henclosed, hro⟩⟩
  · exact lastRoles_iff.2 ⟨r, (mem_enclosed_iff.1 hr).2, rfl⟩

theorem pairwise_eraseDups_symbols {told : List Reference} (h : told.Pairwise Reference.Before) :
    (told.map (·.symbol)).eraseDups.Pairwise fun a b =>
      ∃ r ∈ told, r.symbol == a ∧ ∀ r' ∈ told, r'.symbol == b → r.Before r' := by
  refine (pairwise_eraseDups (told.map (·.symbol))).imp fun {a b} hab => ?_
  obtain ⟨earlier, later, hsplit, hfirst⟩ := hab
  obtain ⟨before, rest, rfl, rfl, hrest⟩ := List.map_eq_append_iff.1 hsplit
  obtain ⟨r, after, rfl, rfl, rfl⟩ := List.map_eq_cons_iff.1 hrest
  refine ⟨r, by simp, BEq.rfl, fun r' hr' hb => ?_⟩
  have hafter : r' ∈ after := by
    rcases List.mem_append.1 hr' with hr' | hr'
    · exact absurd hb (hfirst r'.symbol (by simp [List.mem_map_of_mem hr']))
    · rcases List.mem_cons.1 hr' with rfl | hr'
      · exact absurd hb (hfirst r'.symbol (by simp))
      · exact hr'
  exact (List.pairwise_cons.1 (List.pairwise_append.1 h).2.1).1 r' hafter

theorem exists_mem_eraseDups_iff {told : List Reference} {s t : Symbol} :
    (∃ u ∈ ((told.map (·.symbol)).filter fun u => !(u == s)).eraseDups, u == t) ↔
      ¬t == s ∧ ∃ r ∈ told, r.symbol == t := by
  rw [← List.any_eq_true, any_eraseDups, List.any_filter, List.any_map, List.any_eq_true]
  constructor
  · rintro ⟨r, hr, hrt⟩
    obtain ⟨hother, hrt⟩ : ¬r.symbol == s ∧ r.symbol == t := by simpa using hrt
    exact ⟨fun hts => hother (BEq.trans hrt hts), r, hr, hrt⟩
  · rintro ⟨hts, r, hr, hrt⟩
    have hother : ¬r.symbol == s := fun hs => hts (BEq.trans (BEq.symm hrt) hs)
    exact ⟨r, hr, by simp [hother, hrt]⟩

theorem listsSymbols {told : List Reference} (h : told.Pairwise Reference.Before) (s : Symbol) :
    ListsSymbols told s ((told.map (·.symbol)).filter fun t => !(t == s)).eraseDups := by
  have hothers : (told.map (·.symbol)).filter (fun t => !(t == s)) =
      (told.filter fun r => !(r.symbol == s)).map (·.symbol) := List.filter_map
  have hordered : ((told.map (·.symbol)).filter fun t => !(t == s)).eraseDups.Pairwise fun a b =>
      ∃ r ∈ told, r.symbol == a ∧ ∀ r' ∈ told, r'.symbol == b → r.Before r' := by
    rw [hothers]
    refine (pairwise_eraseDups_symbols (h.sublist List.filter_sublist)).imp_of_mem
      fun {a b} _ hb hab => ?_
    rw [← hothers] at hb
    obtain ⟨r, hr, hra, hbefore⟩ := hab
    refine ⟨r, List.mem_of_mem_filter hr, hra, fun r' hr' hb' => ?_⟩
    -- what mentions a listed symbol does not mention `s`
    have hbs : ¬b == s := (exists_mem_eraseDups_iff.1 ⟨b, hb, BEq.rfl⟩).1
    have hother : ¬r'.symbol == s := fun hs => hbs (BEq.trans (BEq.symm hb') hs)
    exact hbefore r' (List.mem_filter.2 ⟨hr', by simpa using hother⟩) hb'
  refine ⟨hordered.imp ?_, fun _ => exists_mem_eraseDups_iff, hordered⟩
  rintro a b ⟨r, hr, hra, hbefore⟩ hab
  exact Reference.not_beq_of_before (hbefore r hr (BEq.trans hra hab)) BEq.rfl

end SymbolGraph

structure Navigator.AnswersScope (x : Index) (v : Navigator) (s : Symbol) : Prop where
  unknown : v.graph.hasSymbol s = false → v.referencesInScope s = .error (.symbolNotFound s.uri)
  homeless : v.graph.hasSymbol s → v.graph.definingFile? s = none →
    v.referencesInScope s = .error (.noDefinition s.uri)
  unanswered : ∀ file e, v.graph.definingFile? s = some file → v.resolver.span s = .error e →
    v.referencesInScope s = .error (.source e)
  spanless : ∀ file, v.graph.definingFile? s = some file → v.resolver.span s = .ok none →
    v.referencesInScope s = .error (.unresolvable s.uri)
  answered : ∀ file span, v.graph.definingFile? s = some file →
    v.resolver.span s = .ok (some span) →
    ∃ told symbols, v.referencesInScope s = .ok told ∧
      SymbolGraph.TellsScope (SymbolGraph.occurrencesIn x file) span told ∧
      v.dependencies s = .ok symbols ∧ SymbolGraph.ListsSymbols told s symbols
  dependencies_error : ∀ e, v.referencesInScope s = .error e → v.dependencies s = .error e

theorem Navigator.dependencies_eq_map (v : Navigator) (s : Symbol) :
    v.dependencies s = (v.referencesInScope s).map fun told =>
      ((told.map (·.symbol)).filter fun t => !(t == s)).eraseDups := by
  unfold dependencies
  cases v.referencesInScope s <;> rfl

theorem Navigator.answersScope {builder : Option SourceResolver} {x : Index} {v : Navigator}
    (hg : SymbolGraph.build builder x = .ok v.graph) (s : Symbol) : v.AnswersScope x s := by
  have htracks := SymbolGraph.Tracks.of_build hg
  have hknown : ∀ file, v.graph.definingFile? s = some file →
      v.graph.hasSymbol s := fun file hfile =>
    htracks.hasSymbol_of_lastHome? (htracks.definingFile?_eq s ▸ hfile)
  constructor
  · intro hs
    simp only [referencesInScope, SymbolGraph.find, hs, Bool.false_eq_true, if_false]
    rfl
  · intro hs hfile
    simp only [referencesInScope, SymbolGraph.find, hs, hfile, if_true]
    rfl
  · intro file e hfile hspan
    simp only [referencesInScope, SymbolGraph.find, hknown file hfile, hfile, hspan, if_true]
    rfl
  · intro file hfile hspan
    simp only [referencesInScope, SymbolGraph.find, hknown file hfile, hfile, hspan, if_true]
    rfl
  · intro file span hfile hspan
    have hscope := referencesInScope_eq_ok (hknown file hfile) hfile hspan
    rw [SymbolGraph.referencesInSpan_eq_enclosed, SymbolGraph.recordedIn_eq_reverse hg] at hscope
    -- only the positions of the span count, and not its path
    have htold :=
      SymbolGraph.tellsScope (SymbolGraph.occurrencesIn x file) { span with path := file }
    refine ⟨_, _, hscope, ⟨htold.ascending, htold.triples, htold.roles⟩, ?_,
      SymbolGraph.listsSymbols htold.ascending s⟩
    rw [dependencies_eq_map, hscope]
    rfl
  · intro e he
    rw [dependencies_eq_map, he]
    rfl

namespace SymbolGraph

/-- The references in the scope of a symbol are those in its file that its span encloses. -/
theorem build_referencesInScope (builder : Option SourceResolver) (x : Index) :
    ∃ g, build builder x = .ok g ∧ ∀ (resolver : SourceResolver) (s : Symbol),
      (Navigator.mk g resolver).AnswersScope x s := by
  obtain ⟨g, hg, -⟩ := exists_build builder x
  exact ⟨g, hg, fun resolver => Navigator.answersScope (v := ⟨g, resolver⟩) hg⟩

def answering (answer : Except SourceError (Option SourceSpan)) : SourceResolver where
  span _ := answer
  source _ := .ok none
  modules := []

theorem build_referencesInScope_repeated :
    ∃ g told symbols, build none repeated = .ok g ∧
      (Navigator.mk g (answering (.ok (some ⟨"", 1, 0, 2⟩)))).referencesInScope (localSymbol "f") =
        .ok told ∧
      (∃ r ∈ told, r == ⟨localSymbol "g", 1, 4, ⟨0⟩⟩ ∧ r.site.roles = ⟨8⟩) ∧
      (Navigator.mk g (answering (.ok (some ⟨"", 1, 0, 2⟩)))).dependencies (localSymbol "f") =
        .ok symbols ∧
      (∃ t ∈ symbols, t == localSymbol "g") ∧
      (Navigator.mk g (answering (.ok none))).dependencies (localSymbol "f") =
        .error (.unresolvable "local f") ∧
      (Navigator.mk g (answering (.error (.resolver "busy")))).dependencies (localSymbol "f") =
        .error (.source (.resolver "busy")) ∧
      (Navigator.mk g (answering (.ok none))).dependencies (localSymbol "g") =
        .error (.noDefinition "local g") ∧
      (Navigator.mk g (answering (.ok none))).dependencies (localSymbol "h") =
        .error (.symbolNotFound "local h") := by
  obtain ⟨g, hg, hanswers⟩ := build_referencesInScope none repeated
  have hfile : g.definingFile? (localSymbol "f") = some "b.py" := by
    rw [eq_of_build hg]
    rfl
  have hhomeless : g.hasSymbol (localSymbol "g") ∧ g.definingFile? (localSymbol "g") = none := by
    rw [eq_of_build hg]
    exact ⟨rfl, rfl⟩
  have hunknown : g.hasSymbol (localSymbol "h") = false := by
    rw [eq_of_build hg]
    rfl
  have hscope := hanswers (answering (.ok (some ⟨"", 1, 0, 2⟩))) (localSymbol "f")
  obtain ⟨told, symbols, htold, htells, hsymbols, hlists⟩ := hscope.answered "b.py" _ hfile rfl
  have hmentioned : ∃ r ∈ occurrencesIn repeated "b.py", r == ⟨localSymbol "g", 1, 4, ⟨0⟩⟩ := by
    rw [occurrencesIn_repeated]
    exact List.any_eq_true.1 rfl
  obtain ⟨r, hr, hplace⟩ := (htells.triples ⟨localSymbol "g", 1, 4, ⟨0⟩⟩).2 ⟨hmentioned, rfl⟩
  have hroles : r.site.roles = ⟨8⟩ := (htells.roles r hr).roles_eq hplace rfl
  have hdependency := (hlists.mem_iff (localSymbol "g")).2
    ⟨by decide, r, hr, (Reference.beq_iff.1 hplace).1⟩
  have hspanless := hanswers (answering (.ok none))
  have hfailing := hanswers (answering (.error (.resolver "busy"))) (localSymbol "f")
  exact ⟨g, told, symbols, hg, htold, ⟨r, hr, hplace, hroles⟩, hsymbols, hdependency,
    (hspanless _).dependencies_error _ ((hspanless _).spanless "b.py" hfile rfl),
    hfailing.dependencies_error _ (hfailing.unanswered "b.py" _ hfile rfl),
    (hspanless _).dependencies_error _ ((hspanless _).homeless hhomeless.1 hhomeless.2),
    (hspanless _).dependencies_error _ ((hspanless _).unknown hunknown)⟩

end SymbolGraph
end CodeAtlas
