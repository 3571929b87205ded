import CodeAtlas.Proofs.Graph.Calls
import CodeAtlas.Proofs.Graph.Lasting
import CodeAtlas.Proofs.Ordered
import Mathlib.Data.List.Nodup

/-! Callees and dependencies of a method. Both tell what its body mentions, but the callees are
noted while documents are still being read: they are there if the method is declared in the document
that holds its body or in a later one. -/

namespace CodeAtlas

theorem Navigator.dependencies_eq_ok_iff {v : Navigator} {s : Symbol} {deps : List Symbol} :
    v.dependencies s = .ok deps ↔ v.graph.hasSymbol s ∧ ∃ file span,
      v.graph.definingFile? s = some file ∧ v.resolver.span s = .ok (some span) ∧
      deps = (((v.graph.referencesInSpan { span with path := file }).map (·.symbol)).filter
        fun t => !(t == s)).eraseDups := by
  unfold dependencies referencesInScope SymbolGraph.find
  cases hs : v.graph.hasSymbol s with
  | false => simp [bind, Except.bind]
  | true =>
    cases hfile : v.graph.definingFile? s with
    | none => simp [bind, Except.bind]
    | some file =>
      rcases hspan : v.resolver.span s with e | (_ | span) <;>
        simp [bind, Except.bind, pure, Except.pure, eq_comm]

namespace SymbolGraph
open SourceIndex

def callablesIn (g : SymbolGraph) (m : Symbol) (span : SourceSpan) : List Symbol :=
  ((g.referencesInSpan span).map (·.symbol)).filter fun s => !(s == m) && s.isCallable

theorem mem_callablesIn_iff {g : SymbolGraph} {m s : Symbol} {span : SourceSpan} :
    s ∈ g.callablesIn m span ↔
      (∃ r ∈ g.referencesInSpan span, r.symbol = s) ∧ ¬s == m ∧ s.isCallable := by
  simp [callablesIn]

variable {x : Index} {g : SymbolGraph} {m : Symbol}

/-! ### The calls of a graph -/

theorem mem_bodyLinks_call_iff {resolver : SourceResolver} {recorded : String → List Reference}
    {c : Call} {l : Link} (hl : l.call? = some c) :
    l ∈ bodyLinks resolver recorded m ↔ c.caller = m ∧ ∃ span, resolver.span m = .ok (some span) ∧
      ⟨c.callee, c.site⟩ ∈ enclosed (recorded span.path) span ∧ ¬c.callee == m ∧
        c.callee.isCallable := by
  obtain ⟨caller, callee, site⟩ := c
  obtain rfl : l = .caller caller callee site := by
    cases l <;> simp_all [Link.call?]
  rw [bodyLinks]
  rcases resolver.span m with e | (_ | span)
  · simp
  · simp
  · simp only [List.mem_flatMap, Except.ok.injEq, Option.some.injEq, exists_eq_left']
    constructor
    · rintro ⟨r, hr, hlink⟩
      unfold callLinks at hlink
      split at hlink
      · cases hlink
      · rename_i hnot
        simp only [List.mem_cons, Link.caller.injEq, reduceCtorEq, List.not_mem_nil,
          or_false] at hlink
        obtain ⟨rfl, rfl, rfl⟩ := hlink
        rw [Bool.or_eq_true, not_or, Bool.not_eq_true', Bool.not_eq_false] at hnot
        exact ⟨rfl, hr, hnot⟩
    · rintro ⟨rfl, hr, hother, hcallable⟩
      refine ⟨_, hr, ?_⟩
      simp [callLinks, hother, hcallable]

theorem mem_calls_iff {resolver : SourceResolver}
    (hg : build (some resolver) x = .ok g) {c : Call} :
    c ∈ g.calls ↔ ∃ earlier d later, x.documents = earlier ++ d :: later ∧
      c.caller ∈ declared d ∧ c.caller.kind = .method ∧
        ∃ span, resolver.span c.caller = .ok (some span) ∧
      ⟨c.callee, c.site⟩ ∈ enclosed (recordedBy (earlier ++ [d]) span.path) span ∧
      ¬c.callee == c.caller ∧ c.callee.isCallable := by
  have hcalls : g.calls = g.lasting.filterMap Link.call? :=
    picked_eq_filterMap_lasting (fun _ _ => rfl) g
  rw [hcalls, lasting_of_build hg, List.mem_filterMap]
  simp only [List.mem_reverse, List.mem_append, mem_linksAfter, List.nil_append]
  constructor
  · rintro ⟨l, ⟨earlier, d, later, hx, hl | hl⟩ | hl, hc⟩
    · rcases List.mem_append.1 hl with hl | hl
      · obtain ⟨i, -, hl⟩ := List.mem_flatMap.1 hl
        obtain ⟨s, target, kinds, rfl⟩ := eq_relationship_of_mem_informationLinks hl
        cases hc
      · obtain ⟨r, -, rfl⟩ := List.mem_map.1 hl
        cases hc
    · obtain ⟨method, hmethod, hl⟩ := List.mem_flatMap.1 hl
      obtain ⟨hdeclared, hkind⟩ := List.mem_filter.1 hmethod
      obtain ⟨rfl, hspan⟩ := (mem_bodyLinks_call_iff hc).1 hl
      exact ⟨earlier, d, later, hx, hdeclared, of_decide_eq_true hkind, hspan⟩
    · obtain ⟨i, -, hl⟩ := List.mem_flatMap.1 hl
      obtain ⟨s, target, kinds, rfl⟩ := eq_relationship_of_mem_informationLinks hl
      cases hc
  · rintro ⟨earlier, d, later, hx, hdeclared, hkind, hspan⟩
    have hmethod : c.caller ∈ (declared d).filter fun s => s.kind = .method :=
      List.mem_filter.2 ⟨hdeclared, decide_eq_true hkind⟩
    have hlink : Link.call? (.caller c.caller c.callee c.site) = some c := rfl
    exact ⟨_, .inl ⟨earlier, d, later, hx, .inr
      (List.mem_flatMap.2 ⟨c.caller, hmethod, (mem_bodyLinks_call_iff hlink).2 ⟨rfl, hspan⟩⟩)⟩,
        hlink⟩

/-! ### The body of a method and the documents around it -/

theorem exists_definer {textOf : Document → Option String} (hm : symbol? m.uri = some m)
    {span : SourceSpan} (hspan : (SourceIndex.build textOf x).span? m = some span) :
    ∃ earlier f later, x.documents = earlier ++ f :: later ∧ (∀ d ∈ later, defines d m = false) ∧
      defines f m ∧ f.path = span.path := by
  have hpath := span?_path textOf x m
  rw [hspan, funext (holds_eq_defines hm)] at hpath
  obtain ⟨f, hf, hfspan⟩ := Option.map_eq_some_iff.1 hpath.symm
  obtain ⟨hdefines, earlier, later, hx, hlater⟩ := find?_reverse_eq_some_iff.1 hf
  exact ⟨earlier, f, later, hx, by simpa using hlater, hdefines, hfspan⟩

theorem redeclaration?_eq {earlier later : List Document} {f : Document}
    (hx : x.documents = earlier ++ f :: later) (hlater : ∀ d ∈ later, defines d m = false)
    (hf : defines f m) :
    redeclaration? x m = later.reverse.find? (declares · m) := by
  have hreverse : x.documents.reverse = later.reverse ++ f :: earlier.reverse := by simp [hx]
  have hundefined : ∀ d ∈ later.reverse, !defines d m := by simpa using hlater
  have hstop : (f :: earlier.reverse).takeWhile (fun d => !defines d m) = [] := by simp [hf]
  rw [redeclaration?, hreverse, List.takeWhile_append_of_pos hundefined, hstop, List.append_nil]

theorem mem_upTo_iff {earlier later before after : List Document} {f d : Document}
    (hdistinct : (earlier ++ f :: later).Nodup)
    (hsplit : earlier ++ f :: later = before ++ d :: after) :
    f ∈ before ++ [d] ↔ d ∈ f :: later := by
  rcases List.append_eq_append_iff.1 hsplit with ⟨between, rfl, hlater⟩ | ⟨between, rfl, hafter⟩
  · -- `d` comes with `f` or after it
    cases between with
    | nil =>
      obtain ⟨rfl, rfl⟩ := List.cons.inj hlater
      simp
    | cons e between =>
      obtain ⟨rfl, rfl⟩ := List.cons.inj hlater
      simp
  · cases between with
    | nil =>
      obtain ⟨rfl, rfl⟩ := List.cons.inj hafter
      simp
    | cons e between =>
      obtain ⟨rfl, rfl⟩ := List.cons.inj hafter
      obtain ⟨-, -, hdisjoint⟩ := List.nodup_append.1 hdistinct
      have hf : f ∉ before ++ [d] := fun hf =>
        hdisjoint f (by simpa [or_assoc] using Or.inl (List.mem_append.1 hf)) f
          List.mem_cons_self rfl
      have hd : d ∉ f :: later := fun hd => hdisjoint d (by simp) d hd rfl
      simp only [hf, hd]

theorem recordedBy_upTo {earlier later before after : List Document} {f d : Document}
    (hpaths : ((earlier ++ f :: later).map (·.path)).Nodup)
    (hsplit : earlier ++ f :: later = before ++ d :: after) :
    recordedBy (before ++ [d]) f.path =
      if d ∈ f :: later then (referencesOf f).reverse else [] := by
  have hiff := mem_upTo_iff hpaths.of_map hsplit
  have hall : earlier ++ f :: later = (before ++ [d]) ++ after := by simp [hsplit]
  rw [hall, List.map_append] at hpaths
  obtain ⟨hknown, -, hdisjoint⟩ := List.nodup_append.1 hpaths
  split
  · rename_i hd
    exact recordedBy_path hknown (hiff.2 hd)
  · rename_i hd
    have hmem : f ∈ (before ++ [d]) ++ after := by simp [← hall]
    have hafter : f ∈ after := (List.mem_append.1 hmem).resolve_left fun hf => hd (hiff.1 hf)
    refine recordedBy_eq_nil fun e he hpath => ?_
    exact hdisjoint e.path (List.mem_map_of_mem he) f.path (List.mem_map_of_mem hafter) hpath

theorem exists_callees_of_definer {textOf : Document → Option String}
    (hpaths : (x.documents.map (·.path)).Nodup)
    (hg : build (some (SourceIndex.build textOf x).resolver) x = .ok g) (hknown : g.hasSymbol m)
    (hm : symbol? m.uri = some m) (hkind : m.kind = .method) {span : SourceSpan}
    (hspan : (SourceIndex.build textOf x).span? m = some span) {earlier later : List Document}
    {f : Document} (hx : x.documents = earlier ++ f :: later) (hf : f.path = span.path) :
    ∃ found, g.callees m = .ok found ∧
      SameSymbols found (if (f :: later).any (declares · m) then g.callablesIn m span else []) := by
  have hbody : ∀ before after d, x.documents = before ++ d :: after →
      enclosed (recordedBy (before ++ [d]) span.path) span =
        if d ∈ f :: later then g.referencesInSpan span else [] := by
    intro before after d hsplit
    rw [hx] at hpaths hsplit
    have hfull : g.recordedIn span.path = (referencesOf f).reverse := by
      rw [recordedIn_of_build hg, hx, ← hf, recordedBy_path hpaths (by simp)]
    rw [referencesInSpan_eq_enclosed, hfull, ← hf, recordedBy_upTo hpaths hsplit]
    split
    · rfl
    · exact enclosed_nil span
  obtain ⟨found, hfound, hany⟩ := exists_callees hknown
  refine ⟨found, hfound, fun t => ?_⟩
  rw [hany, Bool.eq_iff_iff, List.any_eq_true, List.any_eq_true]
  constructor
  · rintro ⟨c, hc, hends⟩
    obtain ⟨hcaller, hcallee⟩ := Bool.and_eq_true_iff.1 hends
    obtain ⟨before, d, after, hsplit, hdeclared, -, span', hspan', henclosed, hother, hcallable⟩ :=
      (mem_calls_iff hg).1 hc
    have hmethod : c.caller = m :=
      eq_of_beq_of_symbol? (symbol?_of_mem_declared hdeclared) hm hcaller
    rw [hmethod] at hdeclared hspan' hother
    obtain rfl : span = span' := Option.some.inj (hspan.symm.trans (Except.ok.inj hspan'))
    rw [hbody before after d hsplit] at henclosed
    split at henclosed
    · rename_i hd
      have hlate : (f :: later).any (declares · m) :=
        List.any_eq_true.2 ⟨d, hd, (declares_iff_mem hm).2 hdeclared⟩
      rw [if_pos hlate]
      exact ⟨c.callee, mem_callablesIn_iff.2 ⟨⟨_, henclosed, rfl⟩, hother, hcallable⟩, hcallee⟩
    · cases henclosed
  · rintro ⟨s, hs, hst⟩
    split at hs
    · rename_i hlate
      obtain ⟨d, hd, hdeclares⟩ := List.any_eq_true.1 hlate
      obtain ⟨⟨r, hr, rfl⟩, hother, hcallable⟩ := mem_callablesIn_iff.1 hs
      obtain ⟨l₁, l₂, hsplit⟩ := List.append_of_mem hd
      have hx' : x.documents = (earlier ++ l₁) ++ d :: l₂ := by rw [hx, hsplit, List.append_assoc]
      have henclosed := hbody _ _ d hx'
      rw [if_pos hd] at henclosed
      rw [← henclosed] at hr
      exact ⟨⟨m, r.symbol, r.site⟩,
        (mem_calls_iff hg).2 ⟨_, d, l₂, hx', (declares_iff_mem hm).1 hdeclares,
        hkind, span, congrArg Except.ok hspan, hr, hother, hcallable⟩, by simp [hst]⟩
    · cases hs

/-! ### Beside the dependencies -/

theorem symbol?_of_mem_referencesInSpan {resolver : Option SourceResolver}
    (hg : build resolver x = .ok g) {span : SourceSpan} {r : Reference}
    (hr : r ∈ g.referencesInSpan span) :
    symbol? r.symbol.uri = some r.symbol := by
  rw [referencesInSpan_eq_enclosed, recordedIn_of_build hg] at hr
  exact symbol?_of_mem_recordedBy (mem_of_mem_enclosed hr)

theorem sameSymbols_dependencies {resolver : Option SourceResolver} (hg : build resolver x = .ok g)
    (m : Symbol) (span : SourceSpan) :
    SameSymbols (((((g.referencesInSpan span).map (·.symbol)).filter fun t =>
      !(t == m)).eraseDups).filter
      Symbol.isCallable) (g.callablesIn m span) := by
  intro t
  have hlegible : ∀ s ∈ ((g.referencesInSpan span).map (·.symbol)).filter fun t => !(t == m),
      symbol? s.uri = some s := by
    intro s hs
    obtain ⟨r, hr, rfl⟩ := List.mem_map.1 (List.mem_of_mem_filter hs)
    exact symbol?_of_mem_referencesInSpan hg hr
  rw [List.any_filter, any_eraseDups_of_congr, callablesIn, List.any_filter, List.any_filter]
  · refine List.any_congr rfl fun s => ?_
    rw [Bool.and_assoc]
  · intro a ha b hb hab
    rw [eq_of_beq_of_symbol? (hlegible a ha) (hlegible b hb) hab]

theorem sameSymbols_congr {l l' k k' : List Symbol} (hl : SameSymbols l l')
    (hk : SameSymbols k k') :
    SameSymbols l k ↔ SameSymbols l' k' :=
  forall_congr' fun t => by rw [hl t, hk t]

theorem sameSymbols_nil_iff {l : List Symbol} : SameSymbols [] l ↔ l = [] := by
  constructor
  · intro h
    cases l with
    | nil => rfl
    | cons s l => simpa using h s
  · rintro rfl t
    rfl

/-- Where documents have different paths, the callees of a declared method are the methods and
classes among its dependencies, unless the document of its last definition does not declare it: then
no callee was noted before, and with a later declaration the dependencies are those of the same
lines in the file of that one. -/
theorem callees_eq_dependencies_iff {textOf : Document → Option String}
    (hpaths : (x.documents.map (·.path)).Nodup)
    (hg : build (some (SourceIndex.build textOf x).resolver) x = .ok g)
    (hm : ∃ d ∈ x.documents, m ∈ declared d) (hkind : m.kind = .method) {deps : List Symbol}
    (hdeps : (Navigator.mk g (SourceIndex.build textOf x).resolver).dependencies m = .ok deps) :
    ∃ found f span, g.callees m = .ok found ∧ x.documents.reverse.find? (defines · m) = some f ∧
      (SourceIndex.build textOf x).span? m = some span ∧
      (redeclaration? x m = none →
        (SameSymbols found (deps.filter Symbol.isCallable) ↔ declares f m ∨
          g.callablesIn m span = [])) ∧
      ∀ d ∈ redeclaration? x m,
        (SameSymbols found (deps.filter Symbol.isCallable) ↔
          SameSymbols (g.callablesIn m span) (g.callablesIn m { span with path := d.path })) := by
  obtain ⟨_, -, hdeclared⟩ := hm
  have hlegible := symbol?_of_mem_declared hdeclared
  obtain ⟨hknown, file, span, hfile, hspan, rfl⟩ := Navigator.dependencies_eq_ok_iff.1 hdeps
  replace hspan : (SourceIndex.build textOf x).span? m = some span := Except.ok.inj hspan
  obtain ⟨earlier, f, later, hx, hlater, hdefines, hf⟩ := exists_definer hlegible hspan
  obtain ⟨found, hfound, hcallees⟩ :=
    exists_callees_of_definer hpaths hg hknown hlegible hkind hspan hx hf
  have hcallable := sameSymbols_dependencies hg m { span with path := file }
  have hhome : file = ((redeclaration? x m).map (·.path)).getD span.path := by
    rw [(Tracks.of_build hg).definingFile?_eq] at hfile
    exact lastHome?_eq_getD hspan hfile
  have hlast : x.documents.reverse.find? (defines · m) = some f := by
    rw [hx, List.reverse_append, List.reverse_cons, List.append_assoc, List.find?_append,
      List.find?_eq_none.2 (by simpa using hlater)]
    simp [hdefines]
  have hredeclared := redeclaration?_eq hx hlater hdefines
  refine ⟨found, f, span, hfound, hlast, hspan, fun hnone => ?_, fun d hd => ?_⟩
  · rw [hnone] at hhome
    obtain rfl : file = span.path := hhome
    rw [sameSymbols_congr hcallees hcallable]
    have hlate : later.any (declares · m) = false := by
      rw [hnone] at hredeclared
      simpa using hredeclared.symm
    rw [List.any_cons, hlate, Bool.or_false]
    by_cases hdeclares : declares f m
    · simp only [hdeclares, if_true, true_or, iff_true]
      exact fun _ => rfl
    · simp only [hdeclares, Bool.false_eq_true, if_false, false_or]
      exact sameSymbols_nil_iff
  · rw [Option.mem_def.1 hd] at hhome hredeclared
    obtain rfl : file = d.path := hhome
    have hlate : (f :: later).any (declares · m) := by
      have hdeclares := List.find?_some hredeclared.symm
      have hmem := List.mem_of_find?_eq_some hredeclared.symm
      exact List.any_eq_true.2 ⟨d, List.mem_cons_of_mem f (List.mem_reverse.1 hmem), hdeclares⟩
    rw [if_pos hlate] at hcallees
    exact sameSymbols_congr hcallees hcallable

/-- One file declares a function. The next one has its body, with a mention of a class, and declares
it as well if `again` says so. -/
def bodied (f c : Symbol) (again : Bool) : Index where
  documents := [
    { path := "a.py", symbols := [{ symbol := f.uri }] },
    { path := "b.py"
      symbols := if again then [{ symbol := f.uri }] else []
      occurrences := [
        { range := [0, 4, 5], symbol := f.uri, roles := 1, enclosingRange := [0, 0, 2, 0] },
        { range := [1, 4, 5], symbol := c.uri }] }]

section
variable {f c : Symbol} {again : Bool}

theorem lastHome?_bodied (hf : symbol? f.uri = some f) :
    lastHome? (homesOf (bodied f c again)) f = some "b.py" := by
  have hrange : SourceRange.ofRaw? [0, 4, 5] = some ⟨0, 4, 0, 5⟩ := by decide
  have hdef : (Roles.ofRaw 1).isDefinition := by decide
  simp [lastHome?_homesOf, bodied, defines, defined, definedBy?, hf, hrange, hdef]

theorem find?_defines_bodied (hf : symbol? f.uri = some f) :
    (bodied f c again).documents.reverse.find? (defines · f) =
      (bodied f c again).documents[1]? := by
  have hrange : SourceRange.ofRaw? [0, 4, 5] = some ⟨0, 4, 0, 5⟩ := by decide
  have hdef : (Roles.ofRaw 1).isDefinition := by decide
  simp [bodied, defines, defined, definedBy?, hf, hrange, hdef]

theorem redeclaration?_bodied (hf : symbol? f.uri = some f) :
    redeclaration? (bodied f c again) f = none := by
  have hrange : SourceRange.ofRaw? [0, 4, 5] = some ⟨0, 4, 0, 5⟩ := by decide
  have hdef : (Roles.ofRaw 1).isDefinition := by decide
  simp [redeclaration?, bodied, defines, defined, definedBy?, hf, hrange, hdef]

theorem span?_bodied :
    (SourceIndex.build embedded? (bodied f c again)).span? f = some ⟨"b.py", 0, 0, 2⟩ := by
  have hrange : SourceRange.ofRaw? [0, 4, 5] = some ⟨0, 4, 0, 5⟩ := by decide
  have henclosing : SourceRange.ofRaw? [0, 0, 2, 0] = some ⟨0, 0, 2, 0⟩ := by decide
  have hdef : (Roles.ofRaw 1).isDefinition := by decide
  have hnot : (Roles.ofRaw 0).isDefinition = false := by decide
  simp [SourceIndex.build, bodied, span?, site?, spanOf, definition?, hrange, hdef, hnot,
    henclosing]

theorem referencesInSpan_bodied (hf : symbol? f.uri = some f) (hc : symbol? c.uri = some c)
    {resolver : Option SourceResolver} (hg : build resolver (bodied f c again) = .ok g) :
    g.referencesInSpan ⟨"b.py", 0, 0, 2⟩ = [⟨f, 0, 4, ⟨1⟩⟩, ⟨c, 1, 4, ⟨0⟩⟩] := by
  have hrange : SourceRange.ofRaw? [0, 4, 5] = some ⟨0, 4, 0, 5⟩ := by decide
  have hline : SourceRange.ofRaw? [1, 4, 5] = some ⟨1, 4, 1, 5⟩ := by decide
  have hdefinition : Roles.ofRaw 1 = ⟨1⟩ := by decide
  have hplain : Roles.ofRaw 0 = ⟨0⟩ := by decide
  have hrecorded : recordedBy (bodied f c again).documents "b.py" =
      [⟨c, 1, 4, ⟨0⟩⟩, ⟨f, 0, 4, ⟨1⟩⟩] := by
    simp [recordedBy, bodied, referencesOf, referenceOf?, hf, hc, hrange, hline, hdefinition,
      hplain]
  have hother : ((⟨f, 0, 4, ⟨1⟩⟩ : Reference) == ⟨c, 1, 4, ⟨0⟩⟩) = false := by
    change (f == c && false && true) = false
    simp
  rw [referencesInSpan_eq_enclosed, recordedIn_of_build hg]
  simp [hrecorded, enclosed, SourceSpan.encloses, List.mergeSort,
    List.MergeSort.Internal.splitInTwo, Reference.le, Ordered.squeeze, Ordered.squeeze.squeezeAfter,
    hother]

theorem callablesIn_bodied (hf : symbol? f.uri = some f) (hc : symbol? c.uri = some c)
    (hother : (c == f) = false) (hcallable : c.isCallable) {resolver : Option SourceResolver}
    (hg : build resolver (bodied f c again) = .ok g) : g.callablesIn f ⟨"b.py", 0, 0, 2⟩ = [c] := by
  simp [callablesIn, referencesInSpan_bodied hf hc hg, hother, hcallable]

theorem exists_dependencies_bodied (hf : symbol? f.uri = some f) (hc : symbol? c.uri = some c)
    (hother : (c == f) = false) (hcallable : c.isCallable) {resolver : Option SourceResolver}
    (hg : build resolver (bodied f c again) = .ok g) :
    ∃ deps, (Navigator.mk g (SourceIndex.build embedded? (bodied f c again)).resolver).dependencies
      f = .ok deps ∧
      SameSymbols (deps.filter Symbol.isCallable) [c] := by
  have htracks := Tracks.of_build hg
  have hhome : lastHome? (homesOf (bodied f c again)) f = some "b.py" := lastHome?_bodied hf
  have hfile : g.definingFile? f = some "b.py" := by rw [htracks.definingFile?_eq, hhome]
  have hspan : (SourceIndex.build embedded? (bodied f c again)).resolver.span f =
      .ok (some ⟨"b.py", 0, 0, 2⟩) :=
    congrArg Except.ok span?_bodied
  refine ⟨_, Navigator.dependencies_eq_ok_iff.2
    ⟨htracks.hasSymbol_of_lastHome? hhome, "b.py", _, hfile, hspan, rfl⟩, ?_⟩
  rw [← callablesIn_bodied hf hc hother hcallable hg]
  exact sameSymbols_dependencies hg f ⟨"b.py", 0, 0, 2⟩

end

def demoBodied (again : Bool) : Index := bodied (.ofParts functionParts) (.ofParts classParts) again

def demoSources (again : Bool) : SourceResolver :=
  (SourceIndex.build embedded? (demoBodied again)).resolver

theorem callees_eq_dependencies_bodied :
    ∃ g found deps, build (some (demoSources true)) (demoBodied true) = .ok g ∧
      g.callees (.ofParts functionParts) = .ok found ∧
      (Navigator.mk g (demoSources true)).dependencies (.ofParts functionParts) = .ok deps ∧
      SameSymbols found (deps.filter Symbol.isCallable) ∧
      SameSymbols (deps.filter Symbol.isCallable) [.ofParts classParts] := by
  have hf := symbol?_ofParts functionParts_legal
  have hc := symbol?_ofParts classParts_legal
  obtain ⟨g, hg, -⟩ := exists_build (some (demoSources true)) (demoBodied true)
  obtain ⟨deps, hdeps, hclass⟩ := exists_dependencies_bodied hf hc (by decide) (by decide) hg
  have hpaths : ((demoBodied true).documents.map (·.path)).Nodup := by simp [demoBodied, bodied]
  have hdeclared : ∃ d ∈ (demoBodied true).documents,
      Symbol.ofParts functionParts ∈ declared d := by
    simp [demoBodied, bodied, declared, hf]
  obtain ⟨found, d, span, hfound, hd, -, hsame, -⟩ :=
    callees_eq_dependencies_iff hpaths hg hdeclared (by decide) hdeps
  have hagain : declares d (.ofParts functionParts) := by
    obtain rfl := Option.some.inj ((find?_defines_bodied hf).symm.trans hd)
    simp [declares, declared, hf]
  exact ⟨g, found, deps, hg, hfound, hdeps,
    (hsame (redeclaration?_bodied hf)).2 (.inl hagain), hclass⟩

/-- The body comes after the declaration: the class in it is a dependency and no callee. -/
theorem exists_callees_ne_dependencies :
    ∃ (x : Index) (g : SymbolGraph) (m : Symbol) (found deps : List Symbol),
      (x.documents.map (·.path)).Nodup ∧
      build (some (SourceIndex.build embedded? x).resolver) x = .ok g ∧
      (∃ d ∈ x.documents, m ∈ declared d) ∧ m.kind = .method ∧
      g.callees m = .ok found ∧
      (Navigator.mk g (SourceIndex.build embedded? x).resolver).dependencies m = .ok deps ∧
      ¬SameSymbols found (deps.filter Symbol.isCallable) := by
  have hf := symbol?_ofParts functionParts_legal
  have hc := symbol?_ofParts classParts_legal
  obtain ⟨g, hg, htracks⟩ := exists_build (some (demoSources false)) (demoBodied false)
  obtain ⟨deps, hdeps, hclass⟩ := exists_dependencies_bodied hf hc (by decide) (by decide) hg
  have hpaths : ((demoBodied false).documents.map (·.path)).Nodup := by simp [demoBodied, bodied]
  have hdeclared : ∃ d ∈ (demoBodied false).documents,
      Symbol.ofParts functionParts ∈ declared d := by
    simp [demoBodied, bodied, declared, hf]
  have hknown := htracks.hasSymbol_of_lastHome? (lastHome?_bodied hf)
  have hsplit : (demoBodied false).documents =
      [(demoBodied false).documents[0]] ++ (demoBodied false).documents[1] :: [] := rfl
  obtain ⟨found, hfound, hnone⟩ :=
    exists_callees_of_definer hpaths hg hknown hf (by decide) span?_bodied hsplit rfl
  refine ⟨demoBodied false, g, .ofParts functionParts, found, deps, hpaths, hg,
    hdeclared, by decide, hfound,
    hdeps, fun hsame => ?_⟩
  have hundeclared : ([(demoBodied false).documents[1]].any (declares · (.ofParts functionParts))) =
      false := by
    simp [demoBodied, bodied, declares, declared]
  have habsent := hnone (.ofParts classParts)
  rw [hundeclared, hsame, hclass] at habsent
  simp at habsent

end SymbolGraph
end CodeAtlas
