import CodeAtlas.Proofs.Graph.Agreement
import CodeAtlas.Proofs.Graph.Order

/-! The references to one symbol. A finished graph tells every position where the index mentions
the symbol, by file and in order, and where the index does so more than once with the roles of the
last time. -/

namespace CodeAtlas

def Site.Before (a b : Site) : Prop := a.line < b.line ∨ a.line = b.line ∧ a.column < b.column

namespace Reference
variable {a b c : Reference} {s : Symbol}

theorem beq_iff :
    a == b ↔ a.symbol == b.symbol ∧ a.site.line = b.site.line ∧ a.site.column = b.site.column := by
  change (a.symbol == b.symbol && a.site.line == b.site.line && a.site.column == b.site.column) =
    true ↔ _
  simp only [Bool.and_eq_true, beq_iff_eq, and_assoc]

instance : EquivBEq Reference where
  rfl := beq_iff.2 ⟨BEq.rfl, rfl, rfl⟩
  symm h := by
    obtain ⟨hs, hline, hcolumn⟩ := beq_iff.1 h
    exact beq_iff.2 ⟨BEq.symm hs, hline.symm, hcolumn.symm⟩
  trans h h' := by
    obtain ⟨hs, hline, hcolumn⟩ := beq_iff.1 h
    obtain ⟨hs', hline', hcolumn'⟩ := beq_iff.1 h'
    exact beq_iff.2 ⟨BEq.trans hs hs', hline.trans hline', hcolumn.trans hcolumn'⟩

def Before (a b : Reference) : Prop :=
  a.site.Before b.site ∨
    a.site.line = b.site.line ∧ a.site.column = b.site.column ∧ a.symbol.uri < b.symbol.uri

theorem positionLe_iff : positionLe a b ↔
    a.site.Before b.site ∨ a.site.line = b.site.line ∧ a.site.column = b.site.column := by
  simp only [positionLe, Site.Before, Bool.or_eq_true, Bool.and_eq_true, decide_eq_true_eq]
  omega

theorem le_iff : le a b ↔
    a.site.Before b.site ∨
      a.site.line = b.site.line ∧ a.site.column = b.site.column ∧ a.symbol.uri ≤ b.symbol.uri := by
  simp only [le, Site.Before, Symbol.before, Bool.or_eq_true, Bool.and_eq_true, decide_eq_true_eq]
  tauto

theorem arranges_positionLe {l : List Reference} (h : ∀ r ∈ l, r.symbol = s) :
    Ordered.Arranges positionLe l where
  trans a b c hab hbc := by
    simp only [positionLe_iff, Site.Before] at hab hbc ⊢
    omega
  total a b := by
    simp only [Bool.or_eq_true, positionLe_iff, Site.Before]
    omega
  beq_iff a ha b hb := by
    have hsymbol : (a.symbol == b.symbol) = true := by rw [h a ha, h b hb, BEq.rfl]
    simp only [beq_iff, hsymbol, true_and, positionLe_iff, Site.Before]
    omega

theorem arranges_le (l : List Reference) : Ordered.Arranges le l where
  trans a b c hab hbc := by
    have huri : a.symbol.uri ≤ b.symbol.uri → b.symbol.uri ≤ c.symbol.uri →
        a.symbol.uri ≤ c.symbol.uri :=
      String.le_trans
    simp only [le_iff, Site.Before] at hab hbc ⊢
    grind
  total a b := by
    have huri := String.le_total a.symbol.uri b.symbol.uri
    simp only [Bool.or_eq_true, le_iff, Site.Before]
    grind
  beq_iff a _ b _ := by
    have huri : a.symbol.uri = b.symbol.uri ↔ a.symbol.uri ≤ b.symbol.uri ∧
        b.symbol.uri ≤ a.symbol.uri := by
      constructor
      · intro h
        rw [h]
        exact ⟨String.le_refl _, String.le_refl _⟩
      · rintro ⟨hab, hba⟩
        exact String.le_antisymm hab hba
    simp only [beq_iff, Symbol.beq_iff, huri, le_iff, Site.Before]
    grind

theorem site_before_of_positionLe (h : positionLe a b ∧ ¬positionLe b a) :
    a.site.Before b.site := by
  simp only [positionLe_iff, Site.Before] at h ⊢
  omega

theorem before_of_le (h : le a b ∧ ¬le b a) : a.Before b := by
  have huri : ¬b.symbol.uri ≤ a.symbol.uri → a.symbol.uri < b.symbol.uri := String.not_le.1
  simp only [le_iff, Before, Site.Before] at h ⊢
  grind

theorem not_beq_of_before (h : a.Before b) : ¬a == b := by
  rw [beq_iff]
  rintro ⟨hs, hline, hcolumn⟩
  rw [Symbol.beq_iff] at hs
  simp only [Before, Site.Before, hs, String.lt_irrefl] at h
  grind

end Reference

namespace SymbolGraph

def occurrencesIn (x : Index) (file : String) : List Reference :=
  (x.documents.filter fun d => d.path == file).flatMap referencesOf

/-- A reference has the roles of the last one that counts as the same. -/
def LastRoles (recorded : List Reference) (r : Reference) : Prop :=
  ∃ earlier last later, recorded = earlier ++ last :: later ∧ last == r ∧
    last.site.roles = r.site.roles ∧
    ∀ o ∈ later, ¬o == r

theorem recordedIn_eq_reverse {resolver : Option SourceResolver} {x : Index} {g : SymbolGraph}
    (hg : build resolver x = .ok g) (file : String) :
    g.recordedIn file = (occurrencesIn x file).reverse := by
  rw [recordedIn_of_build hg]
  rfl

theorem lastRoles_iff {recorded : List Reference} {r : Reference} :
    LastRoles recorded r ↔
      ∃ last, recorded.reverse.find? (· == r) = some last ∧ last.site.roles = r.site.roles := by
  simp only [find?_reverse_eq_some_iff]
  constructor
  · rintro ⟨earlier, last, later, hsplit, hlast, hroles, hlater⟩
    exact ⟨last, ⟨hlast, earlier, later, hsplit, hlater⟩, hroles⟩
  · rintro ⟨last, ⟨hlast, earlier, later, hsplit, hlater⟩, hroles⟩
    exact ⟨earlier, last, later, hsplit, hlast, hroles, hlater⟩

theorem LastRoles.roles_eq {recorded : List Reference} {r o last : Reference}
    (h : LastRoles recorded r)
    (hro : r == o) (hlast : recorded.reverse.find? (· == o) = some last) :
    r.site.roles = last.site.roles := by
  obtain ⟨last', hfound, hroles⟩ := lastRoles_iff.1 h
  have hsame : (fun a : Reference => a == r) = fun a => a == o :=
    funext fun a => BEq.congr_right hro
  rw [hsame, hlast] at hfound
  rw [← hroles, Option.some.inj hfound]

/-! ### References to one symbol -/

/-- What is told of the references to a symbol in one file: every position of such a reference,
ascending, with the roles of the last one there. -/
structure TellsPositions (recorded : List Reference) (s : Symbol) (told : List Reference) :
    Prop where
  symbol_eq : ∀ r ∈ told, r.symbol = s
  ascending : told.Pairwise fun a b => a.site.Before b.site
  positions : ∀ line column, (∃ r ∈ told, r.site.line = line ∧ r.site.column = column) ↔
    ∃ o ∈ recorded, o.symbol == s ∧ o.site.line = line ∧ o.site.column = column
  roles : ∀ r ∈ told, LastRoles recorded r

def mentionsOf (s : Symbol) (recorded : List Reference) : List Reference :=
  recorded.filterMap fun r => if r.symbol == s then some ⟨s, r.site⟩ else none

theorem mem_mentionsOf_iff {s : Symbol} {recorded : List Reference} {r : Reference} :
    r ∈ mentionsOf s recorded ↔ ∃ o ∈ recorded, o.symbol == s ∧ ⟨s, o.site⟩ = r := by
  simp [mentionsOf]

theorem find?_mentionsOf {s : Symbol} {recorded : List Reference} {r : Reference}
    (hr : r.symbol = s) :
    (mentionsOf s recorded).find? (· == r) =
      (recorded.find? (· == r)).map fun o => ⟨s, o.site⟩ := by
  have hsame : ∀ o : Reference,
      ((if o.symbol == s then some ⟨s, o.site⟩ else none : Option Reference).any (· == r)) =
        (o == r) := by
    intro o
    rw [Bool.eq_iff_iff, Reference.beq_iff, hr]
    by_cases ho : o.symbol == s
    · simp [ho, Reference.beq_iff, hr]
    · simp [ho]
  rw [mentionsOf, List.find?_filterMap]
  simp only [hsame]
  cases hfound : recorded.find? (· == r) with
  | none => rfl
  | some o =>
    have ho : o == r := by simpa using List.find?_some hfound
    have hs : (o.symbol == s) = true := hr ▸ (Reference.beq_iff.1 ho).1
    simp [hs]

theorem tellsPositions (recorded : List Reference) (s : Symbol) :
    TellsPositions recorded s
      (Ordered.squeeze ((mentionsOf s recorded.reverse).mergeSort Reference.positionLe)) := by
  have hsymbol : ∀ r ∈ mentionsOf s recorded.reverse, r.symbol = s := by
    intro r hr
    obtain ⟨o, -, -, rfl⟩ := mem_mentionsOf_iff.1 hr
    rfl
  have harranges := Reference.arranges_positionLe hsymbol
  have hsub : ∀ r ∈
      Ordered.squeeze ((mentionsOf s recorded.reverse).mergeSort Reference.positionLe),
      r ∈ mentionsOf s recorded.reverse := fun _ => Ordered.mem_of_mem_squeeze_mergeSort
  refine ⟨fun r hr => hsymbol r (hsub r hr), ?_, fun line column => ?_, fun r hr => ?_⟩
  · exact (Ordered.pairwise_squeeze_mergeSort harranges).imp Reference.site_before_of_positionLe
  · constructor
    · rintro ⟨r, hr, rfl, rfl⟩
      obtain ⟨o, ho, hs, rfl⟩ := mem_mentionsOf_iff.1 (hsub r hr)
      exact ⟨o, List.mem_reverse.1 ho, hs, rfl, rfl⟩
    · rintro ⟨o, ho, hs, rfl, rfl⟩
      have hmention : (mentionsOf s recorded.reverse).any (· == ⟨s, o.site⟩) :=
        List.any_eq_true.2 ⟨_, mem_mentionsOf_iff.2 ⟨o, List.mem_reverse.2 ho, hs, rfl⟩, BEq.rfl⟩
      rw [← Ordered.any_squeeze_mergeSort harranges] at hmention
      obtain ⟨r, hr, hro⟩ := List.any_eq_true.1 hmention
      exact ⟨r, hr, (Reference.beq_iff.1 hro).2⟩
  · have hfound := (Ordered.mem_squeeze_mergeSort_iff harranges).1 hr
    rw [find?_mentionsOf (hsymbol r (hsub r hr))] at hfound
    obtain ⟨o, ho, hor⟩ := Option.map_eq_some_iff.1 hfound
    exact lastRoles_iff.2 ⟨o, ho, congrArg (·.site.roles) hor⟩

variable {resolver : Option SourceResolver} {x : Index} {g : SymbolGraph}

theorem valuesOf_mentions_of_build (hg : build resolver x = .ok g) (s : Symbol) (file : String) :
    Ordered.valuesOf (g.mentions s) file = mentionsOf s (occurrencesIn x file).reverse := by
  rw [valuesOf_mentions, recordedIn_eq_reverse hg]
  rfl

theorem exists_references (hg : build resolver x = .ok g) {s : Symbol} (hs : g.hasSymbol s) :
    ∃ found, g.references s = .ok found ∧ found.Pairwise (fun a b => a.1 < b.1) ∧
      (∀ file, file ∈ found.map (·.1) ↔ ∃ o ∈ occurrencesIn x file, o.symbol == s) ∧
      ∀ file told, (file, told) ∈ found → TellsPositions (occurrencesIn x file) s told := by
  let grouped := (Ordered.group (g.mentions s)).map fun e =>
    (e.1, Ordered.squeeze (e.2.mergeSort Reference.positionLe))
  have hgroups := Ordered.groups_group (g.mentions s)
  have hkeys : (grouped.map (·.1)).Nodup := by
    rw [List.map_map]
    exact hgroups.keys
  have hmem : ∀ file told, (file, told) ∈ grouped ↔
      mentionsOf s (occurrencesIn x file).reverse ≠ [] ∧
      told = Ordered.squeeze ((mentionsOf s (occurrencesIn x file).reverse).mergeSort
        Reference.positionLe) := by
    intro file told
    rw [← valuesOf_mentions_of_build hg, List.mem_map]
    constructor
    · rintro ⟨⟨file, values⟩, hvalues, heq⟩
      obtain ⟨rfl, rfl⟩ := Prod.mk.inj heq
      obtain ⟨rfl, hne⟩ := hgroups.mem_iff.1 hvalues
      exact ⟨hne, rfl⟩
    · rintro ⟨hne, rfl⟩
      exact ⟨(file, _), hgroups.mem_iff.2 ⟨rfl, hne⟩, rfl⟩
  have hfound : g.references s = .ok (grouped.mergeSort fun a b => a.1 ≤ b.1) := by
    simp only [references, find, hs, if_true]
    rfl
  refine ⟨_, hfound, Ordered.pairwise_mergeSort_keys_of_nodup hkeys, fun file => ?_,
    fun file told htold => ?_⟩
  · have hmention : mentionsOf s (occurrencesIn x file).reverse ≠ [] ↔
        ∃ o ∈ occurrencesIn x file, o.symbol == s := by
      simp [mentionsOf]
    rw [List.mem_map, ← hmention]
    constructor
    · rintro ⟨⟨file, told⟩, htold, rfl⟩
      exact ((hmem file told).1 (List.mem_mergeSort.1 htold)).1
    · exact fun hne => ⟨(file, _), List.mem_mergeSort.2 ((hmem file _).2 ⟨hne, rfl⟩), rfl⟩
  · obtain ⟨-, rfl⟩ := (hmem file told).1 (List.mem_mergeSort.1 htold)
    exact tellsPositions (occurrencesIn x file) s

/-- A symbol of the graph is told of in every file that mentions it, in ascending order. -/
theorem build_references (resolver : Option SourceResolver) (x : Index) :
    ∃ g, build resolver x = .ok g ∧ ∀ s,
      (g.hasSymbol s = false → g.references s = .error (.symbolNotFound s.uri)) ∧
      (g.hasSymbol s → ∃ found, g.references s = .ok found ∧
        found.Pairwise (fun a b => a.1 < b.1) ∧
        (∀ file, file ∈ found.map (·.1) ↔ ∃ o ∈ occurrencesIn x file, o.symbol == s) ∧
        ∀ file told, (file, told) ∈ found → TellsPositions (occurrencesIn x file) s told) := by
  obtain ⟨g, hg, -⟩ := exists_build resolver x
  refine ⟨g, hg, fun s => ⟨fun hs => ?_, exists_references hg⟩⟩
  simp only [references, find, hs, Bool.false_eq_true, if_false]
  rfl

def repeated : Index where
  documents := [
    { path := "b.py"
      occurrences := [
        { range := [0, 4, 5], symbol := "local f", roles := 1 },
        { range := [2, 0, 1], symbol := "local g" },
        { range := [1, 4, 5], symbol := "local g" }] },
    { path := "a.py", occurrences := [{ range := [1, 4, 5], symbol := "local g", roles := 4 }] },
    { path := "b.py"
      occurrences := [
        { range := [1, 4, 5], symbol := "local g", roles := 8 },
        { range := [1, 4, 5], symbol := "local f" }] }]

def localSymbol (id : String) : Symbol :=
  ⟨"local " ++ id, ⟨"local", ⟨"", "", ""⟩, [⟨id, .localId, none⟩]⟩⟩

theorem occurrencesIn_repeated :
    occurrencesIn repeated "b.py" =
      [⟨localSymbol "f", 0, 4, ⟨1⟩⟩, ⟨localSymbol "g", 2, 0, ⟨0⟩⟩, ⟨localSymbol "g", 1, 4, ⟨0⟩⟩,
        ⟨localSymbol "g", 1, 4, ⟨8⟩⟩, ⟨localSymbol "f", 1, 4, ⟨0⟩⟩] := rfl

theorem build_references_repeated :
    ∃ g found told, build none repeated = .ok g ∧ g.hasSymbol (localSymbol "g") ∧
      g.references (localSymbol "g") = .ok found ∧ ("b.py", told) ∈ found ∧
        (∃ r ∈ told, r.site = ⟨1, 4, ⟨8⟩⟩) ∧
      g.hasSymbol (localSymbol "h") = false ∧
      g.references (localSymbol "h") = .error (.symbolNotFound "local h") := by
  obtain ⟨g, hg, hreferences⟩ := build_references none repeated
  have hknown : g.hasSymbol (localSymbol "g") ∧ g.hasSymbol (localSymbol "h") = false := by
    rw [eq_of_build hg]
    exact ⟨rfl, rfl⟩
  have hmentioned : (⟨localSymbol "g", 1, 4, ⟨8⟩⟩ : Reference) ∈ occurrencesIn repeated "b.py" := by
    rw [occurrencesIn_repeated]
    simp
  obtain ⟨found, hfound, -, hfiles, htold⟩ := (hreferences (localSymbol "g")).2 hknown.1
  obtain ⟨⟨file, told⟩, hmem, rfl⟩ := List.mem_map.1 ((hfiles "b.py").2 ⟨_, hmentioned, BEq.rfl⟩)
  have htells := htold _ told hmem
  obtain ⟨r, hr, hline, hcolumn⟩ := (htells.positions 1 4).2 ⟨_, hmentioned, BEq.rfl, rfl, rfl⟩
  have hsame : r == ⟨localSymbol "g", 1, 4, ⟨8⟩⟩ :=
    Reference.beq_iff.2 ⟨htells.symbol_eq r hr ▸ BEq.rfl, hline, hcolumn⟩
  have hroles : r.site.roles = ⟨8⟩ := (htells.roles r hr).roles_eq hsame rfl
  have hsite : r.site = ⟨1, 4, ⟨8⟩⟩ := by rw [← hline, ← hcolumn, ← hroles]
  exact ⟨g, found, told, hg, hknown.1, hfound, hmem, ⟨r, hr, hsite⟩, hknown.2,
    (hreferences (localSymbol "h")).1 hknown.2⟩

end SymbolGraph
end CodeAtlas
