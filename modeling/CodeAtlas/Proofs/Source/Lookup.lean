import CodeAtlas.Proofs.Source.Block
import CodeAtlas.Proofs.Source.Texts

/-! Definitions and their sources. The last definition of a symbol in an index gives its span, which
does not end before it starts, and the text of its module gives the lines. -/

namespace CodeAtlas

open Source (IsBlock)

/-! ### Ranges -/

namespace SourceRange
variable {raw : List Int32} {r : SourceRange}

/-- How ranges are recorded: with three numbers on one line, else with four. They do not end before
they start. -/
structure IsRange (raw : List Int32) (r : SourceRange) : Prop where
  ordered : r.Ordered
  numbers : raw.map Int32.toInt = [(r.startLine : Int), r.startColumn, r.endColumn] ∧
    r.endLine = r.startLine ∨
    raw.map Int32.toInt = [(r.startLine : Int), r.startColumn, r.endLine, r.endColumn]

theorem IsRange.startLine_le (h : IsRange raw r) : r.startLine ≤ r.endLine := by
  rcases h.ordered with hlt | ⟨heq, -⟩
  · exact Nat.le_of_lt hlt
  · exact Nat.le_of_eq heq

theorem ofRaw?_eq_some_iff : ofRaw? raw = some r ↔ IsRange raw r := by
  constructor
  · intro h
    simp only [ofRaw?] at h
    split at h
    · cases h
    · rename_i hnegative
      obtain ⟨hshape, hordered⟩ := Option.filter_eq_some_iff.1 h
      have hcast : raw.map Int32.toInt = ((raw.map Int32.toInt).map Int.toNat).map Nat.cast := by
        rw [List.map_map]
        refine ((List.map_congr_left fun n hn => ?_).trans (List.map_id _)).symm
        have hpositive : ¬n < 0 :=
          fun hlt => hnegative (List.any_eq_true.2 ⟨n, hn, decide_eq_true hlt⟩)
        exact Int.toNat_of_nonneg (Int.not_lt.1 hpositive)
      refine ⟨by simpa using hordered, ?_⟩
      rw [hcast]
      split at hshape
      · rename_i hnumbers
        obtain rfl := Option.some.inj hshape
        exact .inl ⟨by rw [hnumbers]; rfl, rfl⟩
      · rename_i hnumbers
        obtain rfl := Option.some.inj hshape
        exact .inr (by rw [hnumbers]; rfl)
      · cases hshape
  · obtain ⟨startLine, startColumn, endLine, endColumn⟩ := r
    rintro ⟨hordered, ⟨hnumbers, hend⟩ | hnumbers⟩
    · obtain rfl : endLine = startLine := hend
      simp [ofRaw?, hnumbers, Option.filter, hordered]
    · simp [ofRaw?, hnumbers, Option.filter, hordered]

theorem ofRaw?_eq_none_iff : ofRaw? raw = none ↔ ∀ r, ¬IsRange raw r := by
  rw [Option.eq_none_iff_forall_ne_some]
  simp only [← ofRaw?_eq_some_iff, ne_eq]

end SourceRange

open SourceRange (IsRange)

/-! ### Definitions -/

structure Occurrence.Defines (o : Occurrence) (uri : String) (r : SourceRange) : Prop where
  symbol_eq : o.symbol = uri
  role : (Roles.ofRaw o.roles).isDefinition
  isRange : IsRange o.range r

def Index.occurrences (x : Index) : List (Document × Occurrence) :=
  x.documents.flatMap fun d => d.occurrences.map fun o => (d, o)

structure Index.LastDefinition (x : Index) (uri : String) (d : Document) (o : Occurrence)
    (r : SourceRange) : Prop where
  defines : o.Defines uri r
  last : IsLast (fun c : Document × Occurrence => ∃ r, c.2.Defines uri r) x.occurrences (d, o)

namespace SourceIndex

theorem definition?_eq_some_iff {path uri : String} {o : Occurrence} {site : DefinitionSite} :
    definition? path o = some (uri, site) ↔
      ∃ r, o.Defines uri r ∧ site = ⟨path, r, SourceRange.ofRaw? o.enclosingRange⟩ := by
  rw [definition?]
  constructor
  · intro h
    split at h
    · rename_i hrole
      obtain ⟨r, hr, heq⟩ := Option.map_eq_some_iff.1 h
      obtain ⟨rfl, rfl⟩ := Prod.mk.inj heq
      exact ⟨r, ⟨rfl, hrole, SourceRange.ofRaw?_eq_some_iff.1 hr⟩, rfl⟩
    · cases h
  · rintro ⟨r, ⟨rfl, hrole, hr⟩, rfl⟩
    rw [if_pos hrole, SourceRange.ofRaw?_eq_some_iff.2 hr, Option.map_some]

theorem site?_build (textOf : Document → Option String) (x : Index) (uri : String) :
    (build textOf x).site? uri =
      x.occurrences.reverse.findSome? fun c => (definition? c.1.path c.2).bind fun e =>
      if uri == e.1 then some e.2 else none := by
  have hdefinitions : (x.documents.flatMap fun d => d.occurrences.filterMap (definition? d.path)) =
      x.occurrences.filterMap fun c => definition? c.1.path c.2 := by
    rw [Index.occurrences, List.filterMap_flatMap]
    simp only [List.filterMap_map, Function.comp_def]
  rw [site?, build, hdefinitions, Ordered.lookup_reverse_filterMap]

section
variable {textOf : Document → Option String} {x : Index} {uri : String} {site : DefinitionSite}

theorem bind_definition?_eq_some_iff {c : Document × Occurrence} :
    ((definition? c.1.path c.2).bind fun e => if uri == e.1 then some e.2 else none) = some site ↔
      ∃ r, c.2.Defines uri r ∧ site = ⟨c.1.path, r, SourceRange.ofRaw? c.2.enclosingRange⟩ := by
  rw [← definition?_eq_some_iff, Option.bind_eq_some_iff]
  constructor
  · rintro ⟨e, he, hsite⟩
    split at hsite
    · rename_i huri
      rw [he, ← Option.some.inj hsite, eq_of_beq huri]
    · cases hsite
  · exact fun h => ⟨_, h, by simp⟩

theorem isSome_bind_definition?_iff {c : Document × Occurrence} :
    ((definition? c.1.path c.2).bind fun e => if uri == e.1 then some e.2 else none).isSome ↔
      ∃ r, c.2.Defines uri r := by
  simp only [Option.isSome_iff_exists, bind_definition?_eq_some_iff]
  exact ⟨fun ⟨_, r, hr, _⟩ => ⟨r, hr⟩, fun ⟨r, hr⟩ => ⟨_, r, hr, rfl⟩⟩

theorem site?_build_eq_some_iff : (build textOf x).site? uri = some site ↔
    ∃ d o r, x.LastDefinition uri d o r ∧
      site = ⟨d.path, r, SourceRange.ofRaw? o.enclosingRange⟩ := by
  rw [site?_build, findSome?_reverse_eq_some_iff]
  simp only [bind_definition?_eq_some_iff, isSome_bind_definition?_iff]
  constructor
  · rintro ⟨⟨d, o⟩, ⟨r, hr, rfl⟩, hlast⟩
    exact ⟨d, o, r, ⟨hr, hlast⟩, rfl⟩
  · rintro ⟨d, o, r, ⟨hr, hlast⟩, rfl⟩
    exact ⟨(d, o), ⟨r, hr, rfl⟩, hlast⟩

theorem site?_build_eq_none_iff :
    (build textOf x).site? uri = none ↔ ∀ c ∈ x.occurrences, ∀ r, ¬c.2.Defines uri r := by
  rw [site?_build, List.findSome?_eq_none_iff]
  simp only [List.mem_reverse, ← Option.not_isSome_iff_eq_none, isSome_bind_definition?_iff,
    not_exists]

end

/-! ### Spans -/

/-- The span of a definition, given the texts of its module: the enclosing range, else the block of
its first line, else its own range. -/
inductive IsSpan (HasText : String → Prop) (d : Document) (o : Occurrence) (r : SourceRange) :
    SourceSpan → Prop where
  | enclosing {e : SourceRange} (h : IsRange o.enclosingRange e) :
      IsSpan HasText d o r ⟨d.path, e.startLine, e.startColumn, e.endLine⟩
  | block {text : String} {base last : Nat} (h : ∀ e, ¬IsRange o.enclosingRange e)
      (htext : HasText text)
      (hblock : IsBlock (Text.lines text.toList) r.startLine base last) :
      IsSpan HasText d o r ⟨d.path, r.startLine, Source.narrow base,
        max (Source.narrow last) r.endLine⟩
  | own (h : ∀ e, ¬IsRange o.enclosingRange e)
      (hshort : ∀ text, HasText text → (Text.lines text.toList).length ≤ r.startLine) :
      IsSpan HasText d o r ⟨d.path, r.startLine, r.startColumn, r.endLine⟩

variable {d : Document} {o : Occurrence} {r : SourceRange} {span : SourceSpan}

theorem IsSpan.startLine_le {HasText : String → Prop} (h : IsSpan HasText d o r span)
    (hr : r.startLine ≤ r.endLine) :
    span.startLine ≤ span.endLine := by
  cases h with
  | enclosing h => exact h.startLine_le
  | block => exact Nat.le_trans hr (Nat.le_max_right _ _)
  | own => exact hr

theorem spanOf_eq_of_isSpan {s : SourceIndex}
    (h : IsSpan (fun text => s.text? d.path = some text) d o r span) :
    s.spanOf ⟨d.path, r, SourceRange.ofRaw? o.enclosingRange⟩ = span := by
  cases h with
  | enclosing h => rw [spanOf, SourceRange.ofRaw?_eq_some_iff.2 h]
  | block h htext hblock =>
    simp only [spanOf, SourceRange.ofRaw?_eq_none_iff.2 h, htext, Option.bind_some,
      hblock.indentationBlock_eq]
  | own h hshort =>
    have hblock : ((s.text? d.path).bind fun text =>
        Source.indentationBlock (Text.lines text.toList) r.startLine) = none := by
      rw [Option.bind_eq_none_iff]
      exact fun text htext => Source.indentationBlock_eq_none_iff.2 (hshort text htext)
    simp only [spanOf, SourceRange.ofRaw?_eq_none_iff.2 h, hblock]

theorem exists_isSpan (s : SourceIndex) (d : Document) (o : Occurrence) (r : SourceRange) :
    ∃ span, IsSpan (fun text => s.text? d.path = some text) d o r span := by
  by_cases h : ∃ e, IsRange o.enclosingRange e
  · obtain ⟨e, he⟩ := h
    exact ⟨_, .enclosing he⟩
  · rw [not_exists] at h
    by_cases hline : ∃ text, s.text? d.path = some text ∧
      r.startLine < (Text.lines text.toList).length
    · obtain ⟨text, htext, hlt⟩ := hline
      exact ⟨_, .block h htext (Source.isBlock_of_getElem? (List.getElem?_eq_getElem hlt))⟩
    · refine ⟨_, .own h fun text htext => Nat.not_lt.1 fun hlt => hline ⟨text, htext, hlt⟩⟩

theorem spanOf_eq_iff {s : SourceIndex} :
    s.spanOf ⟨d.path, r, SourceRange.ofRaw? o.enclosingRange⟩ = span ↔
    IsSpan (fun text => s.text? d.path = some text) d o r span := by
  constructor
  · rintro rfl
    obtain ⟨span, hspan⟩ := exists_isSpan s d o r
    rwa [spanOf_eq_of_isSpan hspan]
  · exact spanOf_eq_of_isSpan

/-! ### Lines -/

/-- The lines from `first` to `last`, as far as they are there, joined by line feeds. -/
structure IsExcerpt (lines : List (List Char)) (first last : Nat) (text : String) : Prop where
  joined : ∃ taken : List (List Char), text.toList = ['\n'].intercalate taken ∧
    taken.length = min (last + 1) lines.length - first ∧ ∀ i, i < taken.length →
      taken[i]? = lines[first + i]?
  empty : lines.length ≤ first → text = ""

theorem isExcerpt_excerpt (text : String) {first last : Nat} (h : first ≤ last) :
    IsExcerpt (Text.lines text.toList) first last (excerpt text first (last - first)) := by
  have hjoined : (excerpt text first (last - first)).toList =
      ['\n'].intercalate (((Text.lines text.toList).drop first).take (last - first + 1)) :=
        String.toList_ofList
  refine ⟨⟨_, hjoined, ?_, ?_⟩, ?_⟩
  · rw [List.length_take, List.length_drop]
    omega
  · intro i hi
    rw [List.length_take] at hi
    rw [List.getElem?_take_of_lt (by omega), List.getElem?_drop]
  · intro hshort
    rw [← String.toList_inj, hjoined, List.drop_eq_nil_of_le hshort, List.take_nil]
    rfl

variable {s : SourceIndex} {symbol : Symbol}

theorem source?_of_span? (h : s.span? symbol = some span) (hle : span.startLine ≤ span.endLine) :
    s.source? symbol = (s.text? span.path).map fun text =>
      ⟨span, excerpt text span.startLine (span.endLine - span.startLine)⟩ := by
  have hheight : span.height? = some (span.endLine - span.startLine) := if_pos hle
  rw [source?, h]
  cases htext : s.text? span.path with
  | none => simp [htext]
  | some text => simp [htext, hheight]

section
variable {tree : FileTree} {root : Option String} {x : Index}

theorem span?_eq_some_iff : (build (textIn? tree root) x).span? symbol = some span ↔
    ∃ d o r, x.LastDefinition symbol.uri d o r ∧
      IsSpan (x.ModuleText tree root d.path) d o r span := by
  have htexts (path : String) : (fun text => (build (textIn? tree root) x).text? path = some text) =
      x.ModuleText tree root path := by
    funext text
    exact propext text?_build_eq_some_iff
  rw [span?, Option.map_eq_some_iff]
  constructor
  · rintro ⟨site, hsite, hspan⟩
    obtain ⟨d, o, r, hlast, rfl⟩ := site?_build_eq_some_iff.1 hsite
    rw [spanOf_eq_iff, htexts] at hspan
    exact ⟨d, o, r, hlast, hspan⟩
  · rintro ⟨d, o, r, hlast, hspan⟩
    refine ⟨_, site?_build_eq_some_iff.2 ⟨d, o, r, hlast, rfl⟩, ?_⟩
    rwa [spanOf_eq_iff, htexts]

theorem startLine_le_of_span? (h : (build (textIn? tree root) x).span? symbol = some span) :
    span.startLine ≤ span.endLine := by
  obtain ⟨d, o, r, hlast, hspan⟩ := span?_eq_some_iff.1 h
  exact hspan.startLine_le hlast.defines.isRange.startLine_le

theorem source?_eq_none_iff : (build (textIn? tree root) x).source? symbol = none ↔
    (∀ c ∈ x.occurrences, ∀ r, ¬c.2.Defines symbol.uri r) ∨
      ∃ d o r, x.LastDefinition symbol.uri d o r ∧ ∀ text, ¬x.ModuleText tree root d.path text := by
  have hnone := @site?_build_eq_none_iff (textIn? tree root) x symbol.uri
  rw [← hnone]
  cases hsite : (build (textIn? tree root) x).site? symbol.uri with
  | none =>
    have hspan : (build (textIn? tree root) x).span? symbol = none := by
      rw [span?, hsite, Option.map_none]
    simp [source?, hspan]
  | some site =>
    have hspan : (build (textIn? tree root) x).span? symbol =
        some ((build (textIn? tree root) x).spanOf site) := by
      rw [span?, hsite, Option.map_some]
    rw [source?_of_span? hspan (startLine_le_of_span? hspan), Option.map_eq_none_iff, spanOf_path,
      Option.eq_none_iff_forall_ne_some]
    simp only [ne_eq, text?_build_eq_some_iff, reduceCtorEq, false_or]
    constructor
    · intro htext
      obtain ⟨d, o, r, hlast, rfl⟩ := site?_build_eq_some_iff.1 hsite
      exact ⟨d, o, r, hlast, htext⟩
    · rintro ⟨d, o, r, hlast, htext⟩
      have hother := hsite.symm.trans (site?_build_eq_some_iff.2 ⟨d, o, r, hlast, rfl⟩)
      rwa [Option.some.inj hother]

theorem isExcerpt_of_source? {source : SymbolSource}
    (h : (build (textIn? tree root) x).source? symbol = some source) :
    (build (textIn? tree root) x).span? symbol = some source.span ∧
      ∃ text, x.ModuleText tree root source.span.path text ∧
        IsExcerpt (Text.lines text.toList) source.span.startLine source.span.endLine
          source.text := by
  obtain ⟨span, hspan, -⟩ := Option.bind_eq_some_iff.1 h
  have hle := startLine_le_of_span? hspan
  rw [source?_of_span? hspan hle] at h
  obtain ⟨text, htext, rfl⟩ := Option.map_eq_some_iff.1 h
  exact ⟨hspan, text, text?_build_eq_some_iff.1 htext, isExcerpt_excerpt text hle⟩

end

/-- The answers of a loaded source index. The span of a symbol is that of its last definition and
does not end before it starts. There is a source wherever that definition has a module text, and it
holds the lines of the span. -/
theorem load_answers (tree : FileTree) (root : Option String) (x : Index) (symbol : Symbol) :
    ∃ s : SourceIndex, (load root x : StateM FileTree SourceIndex).run tree = (s, tree) ∧
      (∃ span?, s.resolver.span symbol = .ok span?) ∧
        (∃ source?, s.resolver.source symbol = .ok source?) ∧
      (∀ span, s.resolver.span symbol = .ok (some span) ↔
        ∃ d o r, x.LastDefinition symbol.uri d o r ∧
          IsSpan (x.ModuleText tree root d.path) d o r span) ∧
      (∀ span, s.resolver.span symbol = .ok (some span) → span.startLine ≤ span.endLine) ∧
      (s.resolver.source symbol = .ok none ↔
        (∀ c ∈ x.occurrences, ∀ r, ¬c.2.Defines symbol.uri r) ∨
          ∃ d o r, x.LastDefinition symbol.uri d o r ∧
            ∀ text, ¬x.ModuleText tree root d.path text) ∧
      ∀ source, s.resolver.source symbol = .ok (some source) →
        s.resolver.span symbol = .ok (some source.span) ∧
          ∃ text, x.ModuleText tree root source.span.path text ∧
            IsExcerpt (Text.lines text.toList) source.span.startLine source.span.endLine
              source.text := by
  refine ⟨_, load_run tree root x, ⟨_, rfl⟩, ⟨_, rfl⟩, fun span => ?_, fun span hspan => ?_, ?_,
    fun source hsource => ?_⟩
  · rw [← span?_eq_some_iff]
    exact ⟨Except.ok.inj, congrArg Except.ok⟩
  · exact startLine_le_of_span? (Except.ok.inj hspan)
  · rw [← source?_eq_none_iff]
    exact ⟨Except.ok.inj, congrArg Except.ok⟩
  · obtain ⟨hspan, hexcerpt⟩ := isExcerpt_of_source? (Except.ok.inj hsource)
    exact ⟨congrArg Except.ok hspan, hexcerpt⟩

end SourceIndex
end CodeAtlas
