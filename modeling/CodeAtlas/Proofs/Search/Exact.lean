import CodeAtlas.Proofs.Repetitions
import CodeAtlas.Proofs.Text.Lines
import CodeAtlas.Search.Engine

/-! Searching for a text as it stands. The lines that are listed are those at which the text starts
somewhere in the undivided module, however its lines end. -/

namespace CodeAtlas.SearchEngine

open Text (OccursAfter)

variable {m : Type → Type} {α κ : Type}

/-! ### One module -/

section
variable {pattern text : List Char} {k : Nat}

theorem mem_matchingLines_iff : k ∈ matchingLines pattern text ↔
    ∃ j, k = j + 1 ∧ ∃ line, (Text.lines text)[j]? = some line ∧ pattern <:+: line := by
  rw [matchingLines, List.mem_map]
  constructor
  · rintro ⟨⟨line, j⟩, hmem, rfl⟩
    obtain ⟨hline, hfound⟩ := List.mem_filter.1 hmem
    exact ⟨j, rfl, line, List.mk_mem_zipIdx_iff_getElem?.1 hline, Text.contains_iff.1 hfound⟩
  · rintro ⟨j, rfl, line, hline, hfound⟩
    refine ⟨(line, j), List.mem_filter.2 ⟨?_, Text.contains_iff.2 hfound⟩, rfl⟩
    exact List.mk_mem_zipIdx_iff_getElem?.2 hline

theorem pairwise_matchingLines (pattern text : List Char) :
    (matchingLines pattern text).Pairwise (· < ·) := by
  rw [matchingLines, List.pairwise_map]
  refine ((pairwise_zipIdx (Text.lines text)).imp fun h => ?_).sublist List.filter_sublist
  exact Nat.succ_lt_succ h

theorem mem_matchingLines_iff_occurs (hne : pattern ≠ []) (hreturn : '\r' ∉ pattern)
    (hnewline : '\n' ∉ pattern) :
    k ∈ matchingLines pattern text ↔ ∃ j, k = j + 1 ∧ OccursAfter pattern text j := by
  simp only [mem_matchingLines_iff, Text.exists_line_iff hne hreturn hnewline]

theorem matchingLines_of_newline (h : '\n' ∈ pattern) : matchingLines pattern text = [] := by
  rw [List.eq_nil_iff_forall_not_mem]
  intro k hk
  obtain ⟨j, -, line, hline, hfound⟩ := mem_matchingLines_iff.1 hk
  exact Text.newline_notMem_lines text line (List.mem_of_getElem? hline) (hfound.subset h)

theorem matchingLines_eq_nil_iff (hne : pattern ≠ []) (hreturn : '\r' ∉ pattern)
    (hnewline : '\n' ∉ pattern) :
    matchingLines pattern text = [] ↔ ¬pattern <:+: text := by
  rw [List.eq_nil_iff_forall_not_mem]
  simp only [mem_matchingLines_iff_occurs hne hreturn hnewline]
  constructor
  · rintro hnone ⟨before, after, rfl⟩
    exact hnone _ ⟨_, rfl, before, after, List.append_assoc _ _ _, rfl⟩
  · rintro hnot k ⟨j, -, before, after, rfl, -⟩
    exact hnot ⟨before, after, List.append_assoc _ _ _⟩

end

/-! ### All modules -/

/-- What is found of a pattern in a module: the numbers of all lines, from one, that it
starts on. -/
structure Locates (pattern : String) (source : String × String) (found : String × List Nat) :
    Prop where
  path_eq : found.1 = source.1
  increasing : found.2.Pairwise (· < ·)
  mem_iff : ∀ k, k ∈ found.2 ↔ ∃ j, k = j + 1 ∧ OccursAfter pattern.toList source.2.toList j

theorem exactSearch_eq (e : SearchEngine m α κ) {pattern : String} (h : pattern ≠ "") :
    e.exactSearch pattern = .ok (Ordered.ofPairs (hits pattern e.navigator.resolver.modules)) := by
  rw [exactSearch, if_neg (by simpa using h)]

theorem hits_of_newline {pattern : String} (h : '\n' ∈ pattern.toList)
    (modules : List (String × String)) :
    hits pattern modules = [] := by
  simp only [hits, matchingLines_of_newline h, List.filterMap_none]

theorem paths_hits_sublist (pattern : String) (modules : List (String × String)) :
    ((hits pattern modules).map (·.1)).Sublist (modules.map (·.1)) := by
  induction modules with
  | nil => exact .slnil
  | cons source rest ih =>
    obtain ⟨path, text⟩ := source
    simp only [hits, List.filterMap_cons]
    cases matchingLines pattern.toList text.toList with
    | nil => exact ih.cons path
    | cons k lines => exact ih.cons_cons path

theorem locates_hits {pattern : String} (hpattern : pattern ≠ "") (hreturn : '\r' ∉ pattern.toList)
    (hnewline : '\n' ∉ pattern.toList) (modules : List (String × String)) :
    List.Forall₂ (Locates pattern) (modules.filter fun source =>
      pattern.toList <:+: source.2.toList)
      (hits pattern modules) := by
  have hne : pattern.toList ≠ [] := by simpa using hpattern
  induction modules with
  | nil => exact .nil
  | cons source rest ih =>
    obtain ⟨path, text⟩ := source
    simp only [hits, List.filter_cons, List.filterMap_cons]
    cases hlines : matchingLines pattern.toList text.toList with
    | nil =>
      have hnot := (matchingLines_eq_nil_iff hne hreturn hnewline).1 hlines
      rw [if_neg (by simpa using hnot)]
      exact ih
    | cons k lines =>
      have hfound : pattern.toList <:+: text.toList := by
        by_contra hnot
        simp [(matchingLines_eq_nil_iff hne hreturn hnewline).2 hnot] at hlines
      rw [if_pos (decide_eq_true hfound)]
      refine .cons ⟨rfl, ?_, ?_⟩ ih
      · exact hlines ▸ pairwise_matchingLines _ _
      · exact hlines ▸ fun k => mem_matchingLines_iff_occurs hne hreturn hnewline

/-- A pattern without line ends is found in the modules that contain it, in their order, on the
lines that it starts on; and so it is listed, as no two modules of an index have one path. Of
modules with one path the last counts. No other pattern is found across lines, and there is no
search for nothing. -/
theorem exactSearch_exact (e : SearchEngine m α κ) :
    (∀ (textOf : Document → Option String) (x : Index),
      ((SourceIndex.build textOf x).modules.map (·.1)).Nodup) ∧
      e.exactSearch "" = .error (.query .noPattern) ∧
      ∀ pattern, pattern ≠ "" →
        ('\n' ∈ pattern.toList → e.exactSearch pattern = .ok []) ∧
        ('\n' ∉ pattern.toList → '\r' ∉ pattern.toList → ∃ hits found,
          List.Forall₂ (Locates pattern)
            (e.navigator.resolver.modules.filter fun source =>
              pattern.toList <:+: source.2.toList) hits ∧
          e.exactSearch pattern = .ok found ∧ Ordered.KeepsLast hits found ∧
          ((e.navigator.resolver.modules.map (·.1)).Nodup → found = hits)) := by
  refine ⟨fun textOf x => ?_, rfl, fun pattern hpattern => ⟨fun hnewline => ?_,
    fun hnewline hreturn => ?_⟩⟩
  · rw [SourceIndex.build, (Ordered.keepsLast_ofPairs _).keys]
    exact nodup_eraseDups _
  · rw [exactSearch_eq e hpattern, hits_of_newline hnewline]
    rfl
  · refine ⟨_, _, locates_hits hpattern hreturn hnewline _, exactSearch_eq e hpattern,
      Ordered.keepsLast_ofPairs _, fun hpaths => Ordered.ofPairs_eq_self ?_⟩
    have hdistinct := List.pairwise_map.1 (hpaths.sublist (paths_hits_sublist pattern _))
    exact hdistinct.imp fun hne => by simpa using hne

def listedModules : List (String × String) :=
  [("a.py", "b b\r\na\n\nbb"), ("b.py", "a\n"), ("c.py", "ab\n")]

def listingEngine : SearchEngine (StateM Nat) Float Nat where
  navigator := ⟨{}, SourceIndex.resolver ⟨listedModules, []⟩⟩
  rankConfig := .standard
  provider.vector _ := return .ok []
  provider.batch texts := return .ok (texts.map fun _ => [])
  norm := .l2
  widen := Float.ofNat
  power := 2

theorem exactSearch_listedModules :
    listingEngine.exactSearch "b" = .ok [("a.py", [1, 4]), ("c.py", [1])] ∧
      List.Forall₂ (Locates "b") [("a.py", "b b\r\na\n\nbb"), ("c.py", "ab\n")]
        [("a.py", [1, 4]), ("c.py", [1])] ∧
      listingEngine.exactSearch "b\n" = .ok [] := by
  have hsearch : listingEngine.exactSearch "b" = .ok [("a.py", [1, 4]), ("c.py", [1])] := by rfl
  obtain ⟨-, -, hlists⟩ := exactSearch_exact listingEngine
  obtain ⟨hits, found, hlocates, hfound, -, hall⟩ :=
    (hlists "b" (by decide)).2 (by decide) (by decide)
  obtain rfl := hall (by decide)
  obtain rfl := Except.ok.inj (hsearch.symm.trans hfound)
  exact ⟨hsearch, hlocates, (hlists "b\n" (by decide)).1 (by decide)⟩

end CodeAtlas.SearchEngine
