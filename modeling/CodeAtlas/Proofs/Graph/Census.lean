import CodeAtlas.Proofs.Graph.Known
import CodeAtlas.Proofs.Graph.Order
import Mathlib.Data.Finset.Card

/-! How much a finished graph holds. Files, symbols and definitions are counted once however often
the index repeats them, and references and relationships as often as it does. -/

namespace CodeAtlas.SymbolGraph

theorem length_eq_card_toFinset {l l' : List String} (hl : l.Nodup) (hmem : ∀ a, a ∈ l ↔ a ∈ l') :
    l.length = l'.toFinset.card := by
  have hsame : l.toFinset = l'.toFinset := by
    ext a
    rw [List.mem_toFinset, List.mem_toFinset, hmem]
  rw [← hsame, List.toFinset_card_of_nodup hl]

variable {resolver : Option SourceResolver} {x : Index} {g : SymbolGraph}

/-! ### Files -/

theorem nodup_files_addFile (hg : g.files.Nodup) (path : String) :
    (g.addFile path).files.Nodup := by
  unfold addFile
  split
  · exact hg
  · rename_i hnew
    rw [← List.concat_eq_append]
    exact hg.concat (by simpa using hnew)

theorem mem_files_addFile_iff {path file : String} :
    file ∈ (g.addFile path).files ↔ file ∈ g.files ∨ file = path := by
  unfold addFile
  split
  · rename_i hknown
    have hpath : path ∈ g.files := by simpa using hknown
    exact ⟨.inl, fun h => h.elim id fun hfile => hfile ▸ hpath⟩
  · simp

theorem foldl_addDocument_files (ds : List Document) (hg : g.files.Nodup) :
    (ds.foldl (addDocument resolver) g).files.Nodup ∧ ∀ file,
      file ∈ (ds.foldl (addDocument resolver) g).files ↔ file ∈ g.files ∨
        file ∈ ds.map (·.path) := by
  induction ds generalizing g with
  | nil => exact ⟨hg, by simp⟩
  | cons d ds ih =>
    have hadded : (addDocument resolver g d).files.Nodup := by
      rw [files_addDocument]
      exact nodup_files_addFile hg d.path
    obtain ⟨hdistinct, hmem⟩ := ih hadded
    refine ⟨hdistinct, fun file => ?_⟩
    rw [List.foldl_cons, hmem, files_addDocument, mem_files_addFile_iff, List.map_cons,
      List.mem_cons, or_assoc]

theorem length_files (hg : build resolver x = .ok g) :
    g.files.length = (x.documents.map (·.path)).toFinset.card := by
  have hempty : ({} : SymbolGraph).files.Nodup := List.nodup_nil
  obtain ⟨hdistinct, hmem⟩ := foldl_addDocument_files x.documents hempty
  rw [eq_of_build hg, foldl_keeps files_addInformation]
  exact length_eq_card_toFinset hdistinct (by simpa using hmem)

/-! ### Symbols and their definitions -/

theorem length_symbols (hg : build resolver x = .ok g) :
    g.symbols.length = ((namesOf x).map (·.uri)).toFinset.card := by
  have hlisted : ∀ uri, uri ∈ g.symbols.map (·.uri) ↔ uri ∈ (namesOf x).map (·.uri) := by
    intro uri
    simp only [List.mem_map, mem_symbols_iff hg]
  rw [← List.length_map (·.uri)]
  exact length_eq_card_toFinset (Lists.of_build hg).distinct hlisted

theorem count_picked_definedUri? (hg : build resolver x = .ok g) (uri : String) :
    (g.picked Link.definedUri?).count uri = if (homesOf x).any (·.1.uri == uri) then 1 else 0 := by
  -- how often a uri is defined is asked by a symbol, of which only the uri counts
  let s : Symbol := ⟨uri, ⟨"", {}, []⟩⟩
  have hcount : (g.picked Link.definedUri?).count s.uri =
      if (homesOf x).any (·.1 == s) then 1 else 0 := by
    rw [count_definedUri?, (Tracks.of_build hg).definitionCount_eq]
  exact hcount

theorem count_isContains (hg : build resolver x = .ok g) : g.count Link.isContains =
    ((x.documents.flatMap fun d => declared d ++ defined d).map (·.uri)).toFinset.card := by
  have hsome : ∀ l : Link, l.isContains = (Link.definedUri? l).isSome := by
    intro l
    cases l <;> rfl
  have hdistinct : (g.picked Link.definedUri?).Nodup := by
    refine List.nodup_iff_count_le_one.2 fun uri => ?_
    rw [count_picked_definedUri? hg]
    split <;> simp
  have hhomes : (homesOf x).map (·.1) = x.documents.flatMap fun d => declared d ++ defined d := by
    simp [homesOf, homesIn, List.map_flatMap, Function.comp_def]
  rw [count_eq_length_picked _ g hsome, ← hhomes]
  refine length_eq_card_toFinset hdistinct fun uri => ?_
  rw [← List.count_pos_iff, count_picked_definedUri? hg]
  cases hhome : (homesOf x).any (·.1.uri == uri) with
  | true => simpa using hhome
  | false => simpa using hhome

/-! ### References and relationships -/

theorem isSome_referenceOf? (o : Occurrence) :
    (referenceOf? o).isSome =
      ((symbol? o.symbol).isSome && (SourceRange.ofRaw? o.range).isSome) := by
  unfold referenceOf?
  cases symbol? o.symbol <;> cases SourceRange.ofRaw? o.range <;> rfl

theorem countP_isReference_informations (is : List SymbolInformation) :
    (is.flatMap informationLinks).countP Link.isReference = 0 := by
  refine List.countP_eq_zero.2 fun l hl => ?_
  obtain ⟨s, target, kinds, rfl⟩ := eq_relationship_of_mem_informations hl
  exact Bool.false_ne_true

theorem countP_isReference_documentLinks (d : Document) :
    (documentLinks d).countP Link.isReference =
    d.occurrences.countP fun o => (symbol? o.symbol).isSome &&
      (SourceRange.ofRaw? o.range).isSome := by
  have hall : ((referencesOf d).map fun r =>
      Link.reference r.symbol d.path r.site).countP Link.isReference =
      (referencesOf d).length := by
    rw [List.countP_map, List.countP_eq_length]
    exact fun _ _ => rfl
  rw [documentLinks, List.countP_append, countP_isReference_informations, Nat.zero_add, hall,
    referencesOf, List.length_filterMap_eq_countP]
  simp only [isSome_referenceOf?]

theorem count_isReference (hg : build resolver x = .ok g) : g.count Link.isReference =
    (x.documents.flatMap (·.occurrences)).countP fun o =>
      (symbol? o.symbol).isSome && (SourceRange.ofRaw? o.range).isSome := by
  rw [count_eq_length_picked (Option.guard Link.isReference) g fun l => Option.isSome_guard.symm,
    picked_of_build hg (fun _ _ => rfl) (fun _ _ _ => rfl) (fun _ _ _ => rfl), List.length_reverse,
    List.filterMap_eq_filter, ← List.countP_eq_length_filter, List.countP_append,
    countP_isReference_informations, Nat.add_zero, List.countP_flatMap, List.countP_flatMap]
  simp only [Function.comp_def, countP_isReference_documentLinks]

theorem length_informationLinks (i : SymbolInformation) : (informationLinks i).length =
    if (symbol? i.symbol).isSome then i.relationships.countP fun r => (symbol? r.symbol).isSome
      else 0 := by
  unfold informationLinks
  cases symbol? i.symbol with
  | none => rfl
  | some s => simp [List.length_filterMap_eq_countP, relationshipLink?]

theorem count_isRelationship (hg : build resolver x = .ok g) : g.count Link.isRelationship =
    (((informationsOf x).filter fun i =>
      (symbol? i.symbol).isSome).flatMap (·.relationships)).countP fun r =>
      (symbol? r.symbol).isSome := by
  have hall : ∀ l ∈ (informationsOf x).flatMap informationLinks, l.isRelationship := by
    intro l hl
    obtain ⟨s, target, kinds, rfl⟩ := eq_relationship_of_mem_informations hl
    rfl
  rw [count_eq_length_picked (Option.guard Link.isRelationship) g fun l => Option.isSome_guard.symm,
    picked_relationships_of_build hg (fun l hl => by simp [Option.guard, hl]), List.length_reverse,
    List.filterMap_eq_filter, List.filter_eq_self.2 hall]
  induction informationsOf x with
  | nil => rfl
  | cons i is ih =>
    rw [List.flatMap_cons, List.length_append, length_informationLinks, ih, List.filter_cons]
    split
    · rw [List.flatMap_cons, List.countP_append]
    · exact Nat.zero_add _

/-! ### All links -/

theorem length_links (g : SymbolGraph) : g.count Link.isContains + g.count Link.isRelationship +
    g.count Link.isReference + (g.count Link.isCaller + g.count Link.isCallee) =
      g.links.length := by
  unfold count
  induction g.links with
  | nil => rfl
  | cons e links ih =>
    obtain ⟨slot, l⟩ := e
    -- a link is of one kind
    cases l <;>
      simp [Link.isContains, Link.isRelationship, Link.isReference, Link.isCaller,
        Link.isCallee] at ih ⊢ <;> omega

theorem count_isCallee (hg : build resolver x = .ok g) :
    g.count Link.isCallee = g.count Link.isCaller := by
  have hcaller : ∀ l, Link.isCaller l = (Link.call? l).isSome := by
    intro l
    cases l <;> rfl
  have hcallee : ∀ l, Link.isCallee l = (Link.callBack? l).isSome := by
    intro l
    cases l <;> rfl
  have hcalls : g.picked Link.call? = g.picked Link.callBack? := (Reciprocal.of_build hg).calls_eq
  rw [count_eq_length_picked _ g hcaller, count_eq_length_picked _ g hcallee, hcalls]

structure Counts (x : Index) (g : SymbolGraph) : Prop where
  files : g.stats.files = (x.documents.map (·.path)).toFinset.card
  symbols : g.stats.symbols = ((namesOf x).map (·.uri)).toFinset.card
  contains : g.stats.contains =
    ((x.documents.flatMap fun d => declared d ++ defined d).map (·.uri)).toFinset.card
  references : g.stats.references = (x.documents.flatMap (·.occurrences)).countP fun o =>
    (symbol? o.symbol).isSome && (SourceRange.ofRaw? o.range).isSome
  relationships : g.stats.relationships =
    (((informationsOf x).filter fun i =>
      (symbol? i.symbol).isSome).flatMap (·.relationships)).countP fun r =>
      (symbol? r.symbol).isSome
  links : g.stats.contains + g.stats.relationships + g.stats.references + 2 * g.stats.callerPairs =
    g.links.length

/-- Nothing is lost or counted twice. -/
theorem build_counts (resolver : Option SourceResolver) (x : Index) :
    ∃ g, build resolver x = .ok g ∧ Counts x g := by
  obtain ⟨g, hg, -⟩ := exists_build resolver x
  have hpairs : g.count Link.isCaller + g.count Link.isCallee = 2 * g.count Link.isCaller := by
    rw [count_isCallee hg, Nat.two_mul]
  refine ⟨g, hg, length_files hg, length_symbols hg, count_isContains hg, count_isReference hg,
    count_isRelationship hg, ?_⟩
  rw [← length_links, hpairs]
  rfl

end CodeAtlas.SymbolGraph
