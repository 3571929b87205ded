import CodeAtlas.Index.Load
import CodeAtlas.Proofs.Files.Written
import CodeAtlas.Proofs.Graph.Order

/-! Texts of modules. A source index that is loaded from files holds for each path the text of the
last document there that has one, in the index or in the file below the root. -/

namespace CodeAtlas

/-- The text of a document: its own one, or that of the file at its path below the root. -/
inductive Document.TextIn (tree : FileTree) (root : Option String) (d : Document) :
    String → Prop where
  | embedded (h : d.text ≠ "") : TextIn tree root d d.text
  | read {r : String} {bytes : ByteArray} {text : String} (h : d.text = "") (hroot : root = some r)
      (hread : tree.read (Path.join r d.path) =
        .ok bytes) (htext : String.fromUTF8? bytes = some text) :
      TextIn tree root d text

/-- The text of the last document of a path that has a text. -/
def Index.ModuleText (tree : FileTree) (root : Option String) (x : Index) (path text : String) :
    Prop :=
  ∃ d, d.TextIn tree root text ∧
    IsLast (fun e => e.path = path ∧ ∃ text, e.TextIn tree root text) x.documents d

namespace SourceIndex

variable {tree : FileTree} {root : Option String} {x : Index}

/-! ### Reading -/

def textIn? (tree : FileTree) (root : Option String) (d : Document) : Option String :=
  (embedded? d).or (root.bind fun r => tree.text? (Path.join r d.path))

theorem textIn?_eq_some_iff {d : Document} {text : String} :
    textIn? tree root d = some text ↔ d.TextIn tree root text := by
  rw [textIn?, embedded?]
  constructor
  · intro h
    split at h
    · rename_i hempty
      rw [Option.none_or, Option.bind_eq_some_iff] at h
      obtain ⟨r, hroot, h⟩ := h
      obtain ⟨bytes, hread, htext⟩ := Option.bind_eq_some_iff.1 h
      exact .read (String.isEmpty_iff.1 hempty) hroot (toOption_eq_some_iff.1 hread) htext
    · rename_i hne
      obtain rfl := Option.some.inj h
      exact .embedded (by simpa using hne)
  · intro h
    cases h with
    | embedded h => rw [if_neg (by simpa using h), Option.some_or]
    | read h hroot hread htext =>
      rw [if_pos (String.isEmpty_iff.2 h), hroot]
      simp [FileTree.text?, hread, htext, Except.toOption]

def fileTexts (tree : FileTree) (root : String) (ds : List Document) : List (String × String) :=
  ds.filterMap fun d => if (embedded? d).isSome then none
    else (tree.text? (Path.join root d.path)).map fun text => (d.path, text)

theorem readTexts_run (tree : FileTree) (root : String) (ds : List Document) :
    (readTexts root ds : StateM FileTree (List (String × String))).run tree =
      (fileTexts tree root ds, tree) := by
  induction ds with
  | nil => rfl
  | cons d ds ih =>
    rw [readTexts, fileTexts, List.filterMap_cons]
    by_cases hembedded : (embedded? d).isSome
    · rw [if_pos hembedded, if_pos hembedded, ih]
      rfl
    · obtain ⟨outcome, hrun, houtcome⟩ := Files.readText_run tree (Path.join root d.path)
      rw [if_neg hembedded, if_neg hembedded, StateT.run_bind, hrun, ← houtcome]
      cases outcome with
      | error e => exact ih
      | ok text =>
        change (List.cons (d.path,
          text) <$> readTexts root ds : StateM FileTree (List (String × String))).run tree = _
        rw [StateT.run_map, ih]
        rfl

theorem mem_fileTexts_iff {ds : List Document} {r path text : String} :
    (path, text) ∈ fileTexts tree r ds ↔
    tree.text? (Path.join r path) = some text ∧ ∃ d ∈ ds, d.path = path ∧ embedded? d = none := by
  rw [fileTexts, List.mem_filterMap]
  constructor
  · rintro ⟨d, hd, h⟩
    split at h
    · cases h
    · rename_i hembedded
      obtain ⟨text', htext, heq⟩ := Option.map_eq_some_iff.1 h
      obtain ⟨rfl, rfl⟩ := Prod.mk.inj heq
      exact ⟨htext, d, hd, rfl, by simpa using hembedded⟩
  · rintro ⟨htext, d, hd, rfl, hembedded⟩
    exact ⟨d, hd, by simp [hembedded, htext]⟩

theorem build_congr {textOf textOf' : Document → Option String}
    (h : ∀ d ∈ x.documents, textOf d = textOf' d) :
    build textOf x = build textOf' x := by
  have htexts : (x.documents.filterMap fun d => (textOf d).map fun text => (d.path, text)) =
      x.documents.filterMap fun d => (textOf' d).map fun text => (d.path, text) := by
    refine List.filterMap_congr fun d hd => ?_
    rw [h d hd]
  rw [build, build, htexts]

theorem load_run (tree : FileTree) (root : Option String) (x : Index) :
    (load root x : StateM FileTree SourceIndex).run tree = (build (textIn? tree root) x, tree) := by
  cases root with
  | none => rfl
  | some r =>
    rw [load, StateT.run_bind, readTexts_run]
    change (build _ x, tree) = _
    refine congrArg (fun s => (s, tree)) (build_congr fun d hd => ?_)
    rw [textIn?, Option.bind_some]
    cases hembedded : embedded? d with
    | some text => rfl
    | none =>
      rw [Option.none_or, Option.none_or]
      refine Ordered.lookup_eq_of_mem (f := fun path => tree.text? (Path.join r path)) ?_ ?_
      · exact fun e he => (mem_fileTexts_iff.1 he).1
      · exact fun text htext => mem_fileTexts_iff.2 ⟨htext, d, hd, rfl, hembedded⟩

/-! ### Modules -/

theorem text?_build_eq_some_iff {path text : String} :
    (build (textIn? tree root) x).text? path = some text ↔ x.ModuleText tree root path text := by
  have hhas (d : Document) : (if path == d.path then textIn? tree root d else none).isSome ↔
      d.path = path ∧ ∃ text, d.TextIn tree root text := by
    simp only [← textIn?_eq_some_iff, ← Option.isSome_iff_exists]
    by_cases hpath : d.path = path
    · simp [hpath]
    · simp [hpath, Ne.symm hpath]
  rw [text?_build, findSome?_reverse_eq_some_iff]
  simp only [hhas, Index.ModuleText]
  constructor
  · rintro ⟨d, htext, hlast⟩
    obtain ⟨hpath, -⟩ := hlast.holds
    rw [hpath, beq_self_eq_true, if_pos rfl] at htext
    exact ⟨d, textIn?_eq_some_iff.1 htext, hlast⟩
  · rintro ⟨d, htext, hlast⟩
    obtain ⟨hpath, -⟩ := hlast.holds
    refine ⟨d, ?_, hlast⟩
    rw [hpath, beq_self_eq_true, if_pos rfl]
    exact textIn?_eq_some_iff.2 htext

end SourceIndex
end CodeAtlas
