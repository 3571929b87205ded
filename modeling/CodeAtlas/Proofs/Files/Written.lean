import CodeAtlas.Files.Tree
import CodeAtlas.Ordered

/-! Files that are written and read again. Where a file can be written, its path leads to it
afterwards, for no directory on the way has changed. -/

namespace CodeAtlas

theorem Path.endsWith_slash_iff {path : String} : path.endsWith "/" ↔ ['/'] <:+ path.toList := by
  rw [String.endsWith_eq_endsWith_toSlice, String.Slice.endsWith_string_iff]
  simp

theorem Path.withoutSlashes_eq_self {path : String} (h : ¬path.endsWith "/") :
    Path.withoutSlashes path = path := by
  have hkept : path.toList.reverse.dropWhile (· = '/') = path.toList.reverse := by
    cases hreverse : path.toList.reverse with
    | nil => rfl
    | cons c rest =>
      have hc : c ≠ '/' := by
        rintro rfl
        apply h
        rw [Path.endsWith_slash_iff, ← List.reverse_prefix, hreverse]
        exact List.prefix_append ['/'] rest
      exact List.dropWhile_cons_of_neg (by simpa using hc)
  have habsolute : ¬(path.toList.isEmpty && isAbsolute path) := by
    intro hboth
    obtain ⟨hempty, hroot⟩ := (Bool.and_eq_true _ _).mp hboth
    rw [String.toList_eq_nil_iff.1 (List.isEmpty_iff.1 hempty)] at hroot
    simp [isAbsolute] at hroot
  rw [Path.withoutSlashes, hkept, List.reverse_reverse, if_neg habsolute, String.ofList_toList]

/-! ### Texts -/

theorem run_bind_of_run {σ α β : Type} {x : StateM σ α} {f : α → StateM σ β} {st st' : σ} {a : α}
    (h : x.run st = (a, st')) : (x >>= f).run st = (f a).run st' := by
  rw [StateT.run_bind, h]
  rfl

def FileTree.text? (t : FileTree) (path : String) : Option String :=
  (t.read path).toOption.bind String.fromUTF8?

theorem Files.readText_run (t : FileTree) (path : String) :
    ∃ outcome, (Files.readText path : StateM FileTree (Except FileError String)).run t =
      (outcome, t) ∧
      outcome.toOption = t.text? path := by
  have hbytes : (MonadFiles.readBytes path : StateM FileTree (Except FileError ByteArray)).run t =
      (t.read path, t) := rfl
  rw [Files.readText, run_bind_of_run hbytes, FileTree.text?]
  cases hread : t.read path with
  | error e => exact ⟨_, rfl, rfl⟩
  | ok bytes =>
    cases htext : String.fromUTF8? bytes with
    | none =>
      refine ⟨.error .invalidText, ?_, htext.symm⟩
      dsimp only
      rw [htext]
      rfl
    | some text =>
      refine ⟨.ok text, ?_, htext.symm⟩
      dsimp only
      rw [htext]
      rfl

namespace FileTree

theorem ne_nil_of_not_directory {t : FileTree} {location : List String}
    (h : t.entry? location ≠ some .directory) : location ≠ [] := by
  rintro rfl
  exact h rfl

theorem entry?_put (t : FileTree) {location : List String} (hne : location ≠ []) (e : FileEntry)
    (l : List String) :
    FileTree.entry? (t.put location e) l = if l = location then some e else t.entry? l := by
  by_cases hl : l = location
  · subst hl
    simp [ entry?, put, hne]
  · have hother := Ordered.lookup_filter (fun other => decide (other ≠ location)) t.entries l
    rw [if_pos (decide_eq_true hl)] at hother
    rw [if_neg hl, entry?, entry?, put, List.lookup_cons, beq_eq_false_iff_ne.2 hl]
    exact congrArg (fun found => if l.isEmpty then some .directory else found) hother

/-! ### Walks -/

def turn (location : List String) (part : String) : Except FileError (List String) :=
  if part.isEmpty || part = "." then .ok location
  else if part = ".." then .ok location.dropLast
  else if Path.componentLimit < part.utf8ByteSize then .error .nameTooLong
  else .ok (location ++ [part])

theorem walk_cons {t : FileTree} {location : List String} (h : t.entry? location = some .directory)
    (part : String) (rest : List String) :
    t.walk location (part :: rest) = (turn location part).bind fun next => t.walk next rest := by
  rw [walk, h, turn]
  dsimp only
  split
  · rfl
  split
  · rfl
  split <;> rfl

theorem directory_of_walk {t : FileTree} {location last rest : List String} {part : String}
    (h : t.walk location (part :: rest) = .ok last) : t.entry? location = some .directory := by
  rw [walk] at h
  split at h
  · cases h
  · cases h
  · assumption

theorem walk_put {t : FileTree} {location : List String} (h : t.entry? location ≠ some .directory)
    (e : FileEntry) {start last parts : List String} (hwalk : t.walk start parts = .ok last) :
    (t.put location e).walk start parts = .ok last := by
  induction parts generalizing start with
  | nil => exact hwalk
  | cons part rest ih =>
    -- a walk goes on from directories only, so it is not at the place that changes
    have hstart : t.entry? start = some .directory := directory_of_walk hwalk
    have hother : start ≠ location := by
      rintro rfl
      exact h hstart
    have hkept : FileTree.entry? (t.put location e) start = some .directory := by
      rw [entry?_put t (ne_nil_of_not_directory h), if_neg hother, hstart]
    rw [walk_cons hstart] at hwalk
    rw [walk_cons hkept]
    cases hturn : turn start part with
    | error error => rw [hturn] at hwalk; cases hwalk
    | ok next =>
      rw [hturn] at hwalk
      exact ih hwalk

theorem locate_put {t : FileTree} {location : List String} (h : t.entry? location ≠ some .directory)
    (e : FileEntry) {path : String} {last : List String} (hlocate : t.locate path = .ok last) :
    (t.put location e).locate path = .ok last := by
  unfold locate at hlocate ⊢
  cases hcheck : Path.check path with
  | error e => rw [hcheck] at hlocate; cases hlocate
  | ok _ =>
    rw [hcheck] at hlocate
    exact walk_put h e hlocate

/-! ### Writing -/

theorem write_cases (t : FileTree) (path : String) :
    (∃ error, ∀ content, t.write path content = .error error) ∨
      ∃ location, t.locate path = .ok location ∧ t.entry? location ≠ some .directory ∧
        ∀ content, t.write path content = .ok (t.put location (.file content)) := by
  unfold write
  cases hlocate : Path.check path *> t.locate (Path.withoutSlashes path) with
  | error error => exact .inl ⟨error, fun _ => rfl⟩
  | ok location =>
    by_cases hslash : path.endsWith "/"
    · -- whatever is there, the path can only mean a directory
      simp only [hslash, if_true]
      refine .inl ⟨.isADirectory, fun _ => ?_⟩
      split <;> rfl
    · rw [Path.withoutSlashes_eq_self hslash] at hlocate
      have hpath : t.locate path = .ok location := by
        cases hcheck : Path.check path with
        | error error => rw [hcheck] at hlocate; cases hlocate
        | ok _ => rw [hcheck] at hlocate; exact hlocate
      simp only [hslash]
      by_cases hdirectory : t.entry? location = some .directory
      · exact .inl ⟨.isADirectory, fun _ => by simp only [hdirectory]⟩
      · refine .inr ⟨location, hpath, hdirectory, fun content => ?_⟩
        split
        · rename_i hfound
          exact absurd hfound hdirectory
        · rfl

theorem find?_of_write {t t' : FileTree} {path : String} {content : ByteArray}
    (h : t.write path content = .ok t') : t'.find? path = .ok (some (.file content)) := by
  rcases write_cases t path with ⟨error, herror⟩ | ⟨location, hlocate, hplace, hwrite⟩
  · rw [herror] at h
    cases h
  · rw [hwrite] at h
    cases h
    rw [find?, locate_put hplace _ hlocate, Except.map,
      entry?_put t (ne_nil_of_not_directory hplace), if_pos rfl]

end FileTree

end CodeAtlas
