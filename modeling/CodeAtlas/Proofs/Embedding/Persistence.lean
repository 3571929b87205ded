import CodeAtlas.Embedding.File
import CodeAtlas.Proofs.Embedding.Keyed
import CodeAtlas.Proofs.Embedding.Record
import CodeAtlas.Proofs.Files.Written
import CodeAtlas.Proofs.Ordered
import CodeAtlas.Proofs.Symbol.Legality
import CodeAtlas.Proofs.Text.Bytes
import Mathlib.Data.List.Induction

/-! Stores that are saved and opened again. -/

namespace CodeAtlas

def FileTree.Holds (t : FileTree) (path text : String) : Prop :=
  t.find? path = .ok (some (.file text.toUTF8))

namespace VectorStore

variable {κ : Type}

/-! ### Stores of lists -/

theorem Keyed.get?_eq_some_iff {s : VectorStore κ} (hs : s.Keyed) {k : EmbeddingKey}
    {e : Embedding κ} :
    s.get? k = some e ↔ e ∈ s.embeddings ∧ e.key = k := by
  constructor
  · intro h
    exact ⟨List.mem_map_of_mem (mem_of_lookup h), hs.key_eq h⟩
  · rintro ⟨he, rfl⟩
    obtain ⟨x, hx, rfl⟩ := List.mem_map.1 he
    rw [hs.own x hx]
    exact hs.ascending.lookup_of_mem hx

theorem Keyed.nodup_keys {s : VectorStore κ} (hs : s.Keyed) : (s.embeddings.map (·.key)).Nodup := by
  have hkeys : s.embeddings.map (·.key) = s.entries.map (·.1) := by
    rw [embeddings, List.map_map]
    exact List.map_congr_left hs.own
  rw [hkeys]
  exact hs.ascending.nodup_keys

theorem foldlM_add {s : VectorStore κ} {es : List (Embedding κ)} (hkeys : (es.map (·.key)).Nodup)
    (hfree : ∀ e ∈ es, s.get? e.key = none) : es.foldlM add s = .ok (s.putAll es) := by
  induction es generalizing s with
  | nil => rfl
  | cons e es ih =>
    obtain ⟨hne, hkeys⟩ := List.nodup_cons.1 hkeys
    rw [List.foldlM_cons, add_eq_ok (hfree e List.mem_cons_self)]
    refine ih hkeys fun other hother => ?_
    have hdiffers : other.key ≠ e.key := by
      intro heq
      exact hne (List.mem_map.2 ⟨other, hother, heq⟩)
    rw [get?_put, if_neg hdiffers, hfree other (List.mem_cons_of_mem e hother)]

theorem ofList_eq_ok {es : List (Embedding κ)} (h : (es.map (·.key)).Nodup) :
    ofList es = .ok (({} : VectorStore κ).putAll es) := foldlM_add h fun _ _ => rfl

theorem get?_putAll_eq_some_iff {es : List (Embedding κ)} (h : (es.map (·.key)).Nodup)
    {k : EmbeddingKey}
    {e : Embedding κ} : (({} : VectorStore κ).putAll es).get? k = some e ↔ e ∈ es ∧ e.key = k := by
  have hempty : ({} : VectorStore κ).get? k = none := rfl
  have hreverse : (es.reverse.map (·.key)).Nodup := by
    rw [List.map_reverse]
    exact List.nodup_reverse.2 h
  rw [get?_putAll, hempty, Option.or_none, find?_key_eq_some_iff hreverse, List.mem_reverse]

theorem Keyed.ofList_perm {s : VectorStore κ} (hs : s.Keyed) {es : List (Embedding κ)}
    (h : es.Perm s.embeddings) : ofList es = .ok s := by
  have hkeys : (es.map (·.key)).Nodup := (h.map _).nodup_iff.2 hs.nodup_keys
  have hsame : ({} : VectorStore κ).putAll es = s := by
    refine (keyed_empty.putAll es).ext hs fun k => Option.ext fun e => ?_
    rw [get?_putAll_eq_some_iff hkeys, hs.get?_eq_some_iff, h.mem_iff]
  rw [ofList_eq_ok hkeys, hsame]

theorem exists_repeated {es : List (Embedding κ)} (h : ¬(es.map (·.key)).Nodup) :
    ∃ before e after, es = before ++ e :: after ∧ (before.map (·.key)).Nodup ∧
      e.key ∈ before.map (·.key) := by
  -- from the end: either the last key is the first that comes again, or one before it is
  induction es using List.reverseRecOn with
  | nil => exact absurd List.nodup_nil h
  | append_singleton es last ih =>
    by_cases hkeys : (es.map (·.key)).Nodup
    · refine ⟨es, last, [], rfl, hkeys, ?_⟩
      by_contra hlast
      apply h
      rw [List.map_append, List.map_singleton]
      exact hkeys.append (List.nodup_singleton _) (by simpa using hlast)
    · obtain ⟨before, e, after, rfl, hbefore, he⟩ := ih hkeys
      exact ⟨before, e, after ++ [last], by simp, hbefore, he⟩

theorem ofList_repeated {before after : List (Embedding κ)} {e : Embedding κ}
    (hbefore : (before.map (·.key)).Nodup) (he : e.key ∈ before.map (·.key)) :
    ofList (before ++ e :: after) = .error (.duplicateKey e.key) := by
  -- up to the repeated key the list makes a store, in which that key is taken
  obtain ⟨old, hold, hkey⟩ := List.mem_map.1 he
  have htaken := (get?_putAll_eq_some_iff hbefore).2 ⟨hold, hkey⟩
  have hadd : (({} : VectorStore κ).putAll before).add e = .error (.duplicateKey e.key) := by
    rw [add, contains, htaken]
    rfl
  have hfirst : before.foldlM add {} = .ok (({} : VectorStore κ).putAll before) :=
    ofList_eq_ok hbefore
  rw [ofList, List.foldlM_append, hfirst]
  change List.foldlM add (({} : VectorStore κ).putAll before) (e :: after) = _
  rw [List.foldlM_cons, hadd]
  rfl

/-! ### Saving -/

variable [VectorComponent κ]

def saveAt (s : VectorStore κ) (path : String) (t : FileTree) :
    Except EmbeddingError Unit × FileTree :=
  (s.save path : StateM FileTree (Except EmbeddingError Unit)).run t

def openAt (path : String) (t : FileTree) : Except EmbeddingError (VectorStore κ) :=
  ((open? path : StateM FileTree (Except EmbeddingError (VectorStore κ))).run t).1

def makeRoom (path : String) : StateM FileTree (Except FileError Unit) :=
  match Path.parent? path with
  | none => pure (.ok ())
  | some parent => if parent.isEmpty then pure (.ok ()) else Files.createDirectories parent

def writeTo (s : VectorStore κ) (path : String) :
    Except FileError Unit → StateM FileTree (Except EmbeddingError Unit)
  | .error cause => pure (.error (.file path cause))
  | .ok () => do
    return (← MonadFiles.writeText path (Record.write s.embeddings)).mapError (.file path)

theorem save_eq_bind (s : VectorStore κ) (path : String) :
    s.save path = makeRoom path >>= s.writeTo path := by
  unfold save makeRoom
  cases Path.parent? path with
  | none => rfl
  | some parent => dsimp only; split <;> rfl

theorem saveAt_eq {t t' : FileTree} {path : String} {outcome : Except FileError Unit}
    (h : (makeRoom path).run t = (outcome, t')) (s : VectorStore κ) :
    s.saveAt path t = (s.writeTo path outcome).run t' := by
  rw [saveAt, save_eq_bind, run_bind_of_run h]

theorem run_writeTo_ok (s : VectorStore κ) (path : String) (t : FileTree) :
    (s.writeTo path (.ok ())).run t =
      ((FileTree.update (fun t =>
        t.write path (Record.write s.embeddings).toUTF8) t).1.mapError (.file path),
        (FileTree.update (fun t => t.write path (Record.write s.embeddings).toUTF8) t).2) := rfl

theorem saveAt_cases (t : FileTree) (path : String) :
    (∃ cause t', ∀ s : VectorStore κ, s.saveAt path t = (.error (.file path cause), t')) ∨
      ∀ s : VectorStore κ, ∃ t', s.saveAt path t = (.ok (), t') ∧
        t'.Holds path (Record.write s.embeddings) := by
  cases hroom : (makeRoom path).run t with
  | mk outcome t₁ =>
    cases outcome with
    | error cause => exact .inl ⟨cause, t₁, saveAt_eq hroom⟩
    | ok _ =>
      rcases t₁.write_cases path with ⟨cause, hwrite⟩ | ⟨location, -, -, hwrite⟩
      · refine .inl ⟨cause, t₁, fun s => ?_⟩
        rw [saveAt_eq hroom, run_writeTo_ok, FileTree.update, hwrite]
        rfl
      · refine .inr fun s => ⟨_, ?_,
          FileTree.find?_of_write (hwrite (Record.write s.embeddings).toUTF8)⟩
        rw [saveAt_eq hroom, run_writeTo_ok, FileTree.update, hwrite]
        rfl

theorem outcome_saveAt (s other : VectorStore κ) (path : String) (t : FileTree) :
    (s.saveAt path t).1 = (other.saveAt path t).1 := by
  rcases saveAt_cases (κ := κ) t path with ⟨cause, t', hfail⟩ | hok
  · rw [hfail s, hfail other]
  · obtain ⟨_, hs, -⟩ := hok s
    obtain ⟨_, hother, -⟩ := hok other
    rw [hs, hother]

theorem exists_cause_of_saveAt {s : VectorStore κ} {path : String} {t : FileTree}
    {error : EmbeddingError}
    (h : (s.saveAt path t).1 = .error error) : ∃ cause, error = .file path cause := by
  rcases saveAt_cases (κ := κ) t path with ⟨cause, t', hfail⟩ | hok
  · rw [hfail s] at h
    cases h
    exact ⟨cause, rfl⟩
  · obtain ⟨_, hs, -⟩ := hok s
    rw [hs] at h
    cases h

theorem holds_of_saveAt {s : VectorStore κ} {path : String} {t t' : FileTree}
    (h : s.saveAt path t = (.ok (), t')) : t'.Holds path (Record.write s.embeddings) := by
  rcases saveAt_cases (κ := κ) t path with ⟨cause, _, hfail⟩ | hok
  · rw [hfail s] at h
    cases h
  · obtain ⟨_, hs, hfile⟩ := hok s
    rw [h] at hs
    cases hs
    exact hfile

/-! ### Opening -/

theorem openAt_of_holds {t : FileTree} {path text : String} (h : t.Holds path text) :
    (openAt path t : Except EmbeddingError (VectorStore κ)) =
      ((Record.parse text).mapError .records).bind ofList := by
  -- the three questions that opening asks of the file system
  have hfile : t.isFile path = true := by rw [FileTree.isFile, h]
  have hread : t.read path = .ok text.toUTF8 := by rw [FileTree.read, h]
  have hexists : (Files.pathExists path : StateM FileTree Bool).run t = (true, t) := by
    change (if t.isFile path then pure true else _ : StateM FileTree Bool).run t = _
    rw [hfile]
    rfl
  have htext : (Files.readText path : StateM FileTree (Except FileError String)).run t =
      (.ok text, t) := by
    obtain ⟨outcome, hrun, houtcome⟩ := Files.readText_run t path
    rw [FileTree.text?, hread, Except.toOption, Option.bind_some, Text.fromUTF8?_toUTF8] at houtcome
    rw [hrun, toOption_eq_some_iff.1 houtcome]
  unfold openAt open?
  rw [run_bind_of_run hexists, Bool.not_true, if_neg Bool.false_ne_true, run_bind_of_run htext]
  dsimp only
  cases (Record.parse text : Except RecordFault (List (Embedding κ))) <;> rfl

theorem openAt_of_parse {t : FileTree} {path text : String} {es : List (Embedding κ)}
    (hfile : t.Holds path text) (htext : Record.parse text = .ok es) :
    openAt path t = ofList es := by
  rw [openAt_of_holds hfile, htext]
  rfl

/-! ### There and back -/

def isFinite (s : VectorStore κ) : Bool := s.embeddings.all Embedding.isFinite

theorem isFinite_iff_float32 {s : VectorStore Float32} :
    s.isFinite ↔ ∀ e ∈ s.embeddings, ∀ x ∈ e.vector, x.isFinite := by
  simp only [isFinite, Embedding.isFinite, List.all_eq_true, VectorComponent.isFinite_float32]

theorem openAt_of_write {t : FileTree} {path : String} {es : List (Embedding κ)}
    (hes : ∀ e ∈ es, e.Legible) (hfile : t.Holds path (Record.write es)) :
    (openAt path t : Except EmbeddingError (VectorStore κ)) =
      if es.all Embedding.isFinite then ofList (es.map Embedding.reread)
      else .error (.records .mismatch) := by
  rw [openAt_of_holds hfile, Record.parse_write hes]
  split <;> rfl

def reread {κ : Type} (s : VectorStore κ) : VectorStore κ :=
  ⟨s.entries.map fun x => (x.1, x.2.reread)⟩

section
variable {κ : Type} {s opened : VectorStore κ} {es : List (Embedding κ)}

theorem embeddings_reread (s : VectorStore κ) :
    s.reread.embeddings = s.embeddings.map Embedding.reread := by
  simp only [reread, embeddings, List.map_map, Function.comp_def]

theorem byUri_reread (s : VectorStore κ) : s.reread.byUri = s.byUri := by
  simp only [reread, byUri, List.map_map, Function.comp_def, Embedding.byUri_reread]

theorem Keyed.reread (hs : s.Keyed) (hkeeps : ∀ e ∈ s.embeddings, e.KeepsPath) :
    s.reread.Keyed := by
  refine ⟨List.forall_mem_map.2 fun x hx => ?_, List.pairwise_map.2 hs.ascending⟩
  exact (hkeeps x.2 (List.mem_map_of_mem hx)).key_reread.trans (hs.own x hx)

theorem mem_of_ofList (h : ofList es = .ok opened) {x : EmbeddingKey × Embedding κ}
    (hx : x ∈ opened.entries) : x.2 ∈ es ∧ x.2.key = x.1 := by
  by_cases hkeys : (es.map (·.key)).Nodup
  · rw [ofList_eq_ok hkeys] at h
    cases h
    exact (get?_putAll_eq_some_iff hkeys).1 ((keyed_empty.putAll es).ascending.lookup_of_mem hx)
  · obtain ⟨before, e, after, rfl, hbefore, he⟩ := exists_repeated hkeys
    rw [ofList_repeated hbefore he] at h
    cases h

theorem keepsPath_of_ofList (hs : s.Keyed)
    (h : ofList (s.embeddings.map Embedding.reread) = .ok opened)
    (hsame : opened.byUri = s.byUri) {e : Embedding κ} (he : e ∈ s.embeddings) {symbol : Symbol}
    (hsymbol : Symbol.parse? e.symbol.uri = .ok symbol) : e.KeepsPath := by
  obtain ⟨x, hx, rfl⟩ := List.mem_map.1 he
  have hentry : (x.1, x.2.byUri) ∈ opened.byUri.entries := by
    rw [hsame]
    exact List.mem_map_of_mem hx
  obtain ⟨found, hfound, heq⟩ := List.mem_map.1 hentry
  obtain ⟨hkey, hbyUri⟩ := Prod.mk.inj heq
  obtain ⟨hmem, hown⟩ := mem_of_ofList h hfound
  obtain ⟨source, -, hsource⟩ := List.mem_map.1 hmem
  rw [← hsource] at hbyUri hown
  have huri : source.symbol.uri = x.2.symbol.uri := by
    rw [← source.uri_reread]
    exact Symbol.beq_iff.1 (Embedding.byUri_eq_iff.1 hbyUri).1
  rw [Embedding.reread_eq (huri ▸ hsymbol), hkey, ← hs.own x hx] at hown
  exact ⟨symbol, hsymbol, congrArg EmbeddingKey.path hown⟩

end

/-- The file at the path opens to a store that equals `s`, where symbols are equal by their uris. -/
def OpensTo (path : String) (t : FileTree) (s : VectorStore κ) : Prop :=
  ∃ opened, openAt path t = .ok opened ∧ opened.byUri = s.byUri

theorem opensTo_of_write {t : FileTree} {path : String} {s : VectorStore κ} (hs : s.Keyed)
    (hlegible : ∀ e ∈ s.embeddings, e.Legible) (hfinite : s.isFinite)
    (hkeeps : ∀ e ∈ s.embeddings, e.KeepsPath) {es : List (Embedding κ)}
    (hes : es.Perm s.embeddings)
    (hfile : t.Holds path (Record.write es)) : OpensTo path t s := by
  have hall : es.all Embedding.isFinite = true := hes.all_eq.trans hfinite
  have hperm : (es.map Embedding.reread).Perm s.reread.embeddings := by
    rw [embeddings_reread]
    exact hes.map _
  refine ⟨s.reread, ?_, s.byUri_reread⟩
  rw [openAt_of_write (fun e he => hlegible e (hes.mem_iff.1 he)) hfile, if_pos hall]
  exact (hs.reread hkeeps).ofList_perm hperm

theorem opensTo_write_iff {t : FileTree} {path : String} {s : VectorStore κ} (hs : s.Keyed)
    (hlegible : ∀ e ∈ s.embeddings, e.Legible) (hfile : t.Holds path (Record.write s.embeddings)) :
    OpensTo path t s ↔ s.isFinite ∧ ∀ e ∈ s.embeddings, e.KeepsPath := by
  constructor
  · rintro ⟨opened, hopened, hsame⟩
    rw [openAt_of_write hlegible hfile] at hopened
    split at hopened
    · rename_i hfinite
      refine ⟨hfinite, fun e he => ?_⟩
      obtain ⟨symbol, hsymbol⟩ := (hlegible e he).symbol
      exact keepsPath_of_ofList hs hopened hsame he hsymbol
    · cases hopened
  · rintro ⟨hfinite, hkeeps⟩
    exact opensTo_of_write hs hlegible hfinite hkeeps (.refl _) hfile

/-- A store that has been saved is found again unchanged if and only if all its vectors are finite
and each of its symbols has the dotted path that its uri spells. Stores with other vectors are saved
just as well, but what is saved cannot be opened. The order of the entries in a file does not
matter; a file with two entries under one key is refused for the first that comes again. -/
theorem open_save {s : VectorStore κ} (hs : s.Keyed) (hlegible : ∀ e ∈ s.embeddings, e.Legible)
    (path : String) :
    (∀ (other : VectorStore κ) (t : FileTree), (s.saveAt path t).1 = (other.saveAt path t).1) ∧
    (∀ (t : FileTree) (error : EmbeddingError), (s.saveAt path t).1 = .error error →
      ∃ cause, error = .file path cause) ∧
    (∀ t t' : FileTree, s.saveAt path t = (.ok (), t') →
      (OpensTo path t' s ↔ s.isFinite ∧ ∀ e ∈ s.embeddings, e.KeepsPath) ∧
      (¬s.isFinite → (openAt path t' : Except EmbeddingError (VectorStore κ)) =
        .error (.records .mismatch))) ∧
    (∀ (t : FileTree) (es : List (Embedding κ)), s.isFinite → (∀ e ∈ s.embeddings, e.KeepsPath) →
      es.Perm s.embeddings → t.Holds path (Record.write es) → OpensTo path t s) ∧
    (∀ (t : FileTree) (text : String) (es : List (Embedding κ)), t.Holds path text →
      Record.parse text = .ok es → ¬(es.map (·.key)).Nodup →
      ∃ before e after, es = before ++ e :: after ∧ (before.map (·.key)).Nodup ∧
        e.key ∈ before.map (·.key) ∧
        (openAt path t : Except EmbeddingError (VectorStore κ)) =
          .error (.duplicateKey e.key)) := by
  refine ⟨fun other t => outcome_saveAt s other path t, fun t error => exists_cause_of_saveAt,
    fun t t' hsave => ?_, fun t es hfinite hkeeps hes hfile => ?_,
    fun t text es hfile htext hkeys => ?_⟩
  · have hfile := holds_of_saveAt hsave
    refine ⟨opensTo_write_iff hs hlegible hfile, fun hnot => ?_⟩
    rw [openAt_of_write hlegible hfile]
    exact if_neg hnot
  · exact opensTo_of_write hs hlegible hfinite hkeeps hes hfile
  · obtain ⟨before, e, after, rfl, hbefore, he⟩ := exists_repeated hkeys
    refine ⟨before, e, after, rfl, hbefore, he, ?_⟩
    rw [openAt_of_parse hfile htext, ofList_repeated hbefore he]

end VectorStore

/-! ### A store of gauges -/

/-- What a gauge shows; blank is no number. -/
inductive Gauge where
  | low | high | blank

namespace Gauge

instance : VectorComponent Gauge where
  text?
    | .low => some ['0']
    | .high => some ['1']
    | .blank => none
  ofNumber
    | .integer _ 0 => .low
    | _ => .high

theorem readsBack (x : Gauge) : VectorComponent.ReadsBack x := by
  cases x with
  | low => intro text htext; cases htext; exact ⟨rfl, rfl⟩
  | high => intro text htext; cases htext; exact ⟨rfl, rfl⟩
  | blank => intro text htext; cases htext

end Gauge

namespace VectorStore

def gaugeStore (last : Gauge) : VectorStore Gauge :=
  ({} : VectorStore Gauge).putAll
    [⟨.ofParts functionParts, "say \"hi\"\n", [.low, last], .code⟩,
      ⟨.ofParts functionParts, "says hi", [.high], .doc "greets" "\t\x01"⟩]

theorem gaugeStore_keyed (last : Gauge) : (gaugeStore last).Keyed := keyed_empty.putAll _

theorem parse?_of_mem_gaugeStore {last : Gauge} {e : Embedding Gauge}
    (he : e ∈ (gaugeStore last).embeddings) : Symbol.parse? e.symbol.uri = .ok e.symbol := by
  have hsymbol : e.symbol = .ofParts functionParts := by
    have hmem : e ∈ [_, _] := he
    rcases List.mem_cons.1 hmem with rfl | hmem
    · rfl
    · rw [List.mem_singleton.1 hmem]
  rw [hsymbol]
  exact Symbol.parse?_ofParts functionParts_legal

theorem gaugeStore_legible (last : Gauge) : ∀ e ∈ (gaugeStore last).embeddings, e.Legible :=
  fun _ he => ⟨⟨_, parse?_of_mem_gaugeStore he⟩, fun x _ => x.readsBack⟩

theorem gaugeStore_keepsPath (last : Gauge) : ∀ e ∈ (gaugeStore last).embeddings, e.KeepsPath :=
  fun _ he => ⟨_, parse?_of_mem_gaugeStore he, rfl⟩

theorem write_demo (content : ByteArray) :
    ({} : FileTree).write "store.json" content =
      .ok (({} : FileTree).put ["store.json"] (.file content)) := by
  have hnul : "store.json".contains '\x00' = false := by simp
  have hempty : "store.json".isEmpty = false := by decide +kernel
  have hlength : ¬Path.lengthLimit < "store.json".utf8ByteSize := by decide +kernel
  have hcheck : Path.check "store.json" = .ok () := by
    simp only [Path.check, hnul, hempty, hlength]
    rfl
  have hslash : "store.json".endsWith "/" = false := by decide +kernel
  have hpath : Path.withoutSlashes "store.json" = "store.json" :=
    Path.withoutSlashes_eq_self (by rw [hslash]; exact Bool.false_ne_true)
  have hlocate : ({} : FileTree).locate "store.json" = .ok ["store.json"] := by
    rw [FileTree.locate, hcheck]
    decide +kernel
  rw [FileTree.write, hpath, hcheck, hlocate, hslash]
  rfl

theorem saveAt_demo (s : VectorStore Gauge) :
    s.saveAt "store.json" {} =
      (.ok (), ({} : FileTree).put ["store.json"] (.file (Record.write s.embeddings).toUTF8)) := by
  have hparent : Path.parent? "store.json" = some "" := by decide +kernel
  have hroom : (makeRoom "store.json").run {} = (.ok (), {}) := by
    rw [makeRoom, hparent]
    rfl
  rw [saveAt_eq hroom, run_writeTo_ok, FileTree.update, write_demo]
  rfl

theorem open_save_gauges :
    (∃ t, (gaugeStore .high).saveAt "store.json" {} = (.ok (), t) ∧
      OpensTo "store.json" t (gaugeStore .high)) ∧
    (∃ t, (gaugeStore .blank).saveAt "store.json" {} = (.ok (), t) ∧
      (openAt "store.json" t : Except EmbeddingError (VectorStore Gauge)) =
        .error (.records .mismatch)) ∧
    (∃ t : FileTree, t.Holds "store.json" (Record.write (gaugeStore .high).embeddings.reverse) ∧
      OpensTo "store.json" t (gaugeStore .high)) ∧
    ∃ (t : FileTree) (key : EmbeddingKey),
      t.Holds "store.json"
        (Record.write ((gaugeStore .high).embeddings ++ (gaugeStore .high).embeddings)) ∧
      (openAt "store.json" t : Except EmbeddingError (VectorStore Gauge)) =
        .error (.duplicateKey key) := by
  obtain ⟨-, -, hopen, horder, htwice⟩ :=
    open_save (gaugeStore_keyed .high) (gaugeStore_legible .high) "store.json"
  obtain ⟨-, -, hblank, -, -⟩ :=
    open_save (gaugeStore_keyed .blank) (gaugeStore_legible .blank) "store.json"
  have hfinite : (gaugeStore .high).isFinite := rfl
  have hinfinite : ¬(gaugeStore .blank).isFinite := Bool.false_ne_true
  have hkeeps := gaugeStore_keepsPath .high
  have hsaved := saveAt_demo (gaugeStore .high)
  have hlost := saveAt_demo (gaugeStore .blank)
  have hreversed := FileTree.find?_of_write
    (write_demo (Record.write (gaugeStore .high).embeddings.reverse).toUTF8)
  have hdoubled := FileTree.find?_of_write
    (write_demo
      (Record.write ((gaugeStore .high).embeddings ++ (gaugeStore .high).embeddings)).toUTF8)
  have hlegible : ∀ e ∈ (gaugeStore .high).embeddings ++ (gaugeStore .high).embeddings, e.Legible :=
    fun e he => gaugeStore_legible .high e ((List.mem_append.1 he).elim id id)
  have htext := Record.parse_write hlegible
  have hrepeated : ¬((((gaugeStore .high).embeddings ++ (gaugeStore .high).embeddings).map
      Embedding.reread).map (·.key)).Nodup := by
    rw [List.map_append, List.map_append, List.nodup_append']
    exact fun h => h.2.2 List.mem_cons_self List.mem_cons_self
  obtain ⟨before, e, after, -, -, -, hduplicate⟩ := htwice _ _ _ hdoubled htext hrepeated
  exact ⟨⟨_, hsaved, (hopen _ _ hsaved).1.2 ⟨hfinite, hkeeps⟩⟩,
    ⟨_, hlost, (hblank _ _ hlost).2 hinfinite⟩,
    ⟨_, hreversed, horder _ _ hfinite hkeeps (List.reverse_perm _) hreversed⟩, _, _,
    hdoubled, hduplicate⟩

/-! ### A uri that spells another path -/

/-- A method with brackets in its disambiguator. Its uri spells two methods. -/
def bracketedParts : SymbolParts := demoParts ⟨"f", .method, some "x).g("⟩

def spelledParts : SymbolParts :=
  { functionParts with
    descriptors := [⟨"demo", .scope, none⟩, ⟨"f", .method, some "x"⟩, ⟨"g", .method, none⟩] }

theorem spelledParts_legal : spelledParts.Legal := by
  rcases functionParts_legal with ⟨hlocal, -⟩ | hglobal
  · exact absurd hlocal (by decide)
  · refine .inr { hglobal with descriptors_ne := List.cons_ne_nil _ _, descriptors := ?_ }
    simp only [spelledParts, List.forall_mem_cons]
    exact ⟨⟨by decide, by decide, by simp⟩, ⟨by decide, by decide, by simp; decide⟩,
      ⟨by decide, by decide, by simp⟩, by simp⟩

theorem parse?_bracketed :
    Symbol.parse? (Symbol.ofParts bracketedParts).uri = .ok (.ofParts spelledParts) := by
  have huri : (Symbol.ofParts bracketedParts).uri = (Symbol.ofParts spelledParts).uri := by decide
  rw [huri]
  exact Symbol.parse?_ofParts spelledParts_legal

def bracketedStore : VectorStore Gauge :=
  ({} : VectorStore Gauge).putAll [⟨.ofParts bracketedParts, "", [.low], .code⟩]

theorem exists_saved_not_opensTo :
    bracketedStore.Keyed ∧ (∀ e ∈ bracketedStore.embeddings, e.Legible) ∧
    bracketedStore.isFinite ∧ bracketedStore.contains ⟨.code, "demo.f"⟩ ∧
    ∃ t, bracketedStore.saveAt "store.json" {} = (.ok (), t) ∧
      ¬OpensTo "store.json" t bracketedStore ∧
      ∃ opened : VectorStore Gauge, openAt "store.json" t = .ok opened ∧
        opened.contains ⟨.code, "demo.f.g"⟩ ∧ ¬opened.contains ⟨.code, "demo.f"⟩ := by
  have hkeyed : bracketedStore.Keyed := keyed_empty.putAll _
  have hlegible : ∀ e ∈ bracketedStore.embeddings, e.Legible :=
    List.forall_mem_singleton.2 ⟨⟨_, parse?_bracketed⟩, fun x _ => x.readsBack⟩
  have hsaved := saveAt_demo bracketedStore
  have hfile := holds_of_saveAt hsaved
  have hopen := openAt_of_write hlegible hfile
  refine ⟨hkeyed, hlegible, rfl, by decide, _, hsaved, ?_, ?_⟩
  · intro hopens
    obtain ⟨-, hkeeps⟩ := (opensTo_write_iff hkeyed hlegible hfile).1 hopens
    obtain ⟨symbol, hsymbol, hpath⟩ := hkeeps _ List.mem_cons_self
    have hsame := Except.ok.inj (hsymbol.symm.trans parse?_bracketed)
    rw [hsame] at hpath
    exact absurd hpath (by decide)
  · have hreread : bracketedStore.embeddings.map Embedding.reread =
        [⟨.ofParts spelledParts, "", [.low], .code⟩] := by
      change [Embedding.reread _] = _
      rw [Embedding.reread_eq parse?_bracketed]
    rw [hreread] at hopen
    exact ⟨({} : VectorStore Gauge).putAll [⟨.ofParts spelledParts, "", [.low], .code⟩], hopen,
      by decide, by decide⟩

end VectorStore

end CodeAtlas
