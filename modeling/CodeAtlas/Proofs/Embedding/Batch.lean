import CodeAtlas.Proofs.Embedding.Keyed
import Mathlib.Logic.Function.Basic

/-! A batch against its items one by one. Both give each item a vector or refresh what is there, but
the batch looks at the store of before the batch and the items one by one at what the items before
them left. -/

namespace CodeAtlas

variable {κ σ : Type}

/-- The provider never fails, and answers a batch as it answers its texts. -/
structure EmbeddingProvider.Reliable (p : EmbeddingProvider (StateM σ) κ) (vec : String → List κ) :
    Prop where
  vector : ∀ text st, (p.vector text st).1 = .ok (vec text)
  batch : ∀ texts st, (p.batch texts st).1 = .ok (texts.map vec)

namespace VectorStore

/-- Each item on the store that the one before it left, up to the first failure. -/
def processEach {m : Type → Type} [Monad m] (p : EmbeddingProvider m κ) (s : VectorStore κ) :
    List (Symbol × String) → m (Except EmbeddingError (List EmbeddingUpdate) × VectorStore κ)
  | [] => return (.ok [], s)
  | (symbol, source) :: rest => do
    match ← s.process p symbol source with
    | (.error e, s) => return (.error e, s)
    | (.ok update, s) =>
      let (updates, s) ← s.processEach p rest
      return (updates.map (update :: ·), s)

/-! ### Texts -/

def codeText (s : VectorStore κ) (path : String) : Option String := s.text? ⟨.code, path⟩

def textsAfter (texts : String → Option String) (items : List (Symbol × String)) :
    String → Option String :=
  items.foldl (fun texts x => Function.update texts x.1.dotpath (some x.2)) texts

/-- An item finds its own text left by the items before it just where the stored texts have it. -/
def Steady (stored texts : String → Option String) (items : List (Symbol × String)) : Prop :=
  ∀ before x after, items = before ++ x :: after →
    (textsAfter texts before x.1.dotpath = some x.2 ↔ stored x.1.dotpath = some x.2)

variable {stored texts : String → Option String} {s : VectorStore κ}

theorem steady_nil : Steady stored texts [] := by
  intro before x after h
  cases before <;> cases h

theorem steady_cons {x : Symbol × String} {items : List (Symbol × String)} :
    Steady stored texts (x :: items) ↔
      (texts x.1.dotpath = some x.2 ↔ stored x.1.dotpath = some x.2) ∧
        Steady stored (Function.update texts x.1.dotpath (some x.2)) items := by
  constructor
  · intro h
    refine ⟨h [] x items rfl, fun before y after hitems => ?_⟩
    exact h (x :: before) y after (by rw [hitems, List.cons_append])
  · rintro ⟨hx, hitems⟩ before y after h
    cases before with
    | nil =>
      cases h
      exact hx
    | cons z before =>
      cases h
      exact hitems before y after rfl

theorem steady_of_nodup {items : List (Symbol × String)} (h : (items.map (·.1.dotpath)).Nodup)
    (hstored : ∀ x ∈ items, texts x.1.dotpath = stored x.1.dotpath) :
    Steady stored texts items := by
  induction items generalizing texts with
  | nil => exact steady_nil
  | cons x items ih =>
    obtain ⟨hx, hitems⟩ := List.nodup_cons.1 h
    refine steady_cons.2 ⟨by rw [hstored x List.mem_cons_self], ih hitems fun y hy => ?_⟩
    have hne : y.1.dotpath ≠ x.1.dotpath := by
      intro heq
      exact hx (List.mem_map.2 ⟨y, hy, heq⟩)
    rw [Function.update_of_ne hne, hstored y (List.mem_cons_of_mem x hy)]

theorem codeText_put (s : VectorStore κ) {e : Embedding κ} {path : String}
    (he : e.key = ⟨.code, path⟩) :
    (s.put e).codeText = Function.update s.codeText path (some e.document) := by
  funext other
  rw [codeText, text?_put, he]
  by_cases h : other = path
  · rw [if_pos (by rw [h]), h, Function.update_self]
  · rw [if_neg (by simpa using h), Function.update_of_ne h, codeText]

theorem text?_put_renamed (hs : s.Keyed) {symbol : Symbol} {e : Embedding κ}
    (he : s.get? ⟨.code, symbol.dotpath⟩ = some e) :
    (s.put (e.renamed symbol)).text? = s.text? := by
  funext k
  rw [text?_put, renamed_key (hs.key_eq he), renamed_document]
  split
  · rename_i hk
    rw [hk, text?, he, Option.map_some]
  · rfl

theorem codeText_put_renamed (hs : s.Keyed) {symbol : Symbol} {e : Embedding κ}
    (he : s.get? ⟨.code, symbol.dotpath⟩ = some e) :
    (s.put (e.renamed symbol)).codeText = s.codeText := by
  funext path
  rw [codeText, text?_put_renamed hs he, codeText]

theorem text?_refreshAll (hs : s.Keyed) (items : List (Symbol × String)) :
    (s.refreshAll items).2.text? = s.text? := by
  have hboth : (s.refreshAll items).2.Keyed ∧ (s.refreshAll items).2.text? = s.text? := by
    refine refreshAll_preserves (P := fun t => t.Keyed ∧ t.text? = s.text?) (fun _ h => h.1) ?_
      ⟨hs, rfl⟩ items
    rintro t symbol e ⟨ht, htext⟩ he
    exact ⟨ht.put _, (text?_put_renamed ht he).trans htext⟩
  exact hboth.2

theorem contains_eq_isSome_text? (s : VectorStore κ) (k : EmbeddingKey) :
    s.contains k = (s.text? k).isSome := Option.isSome_map.symm

theorem replacement_congr {s t : VectorStore κ} (h : s.text? = t.text?) (k : EmbeddingKey) :
    s.replacement k = t.replacement k := by
  rw [replacement, replacement, contains_eq_isSome_text?, contains_eq_isSome_text?, h]

/-! ### Runs -/

variable {p : EmbeddingProvider (StateM σ) κ} {vec : String → List κ}

theorem processEach_cons_some (p : EmbeddingProvider (StateM σ) κ) (hs : s.Keyed) {symbol : Symbol}
    {e : Embedding κ} (he : s.get? ⟨.code, symbol.dotpath⟩ = some e)
    (items : List (Symbol × String)) (st : σ) :
    ((s.processEach p ((symbol, e.document) :: items)).run st).1 =
      ((((s.put (e.renamed symbol)).processEach p items).run st).1.1.map
        (.ofRenaming e symbol :: ·),
        (((s.put (e.renamed symbol)).processEach p items).run st).1.2) := by
  rw [processEach, process, processWith_eq_some p .code hs he]
  rfl

theorem processEach_cons_none (hp : p.Reliable vec) {symbol : Symbol} {source : String}
    (h : s.codeText symbol.dotpath ≠ some source) (items : List (Symbol × String)) (st : σ) :
    ∃ st', ((s.processEach p ((symbol, source) :: items)).run st).1 =
      ((((s.put ⟨symbol, source, vec source, .code⟩).processEach p items).run st').1.1.map
          (s.replacement ⟨.code, symbol.dotpath⟩ :: ·),
        (((s.put ⟨symbol, source, vec source, .code⟩).processEach p items).run st').1.2) := by
  have hprocess : (s.process p symbol source).run st =
      (s.concludeWith symbol source .code (.ok (vec source)), (p.vector source st).2) := by
    rw [process, processWith_eq_none p .code h]
    change (s.concludeWith symbol source .code (p.vector source st).1, (p.vector source st).2) = _
    rw [hp.vector]
  refine ⟨(p.vector source st).2, ?_⟩
  rw [processEach, StateT.run_bind, hprocess]
  rfl

theorem processBatch_run (hp : p.Reliable vec) {items : List (Symbol × String)}
    {updates : List (Option EmbeddingUpdate)} (h : (s.refreshAll items).1 = .ok updates) (st : σ) :
    ((s.processBatch p items).run st).1 = (s.refreshAll items).2.supplyAll (items.zip updates)
      ((pendingTexts (items.zip updates)).map vec) := by
  rw [processBatch_eq p h]
  by_cases hnone : pendingTexts (items.zip updates) = []
  · rw [if_pos hnone, hnone]
    rfl
  · rw [if_neg hnone]
    change conclude _ _ (p.batch (pendingTexts (items.zip updates)) st).1 = _
    rw [hp.batch, conclude, if_pos (List.length_map _)]

/-! ### The two runs side by side -/

theorem ofRenaming_ne_replacement (e : Embedding κ) (symbol : Symbol) (s : VectorStore κ)
    (key : EmbeddingKey) : EmbeddingUpdate.ofRenaming e symbol ≠ s.replacement key := by
  unfold EmbeddingUpdate.ofRenaming replacement
  split <;> split <;> decide

theorem map_cons_eq_iff {ε β : Type} {a b : β} {x y : Except ε (List β)} (hx : ∃ l, x = .ok l) :
    x.map (a :: ·) = y.map (b :: ·) ↔ a = b ∧ x = y := by
  obtain ⟨l, rfl⟩ := hx
  cases y with
  | error e => simp [Except.map]
  | ok l' => simp [Except.map]

structure Abreast (one refreshed planned supplied : VectorStore κ) : Prop where
  one_keyed : one.Keyed
  refreshed_keyed : refreshed.Keyed
  supplied_keyed : supplied.Keyed
  planned_text : planned.text? = refreshed.text?
  one_eq : ∀ k, one.text? k = refreshed.text? k → one.get? k = refreshed.get? k
  supplied_eq : ∀ k, one.text? k = refreshed.text? k → supplied.get? k = planned.get? k
  supplied_eq_one : ∀ k, one.text? k ≠ refreshed.text? k → supplied.get? k = one.get? k

variable {one refreshed planned supplied : VectorStore κ}

theorem abreast_refl (hs : s.Keyed) (items : List (Symbol × String)) :
    Abreast s s (s.refreshAll items).2 (s.refreshAll items).2 :=
  ⟨hs, hs, hs.refreshAll items, text?_refreshAll hs items, fun _ _ => rfl, fun _ _ => rfl,
    fun _ hne => absurd rfl hne⟩

theorem Abreast.text_eq (h : Abreast one refreshed planned supplied) :
    supplied.text? = one.text? := by
  funext k
  by_cases hk : one.text? k = refreshed.text? k
  · rw [hk, ← h.planned_text, text?, text?, h.supplied_eq k hk]
  · rw [text?, text?, h.supplied_eq_one k hk]

theorem Abreast.eq (h : Abreast one refreshed refreshed supplied) : supplied = one := by
  refine h.supplied_keyed.ext h.one_keyed fun k => ?_
  by_cases hk : one.text? k = refreshed.text? k
  · rw [h.supplied_eq k hk, h.one_eq k hk]
  · exact h.supplied_eq_one k hk

theorem Abreast.rename (h : Abreast one refreshed planned supplied) {symbol : Symbol}
    {e : Embedding κ} (hone : one.get? ⟨.code, symbol.dotpath⟩ = some e)
    (hrefreshed : refreshed.get? ⟨.code, symbol.dotpath⟩ = some e) :
    Abreast (one.put (e.renamed symbol)) (refreshed.put (e.renamed symbol)) planned supplied := by
  have hkey : (e.renamed symbol).key = ⟨.code, symbol.dotpath⟩ :=
    renamed_key (h.one_keyed.key_eq hone)
  have htext := text?_put_renamed h.one_keyed hone
  have htext' := text?_put_renamed h.refreshed_keyed hrefreshed
  refine ⟨h.one_keyed.put _, h.refreshed_keyed.put _, h.supplied_keyed,
    h.planned_text.trans htext'.symm,
    fun k hk => ?_, fun k hk => ?_, fun k hk => ?_⟩
  · rw [htext, htext'] at hk
    rw [get?_put, get?_put, h.one_eq k hk]
  · rw [htext, htext'] at hk
    exact h.supplied_eq k hk
  · rw [htext, htext'] at hk
    have hne : k ≠ (e.renamed symbol).key := by
      rintro rfl
      exact hk (by rw [hkey, text?, text?, hone, hrefreshed])
    rw [get?_put, if_neg hne, h.supplied_eq_one k hk]

theorem Abreast.store (h : Abreast one refreshed planned supplied) {e : Embedding κ}
    (hother : refreshed.text? e.key ≠ some e.document) :
    Abreast (one.put e) refreshed planned (supplied.put e) := by
  -- under its key, what is refreshed has another text from now on
  have hne : ∀ k, (one.put e).text? k = refreshed.text? k → k ≠ e.key := by
    rintro k hk rfl
    rw [text?_put, if_pos rfl] at hk
    exact hother hk.symm
  have htext : ∀ k, k ≠ e.key → (one.put e).text? k = one.text? k := by
    intro k hk
    rw [text?_put, if_neg hk]
  refine ⟨h.one_keyed.put e, h.refreshed_keyed, h.supplied_keyed.put e,
    h.planned_text, fun k hk => ?_,
    fun k hk => ?_, fun k hk => ?_⟩
  · rw [get?_put, if_neg (hne k hk)]
    exact h.one_eq k (htext k (hne k hk) ▸ hk)
  · rw [get?_put, if_neg (hne k hk)]
    exact h.supplied_eq k (htext k (hne k hk) ▸ hk)
  · rw [get?_put, get?_put]
    split
    · rfl
    · rename_i hkey
      exact h.supplied_eq_one k (htext k hkey ▸ hk)

structure Tied (batch each : Except EmbeddingError (List EmbeddingUpdate) × VectorStore κ)
    (condition : Prop) : Prop where
  updates_eq_iff : batch.1 = each.1 ↔ condition
  store_eq : condition → batch.2 = each.2

theorem Tied.eq_iff {batch each : Except EmbeddingError (List EmbeddingUpdate) × VectorStore κ}
    {condition : Prop} (h : Tied batch each condition) : batch = each ↔ condition := by
  constructor
  · rintro rfl
    exact h.updates_eq_iff.1 rfl
  · intro hcondition
    exact Prod.ext (h.updates_eq_iff.2 hcondition) (h.store_eq hcondition)

theorem Tied.cons {batch each : Except EmbeddingError (List EmbeddingUpdate) × VectorStore κ}
    {condition : Prop} (h : Tied batch each condition) (hok : ∃ l, batch.1 = .ok l)
    (update : EmbeddingUpdate) :
    Tied (batch.1.map (update :: ·), batch.2) (each.1.map (update :: ·), each.2) condition :=
  ⟨by rw [map_cons_eq_iff hok, and_iff_right rfl, h.updates_eq_iff], h.store_eq⟩

theorem tied_of_ne {batch each : Except EmbeddingError (List EmbeddingUpdate) × VectorStore κ}
    {condition : Prop} (hok : ∃ l, batch.1 = .ok l) {update update' : EmbeddingUpdate}
    (hne : update ≠ update') (hnot : ¬condition) :
    Tied (batch.1.map (update :: ·), batch.2) (each.1.map (update' :: ·), each.2) condition := by
  refine ⟨iff_of_false (fun heq => ?_) hnot, fun hcondition => absurd hcondition hnot⟩
  exact hne ((map_cons_eq_iff hok).1 heq).1

theorem supplyAll_tied (hp : p.Reliable vec) {items : List (Symbol × String)}
    {updates : List (Option EmbeddingUpdate)}
    (hupdates : (refreshed.refreshAll items).1 = .ok updates)
    (h : Abreast one refreshed (refreshed.refreshAll items).2 supplied) (st : σ) :
    Tied (supplied.supplyAll (items.zip updates) ((pendingTexts (items.zip updates)).map vec))
      ((one.processEach p items).run st).1 (Steady refreshed.codeText one.codeText items) := by
  induction items generalizing updates one refreshed supplied st with
  | nil =>
    cases hupdates
    exact ⟨iff_of_true rfl steady_nil, fun _ => h.eq⟩
  | cons item items ih =>
    obtain ⟨symbol, source⟩ := item
    rw [steady_cons]
    by_cases hhit : refreshed.codeText symbol.dotpath = some source
    · -- the batch refreshes the item
      obtain ⟨e, he, rfl⟩ := Option.map_eq_some_iff.1 hhit
      obtain ⟨rest, hrest⟩ :=
        exists_refreshAll_eq_ok (h.refreshed_keyed.put (e.renamed symbol)) items
      rw [refreshAll_cons_some h.refreshed_keyed he] at hupdates h
      rw [hrest] at hupdates
      obtain rfl := Except.ok.inj hupdates
      rw [List.zip_cons_cons, pendingTexts_cons_some, supplyAll_cons_some]
      have hok := exists_supplyAll_eq_ok vec supplied (items.zip rest)
      by_cases hone : one.codeText symbol.dotpath = some e.document
      · have hget : one.get? ⟨.code, symbol.dotpath⟩ = some e :=
          (h.one_eq _ (hone.trans hhit.symm)).trans he
        have htied := ih hrest (h.rename hget he) st
        rw [codeText_put_renamed h.refreshed_keyed he,
          codeText_put_renamed h.one_keyed hget] at htied
        rw [processEach_cons_some p h.one_keyed hget, and_iff_right (iff_of_true hone hhit), ← hone,
          Function.update_eq_self]
        exact htied.cons hok _
      · obtain ⟨st', heach⟩ := processEach_cons_none hp hone items st
        rw [heach]
        exact tied_of_ne hok (ofRenaming_ne_replacement e symbol one _) fun hsteady =>
          hone (hsteady.1.2 hhit)
    · -- the batch asks for a vector of the item
      obtain ⟨rest, hrest⟩ := exists_refreshAll_eq_ok h.refreshed_keyed items
      rw [refreshAll_cons_none hhit] at hupdates h
      rw [hrest] at hupdates
      obtain rfl := Except.ok.inj hupdates
      rw [List.zip_cons_cons, pendingTexts_cons_none, List.map_cons, supplyAll_cons_none]
      have hok := exists_supplyAll_eq_ok vec (supplied.put ⟨symbol, source, vec source, .code⟩)
        (items.zip rest)
      by_cases hone : one.codeText symbol.dotpath = some source
      · obtain ⟨e, he, rfl⟩ := Option.map_eq_some_iff.1 hone
        rw [processEach_cons_some p h.one_keyed he]
        exact tied_of_ne hok (ofRenaming_ne_replacement e symbol supplied _).symm
          fun hsteady => hhit (hsteady.1.1 hone)
      · obtain ⟨st', heach⟩ := processEach_cons_none hp hone items st
        have hkey : (⟨symbol, source, vec source, .code⟩ : Embedding κ).key =
            ⟨.code, symbol.dotpath⟩ := rfl
        have htied := ih hrest (h.store (e := ⟨symbol, source, vec source, .code⟩) hhit) st'
        rw [codeText_put one hkey] at htied
        rw [heach, and_iff_right (iff_of_false hone hhit), replacement_congr h.text_eq]
        exact htied.cons hok _

theorem processBatch_tied (hp : p.Reliable vec) (hs : s.Keyed) (items : List (Symbol × String))
    (st st' : σ) :
    Tied ((s.processBatch p items).run st).1 ((s.processEach p items).run st').1
      (Steady s.codeText s.codeText items) := by
  obtain ⟨updates, hupdates⟩ := exists_refreshAll_eq_ok hs items
  rw [processBatch_run hp hupdates]
  exact supplyAll_tied hp hupdates (abreast_refl hs items) st'

theorem processBatch_eq_processEach_of_nodup (hp : p.Reliable vec) (hs : s.Keyed)
    {items : List (Symbol × String)} (h : (items.map (·.1.dotpath)).Nodup) (st st' : σ) :
    ((s.processBatch p items).run st).1 = ((s.processEach p items).run st').1 :=
  (processBatch_tied hp hs items st st').eq_iff.2 (steady_of_nodup h fun _ _ => rfl)

/-- A batch succeeds, and it gives the updates and leaves the store of its items one by one if and
only if the items are steady. Where it does not, the updates already differ. -/
theorem processBatch_eq_processEach_iff (hp : p.Reliable vec) (hs : s.Keyed)
    (items : List (Symbol × String)) (st st' : σ) :
    (∃ updates, ((s.processBatch p items).run st).1.1 = .ok updates) ∧
      (((s.processBatch p items).run st).1 = ((s.processEach p items).run st').1 ↔
        Steady s.codeText s.codeText items) ∧
      (((s.processBatch p items).run st).1.1 = ((s.processEach p items).run st').1.1 ↔
        Steady s.codeText s.codeText items) := by
  have htied := processBatch_tied hp hs items st st'
  refine ⟨?_, htied.eq_iff, htied.updates_eq_iff⟩
  obtain ⟨updates, hupdates⟩ := exists_refreshAll_eq_ok hs items
  rw [processBatch_run hp hupdates]
  exact exists_supplyAll_eq_ok vec _ _

def lengthProvider : EmbeddingProvider (StateM Nat) Nat where
  vector text := fun asked => (.ok [text.length], asked + 1)
  batch texts := fun asked => (.ok (texts.map fun text => [text.length]), asked + texts.length)

theorem lengthProvider_reliable : lengthProvider.Reliable fun text => [text.length] :=
  ⟨fun _ _ => rfl, fun _ _ => rfl⟩

def demoFunction (name : String) : Symbol :=
  ⟨"scip-python python demo 1 demo/" ++ name ++ "().",
    ⟨"scip-python", ⟨"python", "demo", "1"⟩, [⟨"demo", .scope, none⟩, ⟨name, .method, none⟩]⟩⟩

def demoStore : VectorStore Nat := put {} ⟨demoFunction "run", "old", [3], .code⟩

theorem demoStore_keyed : demoStore.Keyed := keyed_empty.put _

def demoItems : List (Symbol × String) :=
  [(demoFunction "run", "new"), (demoFunction "stop", "old")]

theorem processBatch_demoItems :
    ((demoStore.processBatch lengthProvider demoItems).run 0).1 =
      ((demoStore.processEach lengthProvider demoItems).run 0).1 := by
  have hsteady : Steady demoStore.codeText demoStore.codeText demoItems :=
    steady_of_nodup (by decide +kernel) fun _ _ => rfl
  exact (processBatch_eq_processEach_iff lengthProvider_reliable demoStore_keyed
    demoItems 0 0).2.1.2 hsteady

/-- The same function twice, with a new text and with the stored one again: the batch calls the
second unchanged and leaves the first. -/
theorem exists_processBatch_ne_processEach :
    ∃ (s : VectorStore Nat) (p : EmbeddingProvider (StateM Nat) Nat) (vec : String → List Nat)
      (items : List (Symbol × String)), s.Keyed ∧ p.Reliable vec ∧
      ((s.processBatch p items).run 0).1.1 = .ok [.superseded, .unchanged] ∧
      ((s.processEach p items).run 0).1.1 = .ok [.superseded, .superseded] ∧
      ((s.processBatch p items).run 0).1.2.codeText "demo.run" = some "new" ∧
      ((s.processEach p items).run 0).1.2.codeText "demo.run" = some "old" :=
  ⟨demoStore, lengthProvider, fun text => [text.length],
    [(demoFunction "run", "new"), (demoFunction "run", "old")], demoStore_keyed,
    lengthProvider_reliable,
    by rfl, by rfl, by decide +kernel, by decide +kernel⟩

end VectorStore

end CodeAtlas
