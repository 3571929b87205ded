import CodeAtlas.Proofs.Embedding.Keyed

/-! Stores that only the upkeep has written. Whatever calls have been made and whether or not they
failed, every vector is the one of the text stored with it, and the only errors are those of the
provider. -/

namespace CodeAtlas

variable {κ σ : Type}

namespace EmbeddingProvider

/-- The provider may fail or lose count, but its vectors depend on nothing but the texts. -/
structure Textual (p : EmbeddingProvider (StateM σ) κ) (vec : String → List κ) : Prop where
  vector : ∀ text st v, (p.vector text st).1 = .ok v → v = vec text
  batch : ∀ texts st vs, (p.batch texts st).1 = .ok vs →
    vs = texts.map vec ∨ vs.length ≠ texts.length

/-- The provider itself fails with an error, at some text or texts and in some state. -/
def Fails (p : EmbeddingProvider (StateM σ) κ) (e : EmbeddingError) : Prop :=
  (∃ text st, (p.vector text st).1 = .error e) ∨ ∃ texts st, (p.batch texts st).1 = .error e

end EmbeddingProvider

namespace VectorStore

/-! ### Calls -/

inductive Call where
  | process (symbol : Symbol) (source : String)
  | batch (items : List (Symbol × String))
  | documentation (symbol : Symbol) (document summary context : String)

abbrev Answer := Except EmbeddingError (List EmbeddingUpdate)

section
variable {m : Type → Type} [Monad m]

def perform (p : EmbeddingProvider m κ) (s : VectorStore κ) : Call → m (Answer × VectorStore κ)
  | .process symbol source => do
    let (update, s) ← s.process p symbol source
    return (update.map ([·]), s)
  | .batch items => s.processBatch p items
  | .documentation symbol document summary context => do
    let (update, s) ← s.processDocumentation p symbol document summary context
    return (update.map ([·]), s)

def performAll (p : EmbeddingProvider m κ) (s : VectorStore κ) :
    List Call → m (List Answer × VectorStore κ)
  | [] => return ([], s)
  | call :: rest => do
    let (answer, s) ← s.perform p call
    let (answers, s) ← s.performAll p rest
    return (answer :: answers, s)

end

/-! ### One call -/

/-- Stored vectors are those of the stored texts. -/
structure Faithful (vec : String → List κ) (s : VectorStore κ) : Prop extends s.Keyed where
  vector_eq : ∀ x ∈ s.entries, x.2.vector = vec x.2.document

variable {vec : String → List κ} {s : VectorStore κ}

theorem faithful_empty : Faithful vec ({} : VectorStore κ) := ⟨keyed_empty, by simp⟩

theorem Faithful.put (h : s.Faithful vec) {e : Embedding κ} (he : e.vector = vec e.document) :
    (s.put e).Faithful vec := by
  refine ⟨h.toKeyed.put e, fun x hx => ?_⟩
  rcases mem_put hx with rfl | hx
  · exact he
  · exact h.vector_eq x hx

theorem Faithful.put_renamed (h : s.Faithful vec) {k : EmbeddingKey} {e : Embedding κ}
    (he : s.get? k = some e) (symbol : Symbol) : (s.put (e.renamed symbol)).Faithful vec := by
  refine h.put ?_
  rw [renamed_vector, renamed_document]
  exact h.vector_eq _ (mem_of_lookup he)

theorem Faithful.put_built (h : s.Faithful vec) (symbol : Symbol) (document : String)
    (kind : EmbeddingKind) : (s.put ⟨symbol, document, vec document, kind⟩).Faithful vec :=
  h.put rfl

/-- An outcome of the upkeep: the store stays faithful, and an error is the provider's own or says
that it lost count. -/
structure Sound (p : EmbeddingProvider (StateM σ) κ) (vec : String → List κ) {β : Type}
    (outcome : Except EmbeddingError β × VectorStore κ) : Prop where
  faithful : outcome.2.Faithful vec
  fails : ∀ e, outcome.1 = .error e → p.Fails e ∨ ∃ reason, e = .provider reason

theorem Sound.of_ok {p : EmbeddingProvider (StateM σ) κ} {β : Type} {b : β} (h : s.Faithful vec) :
    Sound p vec (Except.ok b, s) := ⟨h, fun _ he => nomatch he⟩

variable {p : EmbeddingProvider (StateM σ) κ}

theorem Sound.map {β γ : Type} {f : β → γ} {outcome : Except EmbeddingError β × VectorStore κ}
    (h : Sound p vec outcome) : Sound p vec (outcome.1.map f, outcome.2) := by
  obtain ⟨result, s⟩ := outcome
  refine ⟨h.faithful, fun e he => ?_⟩
  cases result with
  | error e' =>
    cases he
    exact h.fails _ rfl
  | ok b => cases he

theorem processWith_sound (hp : p.Textual vec) (hs : s.Faithful vec) (symbol : Symbol)
    (document : String) (kind : EmbeddingKind) (st : σ) :
    Sound p vec ((s.processWith p symbol document kind).run st).1 := by
  rcases refresh_cases hs.toKeyed symbol document kind.slot with ⟨hother, -⟩ | ⟨e, he, rfl, -⟩
  · rw [processWith_eq_none p kind hother]
    change Sound p vec (s.concludeWith symbol document kind (p.vector document st).1)
    cases houtcome : (p.vector document st).1 with
    | error e =>
      refine ⟨hs, fun e' he' => ?_⟩
      cases he'
      exact .inl (.inl ⟨document, st, houtcome⟩)
    | ok v =>
      obtain rfl := hp.vector document st v houtcome
      exact .of_ok (hs.put_built symbol document kind)
  · rw [processWith_eq_some p kind hs.toKeyed he]
    exact .of_ok (hs.put_renamed he symbol)

/-! ### A batch -/

theorem Faithful.refreshAll (hs : s.Faithful vec) (items : List (Symbol × String)) :
    (s.refreshAll items).2.Faithful vec :=
  refreshAll_preserves (fun _ h => h.toKeyed) (fun _ symbol _ h he =>
    h.put_renamed he symbol) hs items

theorem Faithful.supplyAll (hs : s.Faithful vec)
    (planned : List ((Symbol × String) × Option EmbeddingUpdate)) :
    (s.supplyAll planned ((pendingTexts planned).map vec)).2.Faithful vec := by
  induction planned generalizing s with
  | nil => exact hs
  | cons item planned ih =>
    obtain ⟨⟨symbol, source⟩, update⟩ := item
    cases update with
    | some update =>
      rw [pendingTexts_cons_some, supplyAll_cons_some]
      exact ih hs
    | none =>
      rw [pendingTexts_cons_none, List.map_cons, supplyAll_cons_none]
      exact ih (hs.put_built symbol source .code)

theorem supplyAll_sound (hs : s.Faithful vec)
    (planned : List ((Symbol × String) × Option EmbeddingUpdate)) :
    Sound p vec (s.supplyAll planned ((pendingTexts planned).map vec)) := by
  obtain ⟨updates, hupdates⟩ := exists_supplyAll_eq_ok vec s planned
  refine ⟨hs.supplyAll planned, fun e he => ?_⟩
  rw [hupdates] at he
  cases he

theorem conclude_sound (hp : p.Textual vec) (hs : s.Faithful vec)
    (planned : List ((Symbol × String) × Option EmbeddingUpdate)) (st : σ) :
    Sound p vec (s.conclude planned (p.batch (pendingTexts planned) st).1) := by
  cases houtcome : (p.batch (pendingTexts planned) st).1 with
  | error e =>
    refine ⟨hs, fun e' he' => ?_⟩
    cases he'
    exact .inl (.inr ⟨_, st, houtcome⟩)
  | ok vectors =>
    rw [conclude]
    split
    · rename_i hlength
      rcases hp.batch _ st vectors houtcome with rfl | hshort
      · exact supplyAll_sound hs planned
      · exact absurd hlength hshort
    · refine ⟨hs, fun e' he' => ?_⟩
      cases he'
      exact .inr ⟨_, rfl⟩

theorem processBatch_sound (hp : p.Textual vec) (hs : s.Faithful vec)
    (items : List (Symbol × String))
    (st : σ) : Sound p vec ((s.processBatch p items).run st).1 := by
  obtain ⟨updates, hupdates⟩ := exists_refreshAll_eq_ok hs.toKeyed items
  have hrefreshed := hs.refreshAll items
  rw [processBatch_eq p hupdates]
  by_cases hnone : pendingTexts (items.zip updates) = []
  · have hsupplied := supplyAll_sound (p := p) hrefreshed (items.zip updates)
    rw [hnone] at hsupplied
    rw [if_pos hnone]
    exact hsupplied
  · rw [if_neg hnone]
    exact conclude_sound hp hrefreshed (items.zip updates) st

/-! ### All calls -/

theorem perform_sound (hp : p.Textual vec) (hs : s.Faithful vec) (call : Call) (st : σ) :
    Sound p vec ((s.perform p call).run st).1 := by
  cases call with
  | process symbol source =>
    exact (processWith_sound hp hs symbol source .code st).map
  | batch items => exact processBatch_sound hp hs items st
  | documentation symbol document summary context =>
    exact (processWith_sound hp hs symbol document (.doc summary context) st).map

theorem performAll_sound (hp : p.Textual vec) (hs : s.Faithful vec) (calls : List Call) (st : σ) :
    ((s.performAll p calls).run st).1.2.Faithful vec ∧
      ∀ answer ∈ ((s.performAll p calls).run st).1.1, ∀ e, answer = .error e →
        p.Fails e ∨ ∃ reason, e = .provider reason := by
  induction calls generalizing s st with
  | nil => exact ⟨hs, fun _ hanswer => absurd hanswer List.not_mem_nil⟩
  | cons call calls ih =>
    have hcall := perform_sound hp hs call st
    have hrest := ih hcall.faithful ((s.perform p call).run st).2
    refine ⟨hrest.1, fun answer hanswer => ?_⟩
    rcases List.mem_cons.1 hanswer with rfl | hanswer
    · exact hcall.fails
    · exact hrest.2 answer hanswer

def storeAfter (p : EmbeddingProvider (StateM σ) κ) (calls : List Call) (st : σ) : VectorStore κ :=
  ((performAll p {} calls).run st).1.2

def answersTo (p : EmbeddingProvider (StateM σ) κ) (calls : List Call) (st : σ) : List Answer :=
  ((performAll p {} calls).run st).1.1

/-- Whatever calls have been made, the entries stand under their own keys, once each and in order,
with the vectors of their texts, and the store itself never fails a call over a key. -/
theorem storeAfter_consistent (hp : p.Textual vec) (calls : List Call) (st : σ) :
    (∀ x ∈ (storeAfter p calls st).entries, x.2.slot = x.1.slot ∧ x.2.symbol.dotpath = x.1.path) ∧
      ((storeAfter p calls st).entries.map (·.1)).Nodup ∧
      (∀ x ∈ (storeAfter p calls st).entries, x.2.vector = vec x.2.document) ∧
      (∀ answer ∈ answersTo p calls st, ∀ key,
        (answer = .error (.duplicateKey key) → p.Fails (.duplicateKey key)) ∧
          (answer = .error (.missingKey key) → p.Fails (.missingKey key))) ∧
      (storeAfter p calls st).embeddings.Pairwise fun a b => a.key.before b.key := by
  obtain ⟨hs, hanswers⟩ := performAll_sound hp faithful_empty calls st
  refine ⟨fun x hx => ?_, hs.ascending.nodup_keys, hs.vector_eq, fun answer hanswer key => ?_, ?_⟩
  · have hkey := hs.own x hx
    exact ⟨congrArg EmbeddingKey.slot hkey, congrArg EmbeddingKey.path hkey⟩
  · constructor
    · intro h
      rcases hanswers answer hanswer _ h with hfails | ⟨reason, hreason⟩
      · exact hfails
      · cases hreason
    · intro h
      rcases hanswers answer hanswer _ h with hfails | ⟨reason, hreason⟩
      · exact hfails
      · cases hreason
  · refine List.pairwise_map.2 (hs.ascending.imp_of_mem fun {x y} hx hy hxy => ?_)
    rwa [hs.own x hx, hs.own y hy]

/-- A provider of lengths that refuses one text, counts what it is asked and drops the last vector
of a batch. -/
def lossyProvider : EmbeddingProvider (StateM Nat) Nat where
  vector text := fun asked =>
    (if text = "bad" then .error (.provider "refused bad") else .ok [text.length], asked + 1)
  batch texts := fun asked => (.ok (texts.dropLast.map fun text => [text.length]),
    asked + texts.length)

theorem lossyProvider_textual : lossyProvider.Textual fun text => [text.length] := by
  constructor
  · intro text asked v h
    simp only [lossyProvider] at h
    split at h
    · cases h
    · cases h
      rfl
  · intro texts asked vs h
    cases h
    cases texts with
    | nil => exact .inl rfl
    | cons text texts => exact .inr (by simp)

theorem lossyProvider_not_fails (key : EmbeddingKey) :
    ¬lossyProvider.Fails (.duplicateKey key) := by
  rintro (⟨text, asked, h⟩ | ⟨texts, asked, h⟩)
  · simp only [lossyProvider] at h
    split at h <;> cases h
  · cases h

def lossySymbol (version : String) : Symbol :=
  ⟨"scip-python python demo " ++ version ++ " demo/run().",
    ⟨"scip-python", ⟨"python", "demo", version⟩, [⟨"demo", .scope, none⟩, ⟨"run", .method, none⟩]⟩⟩

/-- One symbol under two versions: stored, renamed, refused and refused again. -/
def lossyCalls : List Call := [
  .process (lossySymbol "1") "a", .process (lossySymbol "2") "a", .process (lossySymbol "2") "bad",
  .batch [(lossySymbol "1", "b")], .documentation (lossySymbol "2") "text" "summary" "context"]

theorem storeAfter_lossyCalls :
    (storeAfter lossyProvider lossyCalls 0).size = 2 ∧
      (∀ x ∈ (storeAfter lossyProvider lossyCalls 0).entries, x.2.vector = [x.2.document.length]) ∧
      (∀ answer ∈ answersTo lossyProvider lossyCalls 0, ∀ key, answer ≠
        .error (.duplicateKey key)) ∧
      (storeAfter lossyProvider lossyCalls 0).embeddings.Pairwise fun a b =>
        a.key.before b.key := by
  obtain ⟨-, -, hvector, hanswers, hordered⟩ :=
    storeAfter_consistent lossyProvider_textual lossyCalls 0
  refine ⟨by decide +kernel, hvector, fun answer hanswer key h => ?_, hordered⟩
  exact lossyProvider_not_fails key ((hanswers answer hanswer key).1 h)

end VectorStore

end CodeAtlas
