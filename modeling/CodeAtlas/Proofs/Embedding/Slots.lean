import CodeAtlas.Proofs.Embedding.Upkeep

/-! One slot of a store at a time. A call of the upkeep works in one slot only: it does there what
it would do if the rest of the store were gone, and leaves that rest as it was. -/

namespace CodeAtlas

variable {κ σ : Type}

namespace VectorStore

def only (s : VectorStore κ) (slot : EmbeddingSlot) : VectorStore κ :=
  ⟨s.entries.filter (·.1.slot = slot)⟩

def Call.slot : Call → EmbeddingSlot
  | .process .. => .code
  | .batch .. => .code
  | .documentation .. => .doc

variable {s : VectorStore κ} {slot : EmbeddingSlot}

theorem get?_only (s : VectorStore κ) (slot : EmbeddingSlot) (k : EmbeddingKey) :
    (s.only slot).get? k = if k.slot = slot then s.get? k else none := by
  have hfilter := Ordered.lookup_filter (fun k : EmbeddingKey => decide (k.slot = slot)) s.entries k
  simp only [decide_eq_true_eq] at hfilter
  exact hfilter

theorem Keyed.only (hs : s.Keyed) (slot : EmbeddingSlot) : (s.only slot).Keyed :=
  ⟨fun x hx => hs.own x (List.mem_of_mem_filter hx), hs.ascending.filter _⟩

theorem only_only (s : VectorStore κ) (slot : EmbeddingSlot) :
    (s.only slot).only slot = s.only slot := by
  simp only [only, List.filter_filter, Bool.and_self]

theorem text?_only (s : VectorStore κ) (path : String) :
    (s.only slot).text? ⟨slot, path⟩ = s.text? ⟨slot, path⟩ := by
  rw [text?, text?, get?_only, if_pos rfl]

theorem replacement_only (s : VectorStore κ) (path : String) :
    (s.only slot).replacement ⟨slot, path⟩ = s.replacement ⟨slot, path⟩ := by
  rw [replacement, replacement, contains, contains, get?_only, if_pos rfl]

theorem inSlot_only (hs : s.Keyed) (slot : EmbeddingSlot) :
    (s.only slot).inSlot slot = s.inSlot slot := by
  rw [inSlot, inSlot, embeddings, embeddings, List.filter_map, List.filter_map, only,
    List.filter_filter]
  congr 1
  refine List.filter_congr fun x hx => ?_
  have hslot : x.2.slot = x.1.slot := congrArg EmbeddingKey.slot (hs.own x hx)
  simp [hslot]

/-! ### Writes -/

theorem only_put_own (hs : s.Keyed) {e : Embedding κ} (he : e.slot = slot) :
    (s.put e).only slot = (s.only slot).put e := by
  refine ((hs.put e).only slot).ext ((hs.only slot).put e) fun k => ?_
  rw [get?_only, get?_put, get?_put, get?_only]
  by_cases hk : k = e.key
  · have hslot : e.key.slot = slot := he
    rw [if_pos hk, if_pos hk, hk, if_pos hslot]
  · rw [if_neg hk, if_neg hk]

theorem only_put_other (hs : s.Keyed) {e : Embedding κ} (he : e.slot ≠ slot) :
    (s.put e).only slot = s.only slot := by
  refine ((hs.put e).only slot).ext (hs.only slot) fun k => ?_
  rw [get?_only, get?_only, get?_put]
  split
  · rename_i hk
    have hne : k ≠ e.key := by
      rintro rfl
      exact he hk
    rw [if_neg hne]
  · rfl

theorem slot_renamed (hs : s.Keyed) {symbol : Symbol} {e : Embedding κ}
    (he : s.get? ⟨slot, symbol.dotpath⟩ = some e) : (e.renamed symbol).slot = slot :=
  congrArg EmbeddingKey.slot (renamed_key (hs.key_eq he))

/-! ### What calls keep -/

section
variable {P : VectorStore κ → Prop} (hkeyed : ∀ s, P s → s.Keyed)
  (hput : ∀ s e, P s → e.slot = slot → P (s.put e))
include hkeyed hput

theorem processWith_preserves (p : EmbeddingProvider (StateM σ) κ) (hs : P s) (symbol : Symbol)
    (document : String) {kind : EmbeddingKind} (hkind : kind.slot = slot) (st : σ) :
    P ((s.processWith p symbol document kind).run st).1.2 := by
  subst hkind
  rcases refresh_cases (hkeyed s hs) symbol document kind.slot with ⟨hother, -⟩ | ⟨e, he, rfl, -⟩
  · rw [processWith_eq_none p kind hother]
    change P (s.concludeWith symbol document kind (p.vector document st).1).2
    cases (p.vector document st).1 with
    | error e => exact hs
    | ok vector => exact hput s _ hs rfl
  · rw [processWith_eq_some p kind (hkeyed s hs) he]
    exact hput s _ hs (slot_renamed (hkeyed s hs) he)

end

section
variable {P : VectorStore κ → Prop} (hkeyed : ∀ s, P s → s.Keyed)
  (hput : ∀ s e, P s → e.slot = .code → P (s.put e))
include hput

theorem supplyAll_preserves (hs : P s) (planned : List ((Symbol × String) × Option EmbeddingUpdate))
    (vectors : List (List κ)) : P (s.supplyAll planned vectors).2 := by
  induction planned generalizing s vectors with
  | nil => exact hs
  | cons item planned ih =>
    obtain ⟨⟨symbol, source⟩, update⟩ := item
    cases update with
    | some update =>
      rw [supplyAll_cons_some]
      exact ih hs vectors
    | none =>
      cases vectors with
      | nil => exact hs
      | cons vector vectors =>
        rw [supplyAll_cons_none]
        exact ih (hput s _ hs rfl) vectors

include hkeyed

theorem processBatch_preserves (p : EmbeddingProvider (StateM σ) κ) (hs : P s)
    (items : List (Symbol × String))
    (st : σ) : P ((s.processBatch p items).run st).1.2 := by
  obtain ⟨updates, hupdates⟩ := exists_refreshAll_eq_ok (hkeyed s hs) items
  have hrefreshed : P (s.refreshAll items).2 :=
    refreshAll_preserves hkeyed (fun s _ _ h he =>
      hput s _ h (slot_renamed (hkeyed s h) he)) hs items
  rw [processBatch_eq p hupdates]
  split
  · exact supplyAll_preserves hput hrefreshed _ _
  · change P (conclude _ _ (p.batch _ st).1).2
    cases (p.batch (pendingTexts (items.zip updates)) st).1 with
    | error e => exact hrefreshed
    | ok vectors =>
      rw [conclude]
      split
      · exact supplyAll_preserves hput hrefreshed _ _
      · exact hrefreshed

end

theorem perform_preserves {P : VectorStore κ → Prop} (p : EmbeddingProvider (StateM σ) κ)
    (call : Call) (hkeyed : ∀ s, P s → s.Keyed)
    (hput : ∀ s e, P s → e.slot = call.slot → P (s.put e)) (hs : P s) (st : σ) :
    P ((s.perform p call).run st).1.2 := by
  cases call with
  | process symbol source => exact processWith_preserves hkeyed hput p hs symbol source rfl st
  | batch items => exact processBatch_preserves hkeyed hput p hs items st
  | documentation symbol document summary context =>
    exact processWith_preserves hkeyed hput p hs symbol document rfl st

theorem Keyed.perform (hs : s.Keyed) (p : EmbeddingProvider (StateM σ) κ) (call : Call) (st : σ) :
    ((s.perform p call).run st).1.2.Keyed :=
  perform_preserves p call (fun _ h => h) (fun _ _ h _ => h.put _) hs st

theorem perform_only_other (hs : s.Keyed) (p : EmbeddingProvider (StateM σ) κ) {call : Call}
    (hcall : call.slot ≠ slot) (st : σ) :
    ((s.perform p call).run st).1.2.only slot = s.only slot := by
  let P (t : VectorStore κ) : Prop := t.Keyed ∧ t.only slot = s.only slot
  have hput : ∀ t e, P t → e.slot = call.slot → P (t.put e) := by
    rintro t e ⟨ht, honly⟩ he
    exact ⟨ht.put e, (only_put_other ht (he ▸ hcall)).trans honly⟩
  have hkept : P ((s.perform p call).run st).1.2 :=
    perform_preserves p call (fun _ h => h.1) hput ⟨hs, rfl⟩ st
  exact hkept.2

/-! ### What calls do in their own slot -/

/-- An outcome as it looks from a slot. -/
def seenFrom {β : Type} (slot : EmbeddingSlot) (outcome : β × VectorStore κ) : β × VectorStore κ :=
  (outcome.1, outcome.2.only slot)

section
variable {m : Type → Type} [Monad m] [LawfulMonad m] (p : EmbeddingProvider m κ)

theorem concludeWith_only (hs : s.Keyed) (symbol : Symbol) (document : String)
    (kind : EmbeddingKind) (outcome : Except EmbeddingError (List κ)) :
    (s.only kind.slot).concludeWith symbol document kind outcome =
      seenFrom kind.slot (s.concludeWith symbol document kind outcome) := by
  cases outcome with
  | error e => rfl
  | ok vector =>
    have hput := only_put_own hs (e := ⟨symbol, document, vector, kind⟩) rfl
    rw [concludeWith, concludeWith, replacement_only, seenFrom]
    exact congrArg (Prod.mk _) hput.symm

theorem processWith_only (hs : s.Keyed) (symbol : Symbol) (document : String)
    (kind : EmbeddingKind) :
    (s.only kind.slot).processWith p symbol document kind =
      seenFrom kind.slot <$> s.processWith p symbol document kind := by
  have honly := hs.only kind.slot
  rcases refresh_cases hs symbol document kind.slot with ⟨hother, -⟩ | ⟨e, he, rfl, -⟩
  · have hother' := hother
    rw [← text?_only] at hother'
    rw [processWith_eq_none p kind hother, processWith_eq_none p kind hother']
    simp only [map_bind, map_pure, concludeWith_only hs]
  · have he' : (s.only kind.slot).get? ⟨kind.slot, symbol.dotpath⟩ = some e := by
      rw [get?_only, if_pos rfl, he]
    rw [processWith_eq_some p kind hs he, processWith_eq_some p kind honly he', map_pure, seenFrom,
      only_put_own hs (slot_renamed hs he)]

theorem refreshAll_only (hs : s.Keyed) (items : List (Symbol × String)) :
    (s.only .code).refreshAll items = seenFrom .code (s.refreshAll items) := by
  induction items generalizing s with
  | nil => rfl
  | cons item items ih =>
    obtain ⟨symbol, source⟩ := item
    rcases refresh_cases hs symbol source .code with ⟨hother, -⟩ | ⟨e, he, rfl, -⟩
    · have hother' := hother
      rw [← text?_only] at hother'
      rw [refreshAll_cons_none hother, refreshAll_cons_none hother', ih hs]
      rfl
    · have he' : (s.only .code).get? ⟨.code, symbol.dotpath⟩ = some e := by
        rw [get?_only, if_pos rfl, he]
      rw [refreshAll_cons_some hs he, refreshAll_cons_some (hs.only .code) he',
        ← only_put_own hs (slot_renamed hs he), ih (hs.put _)]
      rfl

theorem supplyAll_only (hs : s.Keyed) (planned : List ((Symbol × String) × Option EmbeddingUpdate))
    (vectors : List (List κ)) :
    (s.only .code).supplyAll planned vectors = seenFrom .code (s.supplyAll planned vectors) := by
  induction planned generalizing s vectors with
  | nil => rfl
  | cons item planned ih =>
    obtain ⟨⟨symbol, source⟩, update⟩ := item
    cases update with
    | some update =>
      rw [supplyAll_cons_some, supplyAll_cons_some, ih hs]
      rfl
    | none =>
      cases vectors with
      | nil => rfl
      | cons vector vectors =>
        have hput : (s.put ⟨symbol, source, vector, .code⟩).only .code = _ := only_put_own hs rfl
        rw [supplyAll_cons_none, supplyAll_cons_none, ← hput, ih (hs.put _), replacement_only]
        rfl

theorem conclude_only (hs : s.Keyed) (planned : List ((Symbol × String) × Option EmbeddingUpdate))
    (outcome : Except EmbeddingError (List (List κ))) :
    (s.only .code).conclude planned outcome = seenFrom .code (s.conclude planned outcome) := by
  cases outcome with
  | error e => rfl
  | ok vectors =>
    rw [conclude, conclude]
    split
    · exact supplyAll_only hs planned vectors
    · rfl

theorem processBatch_only (hs : s.Keyed) (items : List (Symbol × String)) :
    (s.only .code).processBatch p items = seenFrom .code <$> s.processBatch p items := by
  obtain ⟨updates, hupdates⟩ := exists_refreshAll_eq_ok hs items
  have hrefresh := refreshAll_only hs items
  have hupdates' : ((s.only .code).refreshAll items).1 = .ok updates := by
    rw [hrefresh, seenFrom, hupdates]
  have hstore : ((s.only .code).refreshAll items).2 = (s.refreshAll items).2.only .code := by
    rw [hrefresh, seenFrom]
  have hkeyed := hs.refreshAll items
  rw [processBatch_eq p hupdates, processBatch_eq p hupdates', hstore]
  split
  · rw [map_pure, supplyAll_only hkeyed]
  · simp only [map_bind, map_pure, conclude_only hkeyed]

theorem perform_only_own (hs : s.Keyed) (call : Call) :
    (s.only call.slot).perform p call = seenFrom call.slot <$> s.perform p call := by
  cases call with
  | process symbol source =>
    have hprocess : (s.only .code).processWith p symbol source .code = _ :=
      processWith_only p hs symbol source .code
    simp only [perform, process, Call.slot]
    rw [hprocess]
    simp [seenFrom, EmbeddingKind.slot]
  | batch items => exact processBatch_only p hs items
  | documentation symbol document summary context =>
    have hprocess : (s.only .doc).processWith p symbol document (.doc summary context) = _ :=
      processWith_only p hs symbol document (.doc summary context)
    simp only [perform, processDocumentation, Call.slot]
    rw [hprocess]
    simp [seenFrom, EmbeddingKind.slot]

end
end VectorStore
end CodeAtlas
