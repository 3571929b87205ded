import CodeAtlas.Proofs.Embedding.Failure

/-! A batch made twice. The provider is asked for the texts that are not stored, and after a batch
that succeeds all of them are: made again, it finds every item as it is and asks for nothing. -/

namespace CodeAtlas

variable {κ σ : Type}

/-- The provider with a record of what it is asked for, latest last. -/
def EmbeddingProvider.recorded (p : EmbeddingProvider (StateM σ) κ) :
    EmbeddingProvider (StateM (σ × List (List String))) κ where
  vector text := fun st => ((p.vector text st.1).1, (p.vector text st.1).2, st.2 ++ [[text]])
  batch texts := fun st => ((p.batch texts st.1).1, (p.batch texts st.1).2, st.2 ++ [texts])

namespace VectorStore

variable {s t : VectorStore κ} {items : List (Symbol × String)}

/-! ### What the provider is asked for -/

def missingTexts (s : VectorStore κ) (items : List (Symbol × String)) : List String :=
  (items.filter fun x => s.codeText x.1.dotpath ≠ some x.2).map (·.2)

theorem forall₂_refreshAll (hs : s.Keyed) {updates : List (Option EmbeddingUpdate)}
    (h : (s.refreshAll items).1 = .ok updates) :
    List.Forall₂ (fun x update => update = none ↔ s.codeText x.1.dotpath ≠
      some x.2) items updates := by
  induction items generalizing s updates with
  | nil =>
    cases h
    exact .nil
  | cons item items ih =>
    obtain ⟨symbol, source⟩ := item
    rcases refresh_cases hs symbol source .code with ⟨hother, -⟩ | ⟨e, he, rfl, -⟩
    · obtain ⟨rest, hrest⟩ := exists_refreshAll_eq_ok hs items
      rw [refreshAll_cons_none hother, hrest] at h
      obtain rfl := Except.ok.inj h
      exact .cons (iff_of_true rfl hother) (ih hs hrest)
    · obtain ⟨rest, hrest⟩ := exists_refreshAll_eq_ok (hs.put (e.renamed symbol)) items
      rw [refreshAll_cons_some hs he, hrest] at h
      obtain rfl := Except.ok.inj h
      have hstored : s.codeText symbol.dotpath = some e.document := by
        rw [codeText, text?, he, Option.map_some]
      have hitems := ih (hs.put (e.renamed symbol)) hrest
      rw [codeText_put_renamed hs he] at hitems
      exact .cons (iff_of_false (Option.some_ne_none _) fun hne => hne hstored) hitems

theorem pendingTexts_zip {updates : List (Option EmbeddingUpdate)}
    (h : List.Forall₂ (fun x update => update = none ↔ s.codeText x.1.dotpath ≠
      some x.2) items updates) :
    pendingTexts (items.zip updates) = s.missingTexts items := by
  induction h with
  | nil => rfl
  | @cons item update items updates hitem _ ih =>
    cases update with
    | none =>
      have hmissing := hitem.1 rfl
      rw [List.zip_cons_cons, pendingTexts_cons_none, ih, missingTexts, missingTexts,
        List.filter_cons_of_pos (by simpa using hmissing), List.map_cons]
    | some update =>
      have hstored : ¬s.codeText item.1.dotpath ≠ some item.2 := fun hmissing =>
        Option.some_ne_none update (hitem.2 hmissing)
      rw [List.zip_cons_cons, pendingTexts_cons_some, ih, missingTexts, missingTexts,
        List.filter_cons_of_neg (by simpa using hstored)]

theorem processBatch_recorded (p : EmbeddingProvider (StateM σ) κ) (hs : s.Keyed)
    (items : List (Symbol × String)) (st : σ) (asked : List (List String)) :
    (s.processBatch p.recorded items).run (st, asked) =
      (((s.processBatch p items).run st).1, ((s.processBatch p items).run st).2,
        asked ++ if s.missingTexts items = [] then [] else [s.missingTexts items]) := by
  obtain ⟨updates, hupdates⟩ := exists_refreshAll_eq_ok hs items
  rw [processBatch_eq p.recorded hupdates, processBatch_eq p hupdates,
    pendingTexts_zip (forall₂_refreshAll hs hupdates)]
  by_cases hnone : s.missingTexts items = []
  · rw [if_pos hnone, if_pos hnone, if_pos hnone, List.append_nil]
    rfl
  · rw [if_neg hnone, if_neg hnone, if_neg hnone]
    rfl

/-! ### Items that are stored -/

def Settled (s : VectorStore κ) (item : Symbol × String) : Prop :=
  ∃ e, s.get? ⟨.code, item.1.dotpath⟩ = some e ∧ e.symbol == item.1 ∧ e.document = item.2

theorem Settled.congr {item : Symbol × String} (h : s.Settled item)
    (hget : t.get? ⟨.code, item.1.dotpath⟩ = s.get? ⟨.code, item.1.dotpath⟩) : t.Settled item := by
  obtain ⟨e, he, hitem⟩ := h
  exact ⟨e, hget.trans he, hitem⟩

theorem refresh_of_settled {symbol : Symbol} {source : String} (h : s.Settled (symbol, source)) :
    s.refresh symbol source .code = .ok (some .unchanged, s) := by
  obtain ⟨e, he, hsymbol, hdocument⟩ := h
  simp [refresh, he, hdocument, hsymbol]

theorem refreshAll_of_settled (h : ∀ item ∈ items, s.Settled item) :
    s.refreshAll items = (.ok (items.map fun _ => some .unchanged), s) := by
  induction items with
  | nil => rfl
  | cons item items ih =>
    rw [refreshAll, refresh_of_settled (h item List.mem_cons_self)]
    simp only [ih fun x hx => h x (List.mem_cons_of_mem item hx)]
    rfl

theorem supplyAll_of_unchanged (s : VectorStore κ) (items : List (Symbol × String))
    (vectors : List (List κ)) :
    s.supplyAll (items.zip (items.map fun _ => some .unchanged)) vectors =
      (.ok (items.map fun _ => .unchanged), s) := by
  induction items with
  | nil => rfl
  | cons item items ih =>
    rw [List.map_cons, List.zip_cons_cons, supplyAll_cons_some, ih]
    rfl

theorem processBatch_of_settled {m : Type → Type} [Monad m] (p : EmbeddingProvider m κ)
    (h : ∀ item ∈ items, s.Settled item) :
    s.processBatch p items = pure (.ok (items.map fun _ => .unchanged), s) := by
  have hrefresh := refreshAll_of_settled h
  have hpending : pendingTexts (items.zip (items.map fun _ => some .unchanged)) = [] := by
    rw [pendingTexts, List.map_eq_nil_iff, List.filter_eq_nil_iff]
    rintro ⟨item, update⟩ hmem
    obtain ⟨_, -, rfl⟩ := List.mem_map.1 (List.of_mem_zip hmem).2
    simp
  rw [processBatch_eq p (congrArg Prod.fst hrefresh), if_pos hpending, hrefresh,
    supplyAll_of_unchanged]

/-! ### After a batch -/

theorem get?_supplyAll_of_ne {planned : List ((Symbol × String) × Option EmbeddingUpdate)}
    {k : EmbeddingKey} (h : ∀ x ∈ planned, k ≠ ⟨.code, x.1.1.dotpath⟩) (vectors : List (List κ)) :
    (s.supplyAll planned vectors).2.get? k = s.get? k := by
  induction planned generalizing s vectors with
  | nil => rfl
  | cons item planned ih =>
    have hrest : ∀ x ∈ planned, k ≠ ⟨.code, x.1.1.dotpath⟩ :=
      fun x hx => h x (List.mem_cons_of_mem item hx)
    have hitem := h item List.mem_cons_self
    obtain ⟨⟨symbol, source⟩, update⟩ := item
    cases update with
    | some update =>
      rw [supplyAll_cons_some]
      exact ih hrest vectors
    | none =>
      cases vectors with
      | nil => rfl
      | cons vector vectors =>
        rw [supplyAll_cons_none, ih hrest vectors, get?_put]
        exact if_neg hitem

theorem settled_supplyAll {planned : List ((Symbol × String) × Option EmbeddingUpdate)}
    (hpaths : (planned.map (·.1.1.dotpath)).Nodup) {vectors : List (List κ)}
    (hvectors : vectors.length = (pendingTexts planned).length)
    (hsettled : ∀ x ∈ planned, x.2 ≠ none → s.Settled x.1) :
    ∀ x ∈ planned, (s.supplyAll planned vectors).2.Settled x.1 := by
  induction planned generalizing s vectors with
  | nil => simp
  | cons item planned ih =>
    obtain ⟨hnew, hrest⟩ := List.nodup_cons.1 hpaths
    have hne : ∀ x ∈ planned, x.1.1.dotpath ≠ item.1.1.dotpath :=
      fun x hx heq => hnew (List.mem_map.2 ⟨x, hx, heq⟩)
    have hother : ∀ x ∈ planned, (⟨.code, item.1.1.dotpath⟩ : EmbeddingKey) ≠
        ⟨.code, x.1.1.dotpath⟩ :=
      fun x hx heq => hne x hx (congrArg EmbeddingKey.path heq).symm
    obtain ⟨⟨symbol, source⟩, update⟩ := item
    cases update with
    | some update =>
      rw [supplyAll_cons_some]
      rintro x hx
      rcases List.mem_cons.1 hx with rfl | hx
      · exact (hsettled _ List.mem_cons_self nofun).congr (get?_supplyAll_of_ne hother vectors)
      · exact ih hrest hvectors (fun y hy => hsettled y (List.mem_cons_of_mem _ hy)) x hx
    | none =>
      cases vectors with
      | nil => cases hvectors
      | cons vector vectors =>
        rw [supplyAll_cons_none]
        rintro x hx
        rcases List.mem_cons.1 hx with rfl | hx
        · refine ⟨⟨symbol, source, vector, .code⟩, ?_, BEq.rfl, rfl⟩
          exact (get?_supplyAll_of_ne hother vectors).trans ((get?_put s _ _).trans (if_pos rfl))
        · refine ih hrest (Nat.succ.inj hvectors) (fun y hy hplanned => ?_) x hx
          refine (hsettled y (List.mem_cons_of_mem _ hy) hplanned).congr
            ((get?_put s _ _).trans (if_neg ?_))
          exact fun heq => hne y hy (congrArg EmbeddingKey.path heq)

theorem settled_refreshAll (hs : s.Keyed) (hpaths : (items.map (·.1.dotpath)).Nodup)
    {item : Symbol × String} (hitem : item ∈ items)
    (hstored : s.codeText item.1.dotpath = some item.2) :
    (s.refreshAll items).2.Settled item := by
  obtain ⟨e, he, hdocument⟩ := Option.map_eq_some_iff.1 hstored
  have hclaims : item.1 ∈ claimants items ⟨.code, item.1.dotpath⟩ e.document :=
    mem_claimants_iff.2 ⟨by rwa [hdocument], rfl⟩
  obtain ⟨symbol, hlast⟩ :=
    Option.isSome_iff_exists.1 (List.getLast?_isSome.2 (List.ne_nil_of_mem hclaims))
  obtain ⟨hmem, hkey⟩ := mem_claimants_iff.1 (List.mem_of_getLast? hlast)
  obtain rfl : symbol = item.1 :=
    congrArg Prod.fst (List.inj_on_of_nodup_map hpaths hmem hitem
      (congrArg EmbeddingKey.path hkey).symm)
  refine ⟨_, ?_, foldl_renamed_symbol hlast e, (foldl_renamed _ e).1.trans hdocument⟩
  rw [get?_refreshAll hs, he, Option.map_some]

theorem settled_processBatch {p : EmbeddingProvider (StateM σ) κ} {st : σ} (hs : s.Keyed)
    (hpaths : (items.map (·.1.dotpath)).Nodup) {answers : List EmbeddingUpdate}
    (h : ((s.processBatch p items).run st).1 = (.ok answers, t)) :
    ∀ item ∈ items, t.Settled item := by
  obtain ⟨updates, hupdates, hcases⟩ := processBatch_cases p hs items st
  rw [h] at hcases
  rcases hcases with ⟨vectors, hvectors, hsupplied⟩ | ⟨cause, hfailed⟩
  · obtain ⟨hlength, hplanned⟩ := List.forall₂_iff_zip.1 (forall₂_refreshAll hs hupdates)
    have hitems : (items.zip updates).map (·.1) = items := List.map_fst_zip hlength.le
    have hzip : ((items.zip updates).map (·.1.1.dotpath)).Nodup := by
      rw [← hitems, List.map_map] at hpaths
      exact hpaths
    obtain rfl : t = _ := congrArg Prod.snd hsupplied
    intro item hitem
    rw [← hitems] at hitem
    obtain ⟨x, hx, rfl⟩ := List.mem_map.1 hitem
    refine settled_supplyAll hzip hvectors (fun y hy hupdate => ?_) x hx
    refine settled_refreshAll hs hpaths (List.of_mem_zip hy).1 ?_
    by_contra hmissing
    exact hupdate ((hplanned hy).2 hmissing)
  · cases hfailed

/-- The texts that a batch sends to the provider are those that no embedding of their dotted path
has, in order and in one piece. If dotted paths differ and the batch succeeds, the same batch
then leaves every item unchanged, and with it the store, the provider and what the provider has
been asked. -/
theorem processBatch_again (p : EmbeddingProvider (StateM σ) κ) (hs : s.Keyed)
    (hpaths : (items.map (·.1.dotpath)).Nodup) {st st' : σ} {asked : List (List String)}
    {answer : Except EmbeddingError (List EmbeddingUpdate)}
    (h : (s.processBatch p.recorded items).run (st, []) = ((answer, t), st', asked)) :
    (s.processBatch p items).run st = ((answer, t), st') ∧
      asked = (if s.missingTexts items = [] then [] else [s.missingTexts items]) ∧
      ∀ updates, answer = .ok updates →
        (t.processBatch p.recorded items).run (st', asked) =
          ((.ok (items.map fun _ => .unchanged), t), st', asked) := by
  have hrun := processBatch_recorded p hs items st []
  rw [h] at hrun
  obtain ⟨houtcome, hprovider⟩ := Prod.mk.inj hrun
  obtain ⟨hst, hasked⟩ := Prod.mk.inj hprovider
  refine ⟨Prod.ext houtcome.symm hst.symm, hasked, ?_⟩
  rintro updates rfl
  rw [processBatch_of_settled p.recorded (settled_processBatch hs hpaths houtcome.symm)]
  rfl

def movedItems : List (Symbol × String) := [(lossySymbol "2", "old"), (demoFunction "stop", "new")]

theorem processBatch_again_moved :
    ∃ left, (demoStore.processBatch lengthProvider.recorded movedItems).run (0, []) =
        ((.ok [.repointed, .created], left), 1, [["new"]]) ∧
      (left.processBatch lengthProvider.recorded movedItems).run (1, [["new"]]) =
        ((.ok [.unchanged, .unchanged], left), 1, [["new"]]) := by
  have hpaths : (movedItems.map (·.1.dotpath)).Nodup := by decide +kernel
  have hrun : (demoStore.processBatch lengthProvider.recorded movedItems).run (0, []) =
      ((.ok [.repointed, .created],
        ((demoStore.processBatch lengthProvider.recorded movedItems).run (0, [])).1.2),
        1, [["new"]]) := by
    rfl
  exact ⟨_, hrun, (processBatch_again lengthProvider demoStore_keyed hpaths hrun).2.2 _ rfl⟩

end VectorStore
end CodeAtlas
