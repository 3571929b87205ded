import CodeAtlas.Proofs.Embedding.Batch
import CodeAtlas.Proofs.Embedding.Upkeep
import Mathlib.Data.List.Dedup
import Mathlib.Data.List.Induction

/-! Calls that share a store. A call holds the lock while it refreshes and while it stores a vector,
and lets the others go on while the vector is built. However their steps mix, the store is the one
that the successful calls leave one after another, in the order in which they last held the lock. -/

namespace CodeAtlas

variable {κ σ ι : Type}

/-- What the provider answers depends on nothing but the text. -/
def EmbeddingProvider.Answers (p : EmbeddingProvider (StateM σ) κ)
    (answer : String → Except EmbeddingError (List κ)) : Prop :=
  ∀ text st, (p.vector text st).1 = answer text

namespace VectorStore

/-! ### Stores that reflect the answers of the provider -/

/-- The code embeddings stand under their own keys, with the vectors that the provider gives for
their texts. -/
structure Reflects (answer : String → Except EmbeddingError (List κ)) (s : VectorStore κ) :
    Prop where
  ascending : Ascending s.entries
  own : ∀ x ∈ s.entries, x.1.slot = .code → x.2.key = x.1
  vector_eq : ∀ x ∈ s.entries, x.1.slot = .code → answer x.2.document = .ok x.2.vector

variable {answer : String → Except EmbeddingError (List κ)} {s t : VectorStore κ} {symbol : Symbol}
  {source : String} {vector : List κ}

theorem reflects_empty :
    Reflects answer ({} : VectorStore κ) := ⟨List.Pairwise.nil, by simp, by simp⟩

theorem Reflects.put (h : s.Reflects answer) {e : Embedding κ}
    (he : answer e.document = .ok e.vector) :
    (s.put e).Reflects answer := by
  refine ⟨h.ascending.put e, fun x hx hslot => ?_, fun x hx hslot => ?_⟩
  · rcases mem_put hx with rfl | hx
    · rfl
    · exact h.own x hx hslot
  · rcases mem_put hx with rfl | hx
    · exact he
    · exact h.vector_eq x hx hslot

theorem Reflects.key_eq (h : s.Reflects answer) {path : String} {e : Embedding κ}
    (he : s.get? ⟨.code, path⟩ = some e) : e.key = ⟨.code, path⟩ := h.own _ (mem_of_lookup he) rfl

theorem Reflects.answer_eq (h : s.Reflects answer) {path : String} {e : Embedding κ}
    (he : s.get? ⟨.code, path⟩ = some e) : answer e.document = .ok e.vector :=
  h.vector_eq _ (mem_of_lookup he) rfl

theorem Reflects.put_renamed (h : s.Reflects answer) {e : Embedding κ}
    (he : s.get? ⟨.code, symbol.dotpath⟩ = some e) :
    (s.put (e.renamed symbol)).Reflects answer := by
  refine h.put ?_
  rw [renamed_document, renamed_vector]
  exact h.answer_eq he

theorem renamed_byUri {e : Embedding κ} (hslot : e.slot = .code) (symbol : Symbol) :
    (e.renamed symbol).byUri = (⟨symbol, e.document, e.vector, .code⟩ : Embedding κ).byUri := by
  have hkind : e.kind = .code := by
    cases hkind : e.kind with
    | code => rfl
    | doc summary context =>
      rw [Embedding.slot, hkind] at hslot
      cases hslot
  unfold Embedding.renamed
  split
  · rename_i hsymbol
    exact Embedding.byUri_eq_iff.2 ⟨hsymbol, rfl, rfl, hkind⟩
  · exact Embedding.byUri_eq_iff.2 ⟨BEq.rfl, rfl, rfl, hkind⟩

theorem Reflects.byUri_put_renamed (h : s.Reflects answer) {e : Embedding κ}
    (he : s.get? ⟨.code, symbol.dotpath⟩ = some e) :
    (s.put (e.renamed symbol)).byUri = (s.put ⟨symbol, e.document, e.vector, .code⟩).byUri := by
  have hkey := h.key_eq he
  have hslot : e.slot = .code := congrArg EmbeddingKey.slot hkey
  exact byUri_put_congr h.ascending h.ascending rfl (renamed_key hkey) (renamed_byUri hslot symbol)

/-! ### One call after another -/

variable {p : EmbeddingProvider (StateM σ) κ}

theorem exists_process_eq (hp : p.Answers answer) (ht : t.Reflects answer)
    (hv : answer source = .ok vector) (symbol : Symbol) :
    ∃ update t', (∀ st, ((t.process p symbol source).run st).1 = (.ok update, t')) ∧
      t'.Reflects answer ∧ t'.byUri = (t.put ⟨symbol, source, vector, .code⟩).byUri := by
  by_cases hhit : t.text? ⟨.code, symbol.dotpath⟩ = some source
  · obtain ⟨e, he, rfl⟩ := Option.map_eq_some_iff.1 hhit
    obtain rfl : e.vector = vector := Except.ok.inj ((ht.answer_eq he).symm.trans hv)
    have hrefresh := refresh_eq_some_of_key ht.ascending he (ht.key_eq he)
    refine ⟨.ofRenaming e symbol, t.put (e.renamed symbol), fun st => ?_, ht.put_renamed he,
      ht.byUri_put_renamed he⟩
    rw [process, processWith, EmbeddingKind.slot, hrefresh]
    rfl
  · refine ⟨t.replacement ⟨.code, symbol.dotpath⟩,
      t.put ⟨symbol, source, vector, .code⟩, fun st => ?_,
      ht.put hv, rfl⟩
    rw [process, processWith_eq_none p .code hhit]
    change t.concludeWith symbol source .code (p.vector source st).1 = _
    rw [hp, hv]
    rfl

def LeadsTo (p : EmbeddingProvider (StateM σ) κ) (s : VectorStore κ)
    (items : List (Symbol × String))
    (t : VectorStore κ) : Prop :=
  ∀ st, ∃ updates, ((s.processEach p items).run st).1 = (.ok updates, t)

theorem leadsTo_nil : LeadsTo p s [] s := fun _ => ⟨[], rfl⟩

theorem processEach_cons_run (p : EmbeddingProvider (StateM σ) κ) (s : VectorStore κ)
    (item : Symbol × String) (items : List (Symbol × String)) (st : σ) :
    ((s.processEach p (item :: items)).run st).1 =
      match (s.process p item.1 item.2).run st with
      | ((.error e, s'), _) => (.error e, s')
      | ((.ok update, s'), st') =>
        (((s'.processEach p items).run st').1.1.map (update :: ·),
          ((s'.processEach p items).run st').1.2) := by
  rw [processEach, StateT.run_bind]
  rcases (s.process p item.1 item.2).run st with ⟨⟨_ | update, s'⟩, st'⟩ <;> rfl

theorem processEach_concat {item : Symbol × String} {t' : VectorStore κ}
    (hlast : ∀ st, ∃ update, ((t.process p item.1 item.2).run st).1 = (.ok update, t'))
    {items : List (Symbol × String)} {updates : List EmbeddingUpdate} {st : σ}
    (h : ((s.processEach p items).run st).1 = (.ok updates, t)) :
    ∃ updates', ((s.processEach p (items ++ [item])).run st).1 = (.ok updates', t') := by
  induction items generalizing s updates st with
  | nil =>
    obtain ⟨-, rfl⟩ := Prod.mk.inj h
    obtain ⟨update, hupdate⟩ := hlast st
    refine ⟨[update], ?_⟩
    rw [List.nil_append, processEach_cons_run]
    rcases hrun : (s.process p item.1 item.2).run st with ⟨outcome, st'⟩
    rw [hrun] at hupdate
    obtain rfl : outcome = _ := hupdate
    rfl
  | cons first items ih =>
    rw [List.cons_append, processEach_cons_run]
    rw [processEach_cons_run] at h
    rcases hrun : (s.process p first.1 first.2).run st with ⟨⟨_ | update, s'⟩, st'⟩
    · rw [hrun] at h
      cases h
    · rw [hrun] at h
      obtain ⟨hupdates, hstore⟩ := Prod.mk.inj h
      cases hrest : ((s'.processEach p items).run st').1.1 with
      | error e =>
        rw [hrest] at hupdates
        cases hupdates
      | ok rest =>
        obtain ⟨updates', hconcat⟩ := ih (Prod.ext hrest hstore)
        refine ⟨update :: updates', ?_⟩
        simp only [hconcat]
        rfl

theorem LeadsTo.concat {items : List (Symbol × String)} {item : Symbol × String}
    {t' : VectorStore κ} (h : LeadsTo p s items t)
    (hlast : ∀ st, ∃ update, ((t.process p item.1 item.2).run st).1 = (.ok update, t')) :
    LeadsTo p s (items ++ [item]) t' := by
  intro st
  obtain ⟨updates, hupdates⟩ := h st
  exact processEach_concat hlast hupdates

/-! ### Steps of a call -/

inductive Stage (κ : Type) where
  | begun
  /-- Nothing stored will do for the call, and the lock is free. -/
  | asking
  | supplied (vector : List κ)
  | ended (outcome : Except EmbeddingError EmbeddingUpdate)

namespace Stage

def locks : Stage κ → Bool
  | begun | supplied _ => true
  | asking | ended _ => false

def succeeded : Stage κ → Bool
  | ended (.ok _) => true
  | _ => false

/-- The next step of a call: its stage afterwards, the store and the state of the provider. -/
def next (p : EmbeddingProvider (StateM σ) κ) (symbol : Symbol) (source : String)
    (s : VectorStore κ)
    (st : σ) : Stage κ → Stage κ × VectorStore κ × σ
  | begun =>
    match s.refresh symbol source .code with
    | .error e => (ended (.error e), s, st)
    | .ok (some update, s) => (ended (.ok update), s, st)
    | .ok (none, s) => (asking, s, st)
  | asking =>
    match (p.vector source).run st with
    | (.error e, st) => (ended (.error e), s, st)
    | (.ok vector, st) => (supplied vector, s, st)
  | supplied vector =>
    let (outcome, s) := s.settle (s.supply ⟨symbol, source, vector, .code⟩)
    (ended outcome, s, st)
  | ended outcome => (ended outcome, s, st)

def Fits (answer : String → Except EmbeddingError (List κ)) (source : String) : Stage κ → Prop
  | supplied vector => answer source = .ok vector
  | ended (.error e) => answer source = .error e
  | begun | asking | ended (.ok _) => True

theorem next_next_next (p : EmbeddingProvider (StateM σ) κ) (symbol : Symbol) (source : String)
    (s : VectorStore κ) (st : σ) :
    let step := fun y : Stage κ × VectorStore κ × σ => y.1.next p symbol source y.2.1 y.2.2
    step (step (step (begun, s, st))) =
      (ended ((s.process p symbol source).run st).1.1, ((s.process p symbol source).run st).1.2,
        ((s.process p symbol source).run st).2) := by
  intro step
  rw [process, processWith, EmbeddingKind.slot]
  rcases hrefresh : s.refresh symbol source .code with e | ⟨_ | update, s'⟩
  · have hfirst : step (begun, s, st) = (ended (.error e), s, st) := by
      simp only [step, next, hrefresh]
    rw [hfirst]
    rfl
  · have hfirst : step (begun, s, st) = (asking, s', st) := by
      simp only [step, next, hrefresh]
    rw [hfirst, StateT.run_bind]
    rcases hanswer : (p.vector source).run st with ⟨e | vector, st'⟩
    · have hsecond : step (asking, s', st) = (ended (.error e), s', st') := by
        simp only [step, next, hanswer]
      rw [hsecond]
      rfl
    · have hsecond : step (asking, s', st) = (supplied vector, s', st') := by
        simp only [step, next, hanswer]
      rw [hsecond]
      rfl
  · have hfirst : step (begun, s, st) = (ended (.ok update), s', st) := by
      simp only [step, next, hrefresh]
    rw [hfirst]
    rfl

theorem succeeded_of_locks {g : Stage κ} (h : g.locks) : g.succeeded = false := by
  cases g with
  | begun | asking | supplied vector => rfl
  | ended outcome => cases h

theorem next_cases (hp : p.Answers answer) (hs : s.Reflects answer) {g : Stage κ}
    (hg : g.Fits answer source) (symbol : Symbol) (st : σ) :
    (g.next p symbol source s st).1.Fits answer source ∧
      ((g.next p symbol source s st).2.1 = s ∧
        (g.next p symbol source s st).1.succeeded = g.succeeded ∨
        g.locks ∧ (g.next p symbol source s st).1.succeeded ∧
          ∃ vector, answer source = .ok vector ∧ (g.next p symbol source s st).2.1.Reflects answer ∧
            (g.next p symbol source s st).2.1.byUri =
              (s.put ⟨symbol, source, vector, .code⟩).byUri) := by
  cases g with
  | begun =>
    by_cases hhit : s.text? ⟨.code, symbol.dotpath⟩ = some source
    · obtain ⟨e, he, rfl⟩ := Option.map_eq_some_iff.1 hhit
      rw [next, refresh_eq_some_of_key hs.ascending he (hs.key_eq he)]
      exact ⟨trivial, .inr ⟨rfl, rfl, e.vector, hs.answer_eq he, hs.put_renamed he,
        hs.byUri_put_renamed he⟩⟩
    · rw [next, refresh_eq_none hhit]
      exact ⟨trivial, .inl ⟨rfl, rfl⟩⟩
  | asking =>
    have hanswer : ((p.vector source).run st).1 = answer source := hp source st
    rw [next]
    rcases houtcome : (p.vector source).run st with ⟨e | vector, st'⟩
    · rw [houtcome] at hanswer
      exact ⟨hanswer.symm, .inl ⟨rfl, rfl⟩⟩
    · rw [houtcome] at hanswer
      exact ⟨hanswer.symm, .inl ⟨rfl, rfl⟩⟩
  | supplied vector =>
    rw [next, supply_eq_ok]
    exact ⟨trivial, .inr ⟨rfl, rfl, vector, hg, hs.put hg, rfl⟩⟩
  | ended outcome => exact ⟨hg, .inl ⟨rfl, rfl⟩⟩

end Stage

/-! ### Sessions -/

/-- Calls on one store, each at its own stage. -/
structure Session (σ κ ι : Type) where
  store : VectorStore κ
  provider : σ
  stage : ι → Stage κ

namespace Session
variable [DecidableEq ι] (p : EmbeddingProvider (StateM σ) κ) (calls : ι → Symbol × String)

def start (s : VectorStore κ) (st : σ) : Session σ κ ι := ⟨s, st, fun _ => .begun⟩

def advance (x : Session σ κ ι) (i : ι) : Session σ κ ι :=
  let (stage, store, provider) := (x.stage i).next p (calls i).1 (calls i).2 x.store x.provider
  ⟨store, provider, Function.update x.stage i stage⟩

def run (x : Session σ κ ι) (schedule : List ι) : Session σ κ ι :=
  schedule.foldl (advance p calls) x

def holders (x : Session σ κ ι) : List ι → List ι
  | [] => []
  | i :: schedule =>
    (if (x.stage i).locks then [i] else []) ++ (x.advance p calls i).holders schedule

def successes (x : Session σ κ ι) (holders : List ι) : List ι :=
  holders.dedup.filter fun i => (x.stage i).succeeded

/-- The calls that succeed, in the order in which they last held the lock. -/
def order (x : Session σ κ ι) (schedule : List ι) : List ι :=
  (x.run p calls schedule).successes (x.holders p calls schedule)

theorem run_concat (x : Session σ κ ι) (schedule : List ι) (i : ι) :
    x.run p calls (schedule ++ [i]) = (x.run p calls schedule).advance p calls i :=
  List.foldl_concat ..

theorem holders_concat (x : Session σ κ ι) (schedule : List ι) (i : ι) :
    x.holders p calls (schedule ++ [i]) = x.holders p calls schedule ++
      if ((x.run p calls schedule).stage i).locks then [i] else [] := by
  induction schedule generalizing x with
  | nil => exact List.append_nil _
  | cons j schedule ih =>
    rw [List.cons_append, holders, holders, ih, List.append_assoc]
    rfl

theorem run_alone (s : VectorStore κ) (st : σ) (i : ι) :
    let x := (start s st).run p calls [i, i, i]
    (x.stage i, x.store, x.provider) =
      (.ended ((s.process p (calls i).1 (calls i).2).run st).1.1,
        ((s.process p (calls i).1 (calls i).2).run st).1.2,
        ((s.process p (calls i).1 (calls i).2).run st).2) := by
  rw [← Stage.next_next_next]
  simp only [run, List.foldl, advance, start, Function.update_self]

/-! ### The order in which calls take effect -/

theorem dedup_concat (l : List ι) (i : ι) : (l ++ [i]).dedup = l.dedup.filter (· ≠ i) ++ [i] := by
  induction l with
  | nil => rfl
  | cons j l ih =>
    rw [List.cons_append]
    by_cases hj : j ∈ l
    · rw [List.dedup_cons_of_mem (List.mem_append_left _ hj), ih, List.dedup_cons_of_mem hj]
    · by_cases hji : j = i
      · subst hji
        rw [List.dedup_cons_of_mem (List.mem_append_right _ List.mem_cons_self), ih,
          List.dedup_cons_of_notMem hj, List.filter_cons_of_neg (by simp)]
      · have hnot : j ∉ l ++ [i] := by simp [hj, hji]
        rw [List.dedup_cons_of_notMem hnot, ih, List.dedup_cons_of_notMem hj,
          List.filter_cons_of_pos (by simpa using hji), List.cons_append]

theorem filter_dedup_concat {q q' : ι → Bool} {i : ι} (hi : q i = false)
    (hq : ∀ j, j ≠ i → q' j = q j) (l : List ι) :
    (l ++ [i]).dedup.filter q' = l.dedup.filter q ++ if q' i then [i] else [] := by
  have hbefore : (l.dedup.filter (· ≠ i)).filter q' = l.dedup.filter q := by
    rw [List.filter_filter]
    refine List.filter_congr fun j _ => ?_
    by_cases hj : j = i
    · simp [hj, hi]
    · simp [hj, hq j hj]
  rw [dedup_concat, List.filter_append, hbefore, List.filter_singleton, Bool.cond_eq_ite]

theorem successes_of_same {x y : Session σ κ ι}
    (h : ∀ j, (y.stage j).succeeded = (x.stage j).succeeded) (holders : List ι) (i : ι) :
    y.successes (holders ++ if (x.stage i).locks then [i] else []) = x.successes holders := by
  have hsame : (fun j => (y.stage j).succeeded) = fun j => (x.stage j).succeeded := funext h
  rw [successes, successes, hsame]
  by_cases hlocks : (x.stage i).locks
  · have hi := Stage.succeeded_of_locks hlocks
    rw [if_pos hlocks, filter_dedup_concat (q := fun j => (x.stage j).succeeded) hi fun _ _ => rfl,
      if_neg (by simp [hi]), List.append_nil]
  · rw [if_neg hlocks, List.append_nil]

theorem successes_of_succeeded {x y : Session σ κ ι} {i : ι} (hlocks : (x.stage i).locks)
    (hi : (y.stage i).succeeded) (hother : ∀ j, j ≠ i → y.stage j = x.stage j) (holders : List ι) :
    y.successes (holders ++ if (x.stage i).locks then [i] else []) =
      x.successes holders ++ [i] := by
  have hbefore := Stage.succeeded_of_locks hlocks
  have hsame : ∀ j, j ≠ i → (y.stage j).succeeded = (x.stage j).succeeded := by
    intro j hj
    rw [hother j hj]
  rw [successes, if_pos hlocks,
    filter_dedup_concat (q := fun j => (x.stage j).succeeded) hbefore hsame, if_pos hi, successes]

variable {p calls}

/-- So far the calls have come to the successful ones one after another, in the order in which they
last held the lock. -/
structure Linear (p : EmbeddingProvider (StateM σ) κ) (calls : ι → Symbol × String)
    (answer : String → Except EmbeddingError (List κ)) (s : VectorStore κ) (x : Session σ κ ι)
    (holders : List ι) : Prop where
  reflects : x.store.Reflects answer
  fits : ∀ i, (x.stage i).Fits answer (calls i).2
  held : ∀ i, (x.stage i).succeeded → i ∈ holders
  replay : ∃ t, t.Reflects answer ∧ t.byUri = x.store.byUri ∧
    LeadsTo p s ((x.successes holders).map calls) t

theorem linear_start (hs : s.Reflects answer) (st : σ) : Linear p calls answer s (start s st) [] :=
  ⟨hs, fun _ => trivial, (fun _ h => nomatch h), s, hs, rfl, leadsTo_nil⟩

theorem Linear.advance (hp : p.Answers answer) {x : Session σ κ ι} {holders : List ι}
    (h : Linear p calls answer s x holders) (i : ι) :
    Linear p calls answer s (x.advance p calls i)
      (holders ++ if (x.stage i).locks then [i] else []) := by
  obtain ⟨hfits, hcases⟩ := Stage.next_cases hp h.reflects (h.fits i) (calls i).1 x.provider
  obtain ⟨t, ht, hbefore, hreplay⟩ := h.replay
  have hself : (x.advance p calls i).stage i =
      ((x.stage i).next p (calls i).1 (calls i).2 x.store x.provider).1 := Function.update_self ..
  have hother : ∀ j, j ≠ i → (x.advance p calls i).stage j = x.stage j :=
    fun j hj => Function.update_of_ne hj ..
  have hstore : (x.advance p calls i).store =
      ((x.stage i).next p (calls i).1 (calls i).2 x.store x.provider).2.1 := rfl
  rw [← hself] at hfits hcases
  rw [← hstore] at hcases
  have hfits' : ∀ j, ((x.advance p calls i).stage j).Fits answer (calls j).2 := by
    intro j
    by_cases hj : j = i
    · subst hj
      exact hfits
    · rw [hother j hj]
      exact h.fits j
  rcases hcases with ⟨hsame, hsucceeded⟩ | ⟨hlocks, hsucceeded, vector, hvector, hreflects, hafter⟩
  · have hsucceeded' : ∀ j, ((x.advance p calls i).stage j).succeeded = (x.stage j).succeeded := by
      intro j
      by_cases hj : j = i
      · subst hj
        exact hsucceeded
      · rw [hother j hj]
    refine ⟨hsame ▸ h.reflects, hfits', fun j hj => ?_, t, ht, hsame ▸ hbefore, ?_⟩
    · rw [hsucceeded' j] at hj
      exact List.mem_append_left _ (h.held j hj)
    · rw [successes_of_same hsucceeded']
      exact hreplay
  · -- the call does on the replayed store what it has done here
    obtain ⟨update, t', hprocess, ht', hreplayed⟩ := exists_process_eq hp ht hvector (calls i).1
    refine ⟨hreflects, hfits', fun j hj => ?_, t', ht', ?_, ?_⟩
    · by_cases hji : j = i
      · rw [hji, if_pos hlocks]
        exact List.mem_append_right _ List.mem_cons_self
      · rw [hother j hji] at hj
        exact List.mem_append_left _ (h.held j hj)
    · calc t'.byUri = (t.put ⟨(calls i).1, (calls i).2, vector, .code⟩).byUri := hreplayed
        _ = (x.store.put ⟨(calls i).1, (calls i).2, vector, .code⟩).byUri :=
          byUri_put_congr ht.ascending h.reflects.ascending hbefore rfl rfl
        _ = (x.advance p calls i).store.byUri := hafter.symm
    · rw [successes_of_succeeded hlocks hsucceeded hother, List.map_append]
      exact hreplay.concat fun st => ⟨update, hprocess st⟩

theorem linear_run (hp : p.Answers answer) (hs : s.Reflects answer) (calls : ι → Symbol × String)
    (schedule : List ι) (st : σ) :
    Linear p calls answer s ((start s st).run p calls schedule)
      ((start s st).holders p calls schedule) := by
  induction schedule using List.reverseRecOn with
  | nil => exact linear_start hs st
  | append_singleton schedule i ih =>
    rw [run_concat, holders_concat]
    exact ih.advance hp i

/-- However the steps of the calls mix, a call fails with nothing but the error that the provider
gives for its text, and the store is the one that the successful calls leave one after another, in
the order in which they last held the lock. -/
theorem store_run_eq_processEach (hp : p.Answers answer) (hs : s.Reflects answer)
    (calls : ι → Symbol × String) (schedule : List ι) (st : σ) :
    (∀ i e, ((start s st).run p calls schedule).stage i = .ended (.error e) →
      answer (calls i).2 = .error e) ∧
    (∀ i, i ∈ (start s st).order p calls schedule ↔
      (((start s st).run p calls schedule).stage i).succeeded) ∧
    ∀ st', ∃ updates t,
      ((s.processEach p (((start s st).order p calls schedule).map calls)).run st').1 =
        (.ok updates, t) ∧
      t.byUri = ((start s st).run p calls schedule).store.byUri := by
  have h := linear_run hp hs calls schedule st
  obtain ⟨t, -, hbyUri, hreplay⟩ := h.replay
  refine ⟨fun i e hi => ?_, fun i => ?_, fun st' => ?_⟩
  · have hfits := h.fits i
    rw [hi] at hfits
    exact hfits
  · rw [order, successes, List.mem_filter, List.mem_dedup]
    exact ⟨fun hi => hi.2, fun hi => ⟨h.held i hi, hi⟩⟩
  · obtain ⟨updates, hupdates⟩ := hreplay st'
    exact ⟨updates, t, hupdates, hbyUri⟩

def mixedCalls : Fin 3 → Symbol × String
  | 0 => (lossySymbol "1", "a")
  | 1 => (lossySymbol "2", "a")
  | 2 => (lossySymbol "1", "bad")

/-- All three look into the empty store before any of them has a vector. -/
def mixedSchedule : List (Fin 3) := [0, 1, 2, 0, 1, 2, 1, 0]

theorem lossyProvider_answers : lossyProvider.Answers fun text =>
    if text = "bad" then .error (.provider "refused bad") else .ok [text.length] := fun _ _ => rfl

theorem store_run_mixedSchedule :
    ((start {} 0).order lossyProvider mixedCalls mixedSchedule) = [1, 0] ∧
      ∃ updates t, ((({} : VectorStore Nat).processEach lossyProvider
          [(lossySymbol "2", "a"), (lossySymbol "1", "a")]).run 0).1 = (.ok updates, t) ∧
        t.byUri = ((start {} 0).run lossyProvider mixedCalls mixedSchedule).store.byUri := by
  have horder : (start {} 0).order lossyProvider mixedCalls mixedSchedule =
      [1, 0] := by decide +kernel
  obtain ⟨-, -, hreplay⟩ :=
    store_run_eq_processEach lossyProvider_answers reflects_empty mixedCalls mixedSchedule 0
  have hfinal := hreplay 0
  rw [horder] at hfinal
  exact ⟨horder, hfinal⟩

end Session

end VectorStore

end CodeAtlas
