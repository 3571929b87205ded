import CodeAtlas.Proofs.Embedding.Slots
import CodeAtlas.Search.Engine

/-! Documentation and ranking. A session mixes calls of the upkeep with ranked searches; what it
shows of the code embeddings and of the rankings is the same without any documentation, and the
other way round. -/

namespace CodeAtlas

variable {α κ σ : Type}

structure EmbeddingProvider.Oblivious (p : EmbeddingProvider (StateM σ) κ) : Prop where
  vector : ∀ text st st', (p.vector text st).1 = (p.vector text st').1
  batch : ∀ texts st st', (p.batch texts st).1 = (p.batch texts st').1

namespace VectorStore
variable {s : VectorStore κ} {p : EmbeddingProvider (StateM σ) κ}

theorem processWith_oblivious (hp : p.Oblivious) (hs : s.Keyed) (symbol : Symbol)
    (document : String) (kind : EmbeddingKind) (st st' : σ) :
    ((s.processWith p symbol document kind).run st).1 =
      ((s.processWith p symbol document kind).run st').1 := by
  rcases refresh_cases hs symbol document kind.slot with ⟨hother, -⟩ | ⟨e, he, rfl, -⟩
  · rw [processWith_eq_none p kind hother]
    exact congrArg (s.concludeWith symbol document kind) (hp.vector document st st')
  · rw [processWith_eq_some p kind hs he]
    rfl

theorem perform_oblivious (hp : p.Oblivious) (hs : s.Keyed) (call : Call) (st st' : σ) :
    ((s.perform p call).run st).1 = ((s.perform p call).run st').1 := by
  cases call with
  | process symbol source =>
    exact congrArg (fun r => (r.1.map ([·]),
      r.2)) (processWith_oblivious hp hs symbol source .code st st')
  | batch items =>
    obtain ⟨updates, hupdates⟩ := exists_refreshAll_eq_ok hs items
    rw [perform, processBatch_eq p hupdates]
    split
    · rfl
    · exact congrArg ((s.refreshAll items).2.conclude (items.zip updates)) (hp.batch _ st st')
  | documentation symbol document summary context =>
    exact congrArg (fun r => (r.1.map ([·]), r.2))
      (processWith_oblivious hp hs symbol document (.doc summary context) st st')

end VectorStore

namespace SearchEngine
open VectorStore

/-! ### Sessions -/

inductive Step where
  | upkeep (call : VectorStore.Call)
  | rank (query : String)

inductive Outcome (α : Type) where
  | updates (answer : Answer)
  | ranking (answer : Except (SearchError α) (List (Symbol × α)))

/-- Whether the outcome of a step tells of a slot: updates of their own one, rankings of
the code. -/
def Step.tells (slot : EmbeddingSlot) : Step → Bool
  | .upkeep call => call.slot = slot
  | .rank _ => slot = .code

def Step.writes (slot : EmbeddingSlot) : Step → Bool
  | .upkeep call => call.slot = slot
  | .rank _ => false

section
variable {m : Type → Type} [Monad m] [Scalar α]

def take (e : SearchEngine m α κ) (p : EmbeddingProvider m κ) (s : VectorStore κ) :
    Step → m (Outcome α × VectorStore κ)
  | .upkeep call => do
    let (answer, s) ← s.perform p call
    return (.updates answer, s)
  | .rank query => do return (.ranking (← e.rankSearch s query), s)

def session (e : SearchEngine m α κ) (p : EmbeddingProvider m κ) (s : VectorStore κ) :
    List Step → m (List (Step × Outcome α) × VectorStore κ)
  | [] => return ([], s)
  | step :: rest => do
    let (outcome, s) ← e.take p s step
    let (outcomes, s) ← e.session p s rest
    return ((step, outcome) :: outcomes, s)

end

/-- What a session shows of a slot: the steps that tell of it, with their outcomes, and its
entries. -/
def shown (slot : EmbeddingSlot) (r : List (Step × Outcome α) × VectorStore κ) :
    List (Step × Outcome α) × VectorStore κ :=
  (r.1.filter fun x => x.1.tells slot, r.2.only slot)

variable [Scalar α] {e : SearchEngine (StateM σ) α κ} {p : EmbeddingProvider (StateM σ) κ}
  {s : VectorStore κ} {slot : EmbeddingSlot}

/-! ### One step -/

theorem rankSearch_only {m : Type → Type} [Monad m] (e : SearchEngine m α κ) (hs : s.Keyed)
    (query : String) :
    e.rankSearch (s.only .code) query = e.rankSearch s query := by
  have hfor : e.rankFor (s.only .code) = e.rankFor s := by
    funext vector
    rw [rankFor, rankFor, personalization, personalization, inSlot_only hs]
  rw [rankSearch, rankSearch, hfor]

def rankedFor (e : SearchEngine (StateM σ) α κ) (s : VectorStore κ) :
    Except EmbeddingError (List κ) → Except (SearchError α) (List (Symbol × α))
  | .error cause => .error (.embedding cause)
  | .ok vector => e.rankFor s vector

theorem rankSearch_eq (e : SearchEngine (StateM σ) α κ) (s : VectorStore κ) (query : String) :
    e.rankSearch s query = (do return e.rankedFor s (← e.provider.vector query)) := by
  rw [rankSearch]
  congr 1
  funext outcome
  cases outcome <;> rfl

theorem rankSearch_oblivious (he : e.provider.Oblivious) (query : String) (st st' : σ) :
    ((e.rankSearch s query).run st).1 = ((e.rankSearch s query).run st').1 := by
  rw [rankSearch_eq]
  exact congrArg (e.rankedFor s) (he.vector query st st')

theorem take_keyed (hs : s.Keyed) (step : Step) (st : σ) :
    ((e.take p s step).run st).1.2.Keyed := by
  cases step with
  | upkeep call => exact hs.perform p call st
  | rank query => exact hs

theorem take_only_other (hs : s.Keyed) {step : Step} (hstep : step.tells slot = false) (st : σ) :
    ((e.take p s step).run st).1.2.only slot = s.only slot := by
  cases step with
  | upkeep call => exact perform_only_other hs p (of_decide_eq_false hstep) st
  | rank query => rfl

theorem take_only (hp : p.Oblivious) (he : e.provider.Oblivious) (hs : s.Keyed) {step : Step}
    (hstep : step.tells slot) (st st' : σ) :
    ((e.take p (s.only slot) step).run st').1 = seenFrom slot ((e.take p s step).run st).1 := by
  cases step with
  | upkeep call =>
    obtain rfl : call.slot = slot := of_decide_eq_true hstep
    have hperform : (((s.only call.slot).perform p call).run st').1 =
        seenFrom call.slot ((s.perform p call).run st).1 := by
      rw [perform_oblivious hp (hs.only _) call st' st, perform_only_own p hs call]
      rfl
    exact congrArg (fun r => (Outcome.updates r.1, r.2)) hperform
  | rank query =>
    obtain rfl : slot = .code := of_decide_eq_true hstep
    have hrank : ((e.rankSearch (s.only .code) query).run st').1 =
        ((e.rankSearch s query).run st).1 := by
      rw [rankSearch_only e hs, rankSearch_oblivious he]
    exact congrArg (fun answer => (Outcome.ranking answer, s.only .code)) hrank

/-! ### Whole sessions -/

theorem shown_session (hp : p.Oblivious) (he : e.provider.Oblivious) (hs : s.Keyed)
    (steps : List Step) (st st' : σ) :
    shown slot ((e.session p s steps).run st).1 =
      ((e.session p (s.only slot) (steps.filter (Step.tells slot))).run st').1 := by
  induction steps generalizing s st st' with
  | nil => rfl
  | cons step steps ih =>
    have hcons : ∀ (t : VectorStore κ) (steps : List Step) (st : σ),
        ((e.session p t (step :: steps)).run st).1 =
          ((step, ((e.take p t step).run st).1.1) ::
              ((e.session p ((e.take p t step).run st).1.2 steps).run
                ((e.take p t step).run st).2).1.1,
            ((e.session p ((e.take p t step).run st).1.2 steps).run
              ((e.take p t step).run st).2).1.2) :=
      fun _ _ _ => rfl
    have hrest := ih (take_keyed (e := e) (p := p) hs step st) ((e.take p s step).run st).2
    rw [hcons]
    cases hstep : step.tells slot with
    | false =>
      rw [List.filter_cons_of_neg (by simp [hstep]),
        ← take_only_other (e := e) (p := p) hs hstep st, ← hrest st']
      simp [shown, hstep]
    | true =>
      have htake := take_only hp he hs hstep st st'
      rw [List.filter_cons_of_pos hstep, hcons, htake]
      simp only [seenFrom, ← hrest]
      simp [shown, hstep]

/-- Without the documentation, calls and stored, a session shows the same of the code embeddings and
of the rankings: every other step has the outcome that it had, and the code entries at the end are
the same. Without the code embeddings it shows the same of the documentation. -/
theorem session_independent (hp : p.Oblivious) (he : e.provider.Oblivious) (hs : s.Keyed)
    (steps : List Step) (st st' : σ) :
    shown .code ((e.session p s steps).run st).1 =
        ((e.session p (s.only .code) (steps.filter fun x => !x.writes .doc)).run st').1 ∧
      shown .doc ((e.session p s steps).run st).1 =
        shown .doc ((e.session p (s.only .doc) (steps.filter fun x =>
          !x.writes .code)).run st').1 := by
  have hcode : steps.filter (Step.tells .code) = steps.filter fun x => !x.writes .doc := by
    refine List.filter_congr fun step _ => ?_
    cases step with
    | upkeep call => cases call <;> rfl
    | rank query => rfl
  have hdoc : (steps.filter fun x => !x.writes .code).filter (Step.tells .doc) =
      steps.filter (Step.tells .doc) := by
    rw [List.filter_filter]
    refine List.filter_congr fun step _ => ?_
    cases step with
    | upkeep call => cases call <;> rfl
    | rank query => rfl
  constructor
  · rw [shown_session hp he hs steps st st', hcode]
  · rw [shown_session hp he hs steps st st', shown_session hp he (hs.only .doc) _ st' st', hdoc,
      only_only]

theorem lossyProvider_oblivious : lossyProvider.Oblivious := ⟨fun _ _ _ => rfl, fun _ _ _ => rfl⟩

def lossyClass : Symbol :=
  ⟨"scip-python python demo 1 demo/C#",
    ⟨"scip-python", ⟨"python", "demo", "1"⟩, [⟨"demo", .scope, none⟩, ⟨"C", .type, none⟩]⟩⟩

def lossyEngine : SearchEngine (StateM Nat) Float Nat where
  navigator := ⟨{ symbols := [lossySymbol "1", lossyClass] }, SourceIndex.resolver ⟨[], []⟩⟩
  rankConfig := .standard
  provider := lossyProvider
  norm := .l2
  widen := Float.ofNat
  power := 2

def describedStore : VectorStore Nat :=
  (({} : VectorStore Nat).put ⟨lossySymbol "1", "a", [1], .code⟩).put
    ⟨lossySymbol "1", "text", [4], .doc "summary" "context"⟩

def describedSteps : List Step := lossyCalls.map .upkeep ++ [.rank "text"]

theorem session_independent_described :
    lossyEngine.rankGraph.nodes.size = 2 ∧
      ((lossyEngine.rankSearch describedStore "text").run 0).1.toOption.isSome ∧
      (describedStore.only .code).size = 1 ∧ (describedStore.only .doc).size = 1 ∧
      (describedSteps.filter fun x => !x.writes .doc).length = 5 ∧
      (describedSteps.filter fun x => !x.writes .code).length = 2 ∧
      shown .code ((lossyEngine.session lossyProvider describedStore describedSteps).run 0).1 =
        ((lossyEngine.session lossyProvider (describedStore.only .code)
          (describedSteps.filter fun x => !x.writes .doc)).run 7).1 ∧
      shown .doc ((lossyEngine.session lossyProvider describedStore describedSteps).run 0).1 =
        shown .doc ((lossyEngine.session lossyProvider (describedStore.only .doc)
          (describedSteps.filter fun x => !x.writes .code)).run 7).1 := by
  have hkeyed : describedStore.Keyed := (keyed_empty.put _).put _
  have hsame :=
    session_independent lossyProvider_oblivious (e := lossyEngine) lossyProvider_oblivious hkeyed
      describedSteps 0 7
  exact ⟨by decide +kernel, by decide +kernel, by decide +kernel, by decide +kernel,
    by decide +kernel, by decide +kernel, hsame⟩

end SearchEngine
end CodeAtlas
