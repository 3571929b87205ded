import CodeAtlas.Outcome
import CodeAtlas.Rank.Ranking
import Mathlib.Logic.Function.Iterate

/-! The rounds of a ranking. A ranking is the vector of the first round whose change is below the
threshold, and it fails where none of the rounds allowed has such a change. -/

namespace CodeAtlas.SymbolRank

variable {α : Type} [Scalar α]

theorem iterate_eq_some_iff {n : Nat} {step : Vector α n → Vector α n} {threshold : α} {fuel : Nat}
    {last scores : Vector α n} :
    iterate step threshold fuel last = some scores ↔ ∃ k < fuel,
      Scalar.lt (distance (step^[k + 1] last) (step^[k] last)) threshold = true ∧
      (∀ j < k, Scalar.lt (distance (step^[j + 1] last) (step^[j] last)) threshold = false) ∧
      scores = step^[k + 1] last := by
  induction fuel generalizing last with
  | zero => simp [iterate]
  | succ fuel ih =>
    rw [iterate]
    cases hfirst : Scalar.lt (distance (step last) last) threshold with
    | true =>
      simp only [if_true, Option.some.injEq]
      constructor
      · rintro rfl
        exact ⟨0, Nat.succ_pos fuel, hfirst, by simp, rfl⟩
      · rintro ⟨k, -, -, hbefore, rfl⟩
        cases k with
        | zero => rfl
        | succ k =>
          have hnot := hbefore 0 (Nat.succ_pos k)
          rw [Function.iterate_one, Function.iterate_zero, id_eq, hfirst] at hnot
          cases hnot
    | false =>
      simp only [Bool.false_eq_true, if_false, ih]
      -- the rounds after the first one are those that start from its outcome
      constructor
      · rintro ⟨k, hk, hsmall, hbefore, rfl⟩
        refine ⟨k + 1, Nat.succ_lt_succ hk, hsmall, fun j hj => ?_, rfl⟩
        cases j with
        | zero => exact hfirst
        | succ j => exact hbefore j (Nat.lt_of_succ_lt_succ hj)
      · rintro ⟨k, hk, hsmall, hbefore, rfl⟩
        cases k with
        | zero =>
          rw [Function.iterate_one, Function.iterate_zero, id_eq, hfirst] at hsmall
          cases hsmall
        | succ k =>
          exact ⟨k, Nat.lt_of_succ_lt_succ hk, hsmall,
            fun j hj => hbefore (j + 1) (Nat.succ_lt_succ hj), rfl⟩

theorem iterate_eq_none_iff {n : Nat} {step : Vector α n → Vector α n} {threshold : α} {fuel : Nat}
    {last : Vector α n} :
    iterate step threshold fuel last = none ↔ ∀ k < fuel,
      Scalar.lt (distance (step^[k + 1] last) (step^[k] last)) threshold = false := by
  induction fuel generalizing last with
  | zero => simp [iterate]
  | succ fuel ih =>
    rw [iterate]
    cases hfirst : Scalar.lt (distance (step last) last) threshold with
    | true =>
      simp only [if_true, reduceCtorEq, false_iff]
      intro h
      have hnot := h 0 (Nat.succ_pos fuel)
      rw [Function.iterate_one, Function.iterate_zero, id_eq, hfirst] at hnot
      cases hnot
    | false =>
      simp only [Bool.false_eq_true, if_false, ih]
      constructor
      · intro h k hk
        cases k with
        | zero => exact hfirst
        | succ k => exact h k (Nat.lt_of_succ_lt_succ hk)
      · intro h k hk
        exact h (k + 1) (Nat.succ_lt_succ hk)

def step (r : SymbolRank α) (p : Personalization α r.nodes.size) :
    Vector α r.nodes.size → Vector α r.nodes.size :=
  advance r.config.alpha r.transition (Vector.ofFn r.transition.incoming) p

def scoresAfter (r : SymbolRank α) (s : Start α r.nodes.size) (k : Nat) : Vector α r.nodes.size :=
  (r.step s.toPersonalization)^[k] s.initial

/-- What round `k`, counted from zero, changes. -/
def change (r : SymbolRank α) (s : Start α r.nodes.size) (k : Nat) : α :=
  distance (r.scoresAfter s (k + 1)) (r.scoresAfter s k)

def threshold (r : SymbolRank α) : α := Scalar.ofNat r.nodes.size * r.config.tolerance

theorem scoresAfter_succ (r : SymbolRank α) (s : Start α r.nodes.size) (k : Nat) :
    r.scoresAfter s (k + 1) = r.step s.toPersonalization (r.scoresAfter s k) :=
  Function.iterate_succ_apply' _ _ _

theorem rankWith_of_start {r : SymbolRank α} (hn : r.nodes.size ≠ 0) {w : RankWeights α}
    {s : Start α r.nodes.size} (hs : r.start w = .ok s) :
    r.rankWith w =
      match iterate (r.step s.toPersonalization) r.threshold r.config.maxIterations s.initial with
      | some scores => .ok (r.sorted scores)
      | none => .error (.notConverged r.config.maxIterations) := by
  rw [rankWith]
  simp only [if_neg hn, hs]
  rfl

theorem rankWith_of_start_error {r : SymbolRank α} (hn : r.nodes.size ≠ 0) {w : RankWeights α}
    {e : RankError α} (hs : r.start w = .error e) : r.rankWith w = .error e := by
  rw [rankWith]
  simp only [if_neg hn, hs]
  rfl

theorem exists_start_eq_ok {r : SymbolRank α} (hn : r.nodes.size ≠ 0) {w : RankWeights α}
    {ranking : List (Symbol × α)} (h : r.rankWith w = .ok ranking) : ∃ s, r.start w = .ok s := by
  cases hs : r.start w with
  | error e =>
    rw [rankWith_of_start_error hn hs] at h
    cases h
  | ok s => exact ⟨s, rfl⟩

theorem invalidWeight_of_normalized {r : SymbolRank α} {map : WeightMap}
    {weights : Option (Weights α)} {e : RankError α} (h : r.normalized map weights = .error e) :
    ∃ uri value, e = .invalidWeight map uri value := by
  cases weights with
  | none => cases h
  | some weights =>
    rw [normalized] at h
    simp only at h
    split at h
    · cases h
      exact ⟨_, _, rfl⟩
    · cases h

theorem invalidWeight_of_start {r : SymbolRank α} {w : RankWeights α} {e : RankError α}
    (h : r.start w = .error e) : ∃ map uri value, e = .invalidWeight map uri value := by
  rcases bind_eq_error_iff.1 h with hsimilarity | ⟨similarity, -, h⟩
  · exact ⟨_, invalidWeight_of_normalized hsimilarity⟩
  rcases bind_eq_error_iff.1 h with hinitial | ⟨initial, -, h⟩
  · exact ⟨_, invalidWeight_of_normalized hinitial⟩
  rcases bind_eq_error_iff.1 h with hdangling | ⟨dangling, -, h⟩
  · cases hmap : w.dangling with
    | none =>
      rw [hmap] at hdangling
      cases hdangling
    | some map =>
      have hdangling : r.normalized .dangling (some map) = .error e := by rwa [hmap] at hdangling
      exact ⟨_, invalidWeight_of_normalized hdangling⟩
  · cases h

theorem rankWith_eq_ok_iff {r : SymbolRank α} (hn : r.nodes.size ≠ 0) {w : RankWeights α}
    {s : Start α r.nodes.size} (hs : r.start w = .ok s) {ranking : List (Symbol × α)} :
    r.rankWith w = .ok ranking ↔ ∃ k < r.config.maxIterations,
      Scalar.lt (r.change s k) r.threshold = true ∧
      (∀ j < k, Scalar.lt (r.change s j) r.threshold = false) ∧
      ranking = r.sorted (r.scoresAfter s (k + 1)) := by
  have hrounds := @iterate_eq_some_iff α _ _ (r.step s.toPersonalization) r.threshold
    r.config.maxIterations s.initial
  rw [rankWith_of_start hn hs]
  cases hscores : iterate (r.step s.toPersonalization) r.threshold
    r.config.maxIterations s.initial with
  | none =>
    rw [iterate_eq_none_iff] at hscores
    constructor
    · intro h
      cases h
    · rintro ⟨k, hk, hsmall, -⟩
      rw [change, scoresAfter, scoresAfter, hscores k hk] at hsmall
      cases hsmall
  | some scores =>
    obtain ⟨k, hk, hsmall, hbefore, rfl⟩ := hrounds.1 hscores
    constructor
    · intro h
      cases h
      exact ⟨k, hk, hsmall, hbefore, rfl⟩
    · rintro ⟨j, hj, hj', hbefore', rfl⟩
      have hsame := hrounds.2 ⟨j, hj, hj', hbefore', rfl⟩
      rw [hscores] at hsame
      rw [scoresAfter, ← Option.some.inj hsame]

theorem exists_rankWith_eq_ok {r : SymbolRank α} (hn : r.nodes.size ≠ 0) {w : RankWeights α}
    {s : Start α r.nodes.size} (hs : r.start w = .ok s) {k : Nat} (hk : k < r.config.maxIterations)
    (hsmall : Scalar.lt (r.change s k) r.threshold = true) :
    ∃ ranking, r.rankWith w = .ok ranking := by
  rw [rankWith_of_start hn hs]
  cases hscores : iterate (r.step s.toPersonalization) r.threshold
    r.config.maxIterations s.initial with
  | none =>
    have hnot : Scalar.lt (r.change s k) r.threshold = false := iterate_eq_none_iff.1 hscores k hk
    rw [hsmall] at hnot
    cases hnot
  | some scores => exact ⟨_, rfl⟩

end CodeAtlas.SymbolRank
