import Mathlib.Algebra.BigOperators.Field
import Mathlib.Algebra.Order.BigOperators.Group.Finset
import Mathlib.Data.Rat.Cast.Order
import Mathlib.Tactic.Linarith
import CodeAtlas.Proofs.Rank.Walk
import CodeAtlas.Proofs.Rank.Rounds

/-! Ranking neither makes nor loses score: in exact arithmetic the scores of every round are not
negative and sum to one, whatever the graph and its weights. -/

namespace CodeAtlas

namespace RankConfig

variable {K : Type} [Field K] [LinearOrder K] [CurvedFunctions K] {c : RankConfig K}

theorem alphaInRange_iff {alpha : K} : alphaInRange alpha = true ↔ 0 < alpha ∧ alpha < 1 := by
  rw [alphaInRange, Bool.and_eq_true, Scalar.lt_iff, Scalar.lt_iff]

theorem toleranceInRange_iff {tolerance : K} : toleranceInRange tolerance = true ↔
    1 / 100000000 < tolerance ∧ tolerance < 1 / 10000 := by
  rw [toleranceInRange, Bool.and_eq_true, Scalar.lt_iff, Scalar.lt_iff, Scalar.ofNat_eq,
    Scalar.ofNat_eq, Nat.cast_ofNat, Nat.cast_ofNat]

theorem Valid.alpha_pos (h : c.Valid) : 0 < c.alpha := (alphaInRange_iff.1 h.alpha).1

theorem Valid.alpha_lt_one (h : c.Valid) : c.alpha < 1 := (alphaInRange_iff.1 h.alpha).2

theorem standard_valid [IsStrictOrderedRing K] : (standard : RankConfig K).Valid := by
  constructor
  · rw [alphaInRange_iff, standard, Scalar.ofNat_eq]
    norm_num
  · rw [toleranceInRange_iff, standard, Scalar.ofNat_eq]
    norm_num

end RankConfig

variable {K : Type} [Field K] [LinearOrder K] {n : Nat}

/-- Scores that share out exactly one. -/
structure IsDistribution (v : Vector K n) : Prop where
  nonneg : ∀ m, 0 ≤ v.get m
  sum_eq : ∑ m, v.get m = 1

theorem scaled_isDistribution [IsStrictOrderedRing K] {v : Vector K n} (hv : ∀ m, 0 ≤ v.get m)
    (hpos : 0 < v.toList.sum) : IsDistribution (v.map (· / v.toList.sum)) := by
  constructor
  · intro m
    rw [get_map]
    exact div_nonneg (hv m) hpos.le
  · simp only [get_map]
    rw [← Finset.sum_div, ← sum_toList, div_self hpos.ne']

namespace SymbolRank

variable [CurvedFunctions K]

/-! ### A round -/

theorem get_step {r : SymbolRank K} (ht : r.transition.Stochastic)
    (p : Personalization K r.nodes.size) (last : Vector K r.nodes.size) (m : Fin r.nodes.size) :
    (r.step p last).get m =
      r.config.alpha * ∑ node, last.get node * r.transition.flow p.dangling node m +
        (1 - r.config.alpha) * p.similarity.get m :=
  get_advance_eq_flow ht _ p last m

theorem sum_step {r : SymbolRank K} (ht : r.transition.Stochastic)
    {p : Personalization K r.nodes.size} (hsimilarity : ∑ m, p.similarity.get m = 1)
    (hdangling : ∑ m, p.dangling.get m = 1) (last : Vector K r.nodes.size) :
    ∑ m, (r.step p last).get m =
      r.config.alpha * ∑ m, last.get m + (1 - r.config.alpha) := by
  simp only [get_step ht, Finset.sum_add_distrib, ← Finset.mul_sum, hsimilarity, mul_one]
  rw [Finset.sum_comm]
  simp only [← Finset.mul_sum, Transition.sum_flow ht hdangling, mul_one]

theorem sum_sorted (r : SymbolRank K) (scores : Vector K r.nodes.size) :
    ((r.sorted scores).map (·.2)).sum = ∑ m, scores.get m := by
  rw [sorted, ((List.mergeSort_perm _ _).map _).sum_eq, List.map_snd_zip (by simp), sum_toList]

/-! ### The weights of a ranking -/

theorem accepted_iff {value : K} : accepted value = true ↔ 0 ≤ value := by
  simp [accepted]

variable [IsStrictOrderedRing K]

theorem uniform_isDistribution (hn : n ≠ 0) : IsDistribution (uniform n : Vector K n) := by
  have hget : ∀ m, (uniform n : Vector K n).get m = 1 / n := by
    intro m
    simp [uniform, Vector.get]
  constructor
  · intro m
    rw [hget]
    positivity
  · simp only [hget]
    rw [Finset.sum_const, Finset.card_univ, Fintype.card_fin, nsmul_eq_mul,
      mul_one_div_cancel (Nat.cast_ne_zero.2 hn)]

theorem normalized_isDistribution {r : SymbolRank K} (hn : r.nodes.size ≠ 0) {map : WeightMap}
    {weights : Option (Weights K)} {v : Vector K r.nodes.size}
    (h : r.normalized map weights = .ok v) : IsDistribution v := by
  cases weights with
  | none =>
    cases h
    exact uniform_isDistribution hn
  | some weights =>
    rw [normalized] at h
    simp only at h
    split at h
    · cases h
    · rename_i hnone
      have hnonneg : ∀ m, 0 ≤
          (Vector.ofFn fun i : Fin r.nodes.size => weights.value r.nodes[i]).get m := by
        intro m
        rw [get_ofFn]
        rw [List.find?_eq_none] at hnone
        have haccepted := hnone r.nodes[m] (by simp)
        rwa [Bool.not_eq_true, Bool.not_eq_false', accepted_iff] at haccepted
      cases h
      split
      · exact uniform_isDistribution hn
      · rename_i htotal
        rw [Scalar.le_iff, Scalar.sum_eq, not_le] at htotal
        rw [Scalar.sum_eq]
        exact scaled_isDistribution hnonneg htotal

structure Balanced (s : Start K n) : Prop where
  similarity : IsDistribution s.similarity
  dangling : IsDistribution s.dangling
  initial : IsDistribution s.initial

theorem start_balanced {r : SymbolRank K} (hn : r.nodes.size ≠ 0) {w : RankWeights K}
    {s : Start K r.nodes.size} (hs : r.start w = .ok s) : Balanced s := by
  obtain ⟨similarity, hsimilarity, hs⟩ := bind_eq_ok_iff.1 hs
  obtain ⟨initial, hinitial, hs⟩ := bind_eq_ok_iff.1 hs
  obtain ⟨dangling, hdangling, hs⟩ := bind_eq_ok_iff.1 hs
  cases hs
  have hsim := normalized_isDistribution hn hsimilarity
  refine ⟨hsim, ?_, normalized_isDistribution hn hinitial⟩
  cases hmap : w.dangling with
  | none =>
    rw [hmap] at hdangling
    cases hdangling
    exact hsim
  | some map =>
    have hdangling : r.normalized .dangling (some map) = .ok dangling := by rwa [hmap] at hdangling
    exact normalized_isDistribution hn hdangling

/-! ### The rounds -/

variable {r : SymbolRank K}

theorem similarity_le_step (ht : r.transition.Stochastic) (hc : r.config.Valid)
    {p : Personalization K r.nodes.size} (hp : ∀ m, 0 ≤ p.dangling.get m)
    {last : Vector K r.nodes.size} (hlast : ∀ m, 0 ≤ last.get m) (m : Fin r.nodes.size) :
    (1 - r.config.alpha) * p.similarity.get m ≤ (r.step p last).get m := by
  rw [get_step ht]
  refine le_add_of_nonneg_left (mul_nonneg hc.alpha_pos.le (Finset.sum_nonneg fun node _ => ?_))
  exact mul_nonneg (hlast node) (Transition.flow_nonneg ht hp node m)

theorem step_isDistribution (ht : r.transition.Stochastic) (hc : r.config.Valid)
    {s : Start K r.nodes.size} (hs : Balanced s) {last : Vector K r.nodes.size}
    (hlast : IsDistribution last) : IsDistribution (r.step s.toPersonalization last) := by
  constructor
  · intro m
    have hshare : 0 ≤ (1 - r.config.alpha) * s.similarity.get m :=
      mul_nonneg (sub_nonneg.2 hc.alpha_lt_one.le) (hs.similarity.nonneg m)
    exact hshare.trans (similarity_le_step ht hc hs.dangling.nonneg hlast.nonneg m)
  · rw [sum_step ht hs.similarity.sum_eq hs.dangling.sum_eq, hlast.sum_eq]
    ring

theorem scoresAfter_isDistribution (ht : r.transition.Stochastic) (hc : r.config.Valid)
    {s : Start K r.nodes.size} (hs : Balanced s) (k : Nat) :
    IsDistribution (r.scoresAfter s k) := by
  induction k with
  | zero => exact hs.initial
  | succ k ih =>
    rw [scoresAfter_succ]
    exact step_isDistribution ht hc hs ih

theorem similarity_le_scoresAfter (ht : r.transition.Stochastic) (hc : r.config.Valid)
    {s : Start K r.nodes.size} (hs : Balanced s) (k : Nat) (m : Fin r.nodes.size) :
    (1 - r.config.alpha) * s.similarity.get m ≤ (r.scoresAfter s (k + 1)).get m := by
  rw [scoresAfter_succ]
  exact similarity_le_step ht hc hs.dangling.nonneg (scoresAfter_isDistribution ht hc hs k).nonneg m

/-- No round makes or loses score, and so the scores of a ranking sum to one. -/
theorem rank_conserves {g : RankGraph K} {config : RankConfig K} (hc : config.Valid)
    (hn : g.nodes.size ≠ 0) (order : RowOrder K) (w : RankWeights K) :
    (∀ s, (ofGraph g config order).start w = .ok s →
      (∀ k m, 0 ≤ ((ofGraph g config order).scoresAfter s k).get m) ∧
      (∀ k, ∑ m, ((ofGraph g config order).scoresAfter s k).get m = 1) ∧
      ∀ k m, (1 - config.alpha) * s.similarity.get m ≤
        ((ofGraph g config order).scoresAfter s (k + 1)).get m) ∧
      ∀ ranking, (ofGraph g config order).rankWith w = .ok ranking →
        (ranking.map (·.2)).sum = 1 := by
  have ht : (ofGraph g config order).transition.Stochastic := Transition.ofEdges_stochastic _ _ _ _
  have hscores : ∀ s, (ofGraph g config order).start w = .ok s →
      ∀ k, IsDistribution ((ofGraph g config order).scoresAfter s k) := by
    intro s hs
    exact scoresAfter_isDistribution (r := ofGraph g config order) ht hc (start_balanced hn hs)
  constructor
  · intro s hs
    refine ⟨fun k => (hscores s hs k).nonneg, fun k => (hscores s hs k).sum_eq, ?_⟩
    exact similarity_le_scoresAfter (r := ofGraph g config order) ht hc (start_balanced hn hs)
  · intro ranking hranking
    obtain ⟨s, hs⟩ := exists_start_eq_ok hn hranking
    obtain ⟨k, -, -, -, rfl⟩ := (rankWith_eq_ok_iff hn hs).1 hranking
    rw [sum_sorted, (hscores s hs (k + 1)).sum_eq]

def forkSymbol (name : String) : Symbol :=
  ⟨"local " ++ name, ⟨"local", {}, [⟨name, .localId, none⟩]⟩⟩

/-- Two nodes of one symbol around a node whose only edge loses its weight, and two
parallel edges. -/
def fork : RankGraph ℚ where
  nodes := #[forkSymbol "a", forkSymbol "b", forkSymbol "a"]
  edges := [⟨0, 1, .number 3⟩, ⟨0, 1, .number (-1)⟩, ⟨1, 1, .number (-2)⟩, ⟨2, 0, .unit⟩]

def forkWeights : RankWeights ℚ where
  similarity := some [(forkSymbol "a", 1)]
  initial := some [(forkSymbol "b", 2)]

def forkStart : Start ℚ 3 where
  similarity := #v[1 / 2, 0, 1 / 2]
  dangling := #v[1 / 2, 0, 1 / 2]
  initial := #v[0, 1, 0]

theorem start_fork : (ofGraph fork .standard).start forkWeights = .ok forkStart := by
  decide +kernel

theorem isSome_rankWith_fork :
    ((ofGraph fork .standard).rankWith forkWeights).toOption.isSome = true := by
  decide +kernel

theorem rank_conserves_fork :
    (∀ k m, 0 ≤ ((ofGraph fork .standard).scoresAfter forkStart k).get m) ∧
      (∀ k, ∑ m, ((ofGraph fork .standard).scoresAfter forkStart k).get m = 1) ∧
      (∀ k, 3 / 8 ≤ ((ofGraph fork .standard).scoresAfter forkStart (k + 1)).get (0 : Fin 3)) ∧
      ∃ ranking, (ofGraph fork .standard).rankWith forkWeights = .ok ranking ∧
        (ranking.map (·.2)).sum = 1 := by
  obtain ⟨hscores, hranking⟩ :=
    rank_conserves (g := fork) RankConfig.standard_valid (by decide) .ascending forkWeights
  obtain ⟨hnonneg, hsum, hshare⟩ := hscores forkStart start_fork
  obtain ⟨ranking, hfound⟩ := Option.isSome_iff_exists.1 isSome_rankWith_fork
  have hfound := toOption_eq_some_iff.1 hfound
  refine ⟨hnonneg, hsum, fun k => ?_, ranking, hfound, hranking ranking hfound⟩
  have hfirst : (1 - RankConfig.standard.alpha) * forkStart.similarity.get 0 = (3 / 8 : ℚ) := by
    decide +kernel
  exact hfirst.symm.le.trans (hshare k (0 : Fin 3))

end SymbolRank
end CodeAtlas
