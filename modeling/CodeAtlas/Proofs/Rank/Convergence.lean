import CodeAtlas.Proofs.Rank.Conservation

/-! Ranking settles. A round brings any two vectors of scores closer by the factor `alpha`, so that
what the rounds change dies out, and a vector that has nearly stopped is near the one that a round
leaves alone. -/

namespace CodeAtlas

variable {K : Type} [Field K] [LinearOrder K] [CurvedFunctions K] {n : Nat}

namespace SymbolRank

/-- What a round leaves alone: every node has its share of the scores of its predecessors, of the
dangling nodes and of the similarity. -/
def IsStationary (r : SymbolRank K) (p : Personalization K r.nodes.size)
    (v : Vector K r.nodes.size) : Prop :=
  ∀ m, v.get m = r.config.alpha * ∑ node, v.get node * r.transition.probability node m +
    r.config.alpha * (r.transition.dangling.map v.get).sum * p.dangling.get m +
      (1 - r.config.alpha) * p.similarity.get m

theorem IsStationary.step_eq {r : SymbolRank K} {p : Personalization K r.nodes.size}
    {v : Vector K r.nodes.size}
    (h : r.IsStationary p v) : r.step p v = v := by
  refine Vector.ext fun i hi => ?_
  have hget := get_advance r.config.alpha r.transition p v ⟨i, hi⟩
  rw [← h ⟨i, hi⟩] at hget
  exact hget

/-! ### Distances -/

theorem distance_eq (a b : Vector K n) : distance a b = ∑ m, |a.get m - b.get m| := by
  have hzip : (a.toList.zip b.toList).map (fun x => Scalar.abs (x.1 - x.2)) =
      List.ofFn fun m => |a.get m - b.get m| := by
    rw [toList_eq_ofFn, toList_eq_ofFn]
    refine List.ext_getElem (by simp) fun i _ _ => ?_
    simp
  change Scalar.sum ((a.toList.zip b.toList).map fun x => Scalar.abs (x.1 - x.2)) = _
  rw [Scalar.sum_eq, hzip, List.sum_ofFn]

variable [IsStrictOrderedRing K]

theorem distance_triangle (a b c : Vector K n) : distance a c ≤ distance a b + distance b c := by
  simp only [distance_eq, ← Finset.sum_add_distrib]
  exact Finset.sum_le_sum fun m _ => abs_sub_le _ _ _

theorem distance_le_two {a b : Vector K n} (ha : IsDistribution a) (hb : IsDistribution b) :
    distance a b ≤ 2 := by
  have hle : ∀ m, |a.get m - b.get m| ≤ a.get m + b.get m := by
    intro m
    rw [abs_le]
    constructor <;> linarith [ha.nonneg m, hb.nonneg m]
  calc distance a b = ∑ m, |a.get m - b.get m| := distance_eq a b
    _ ≤ ∑ m, (a.get m + b.get m) := Finset.sum_le_sum fun m _ => hle m
    _ = 2 := by rw [Finset.sum_add_distrib, ha.sum_eq, hb.sum_eq, one_add_one_eq_two]

/-! ### Rounds -/

variable {r : SymbolRank K}

theorem distance_step_le (ht : r.transition.Stochastic) (hc : r.config.Valid)
    {p : Personalization K r.nodes.size} (hp : IsDistribution p.dangling)
    (a b : Vector K r.nodes.size) :
    distance (r.step p a) (r.step p b) ≤ r.config.alpha * distance a b := by
  have hflow := Transition.flow_nonneg ht hp.nonneg
  -- the similarity drops out of the difference, and each node passes its own part of it on
  have hdiff : ∀ m, |(r.step p a).get m - (r.step p b).get m| ≤
      r.config.alpha * ∑ node, |a.get node - b.get node| * r.transition.flow p.dangling node m := by
    intro m
    rw [get_step ht, get_step ht, add_sub_add_right_eq_sub, ← mul_sub, ← Finset.sum_sub_distrib,
      abs_mul, abs_of_pos hc.alpha_pos]
    refine mul_le_mul_of_nonneg_left ((Finset.abs_sum_le_sum_abs _ _).trans_eq ?_) hc.alpha_pos.le
    refine Finset.sum_congr rfl fun node _ => ?_
    rw [← sub_mul, abs_mul, abs_of_nonneg (hflow node m)]
  calc distance (r.step p a) (r.step p b)
      = ∑ m, |(r.step p a).get m - (r.step p b).get m| := distance_eq _ _
    _ ≤ ∑ m, r.config.alpha *
          ∑ node, |a.get node - b.get node| * r.transition.flow p.dangling node m :=
        Finset.sum_le_sum fun m _ => hdiff m
    _ = r.config.alpha * distance a b := by
        rw [← Finset.mul_sum, Finset.sum_comm, distance_eq]
        simp only [← Finset.mul_sum, Transition.sum_flow ht hp.sum_eq, mul_one]

theorem change_le (ht : r.transition.Stochastic) (hc : r.config.Valid) {s : Start K r.nodes.size}
    (hs : Balanced s) (k : Nat) : r.change s k ≤ 2 * r.config.alpha ^ k := by
  induction k with
  | zero =>
    rw [pow_zero, mul_one]
    exact distance_le_two (scoresAfter_isDistribution ht hc hs 1) hs.initial
  | succ k ih =>
    calc r.change s (k + 1)
        = distance (r.step s.toPersonalization (r.scoresAfter s (k + 1)))
            (r.step s.toPersonalization (r.scoresAfter s k)) := by
          rw [change, scoresAfter_succ, scoresAfter_succ]
      _ ≤ r.config.alpha * r.change s k := distance_step_le ht hc hs.dangling _ _
      _ ≤ r.config.alpha * (2 * r.config.alpha ^ k) :=
          mul_le_mul_of_nonneg_left ih hc.alpha_pos.le
      _ = 2 * r.config.alpha ^ (k + 1) := by ring

theorem distance_stationary_le (ht : r.transition.Stochastic) (hc : r.config.Valid)
    {p : Personalization K r.nodes.size} (hp : IsDistribution p.dangling)
    {v : Vector K r.nodes.size} (hv : r.IsStationary p v) (last : Vector K r.nodes.size) :
    distance (r.step p last) v ≤
      r.config.alpha / (1 - r.config.alpha) * distance (r.step p last) last := by
  have hpos : 0 < 1 - r.config.alpha := sub_pos.2 hc.alpha_lt_one
  have hcloser : distance (r.step p last) v ≤ r.config.alpha * distance last v := by
    have hstep := distance_step_le ht hc hp last v
    rwa [hv.step_eq] at hstep
  have hsymm : distance last (r.step p last) = distance (r.step p last) last := by
    simp only [distance_eq, abs_sub_comm]
  have hvia : distance last v ≤ distance (r.step p last) last + distance (r.step p last) v := by
    rw [← hsymm]
    exact distance_triangle _ _ _
  rw [div_mul_eq_mul_div, le_div_iff₀ hpos]
  have hscaled := hcloser.trans (mul_le_mul_of_nonneg_left hvia hc.alpha_pos.le)
  linarith

theorem exists_rankWith_of_pow_lt (ht : r.transition.Stochastic) (hc : r.config.Valid)
    (hn : r.nodes.size ≠ 0) {w : RankWeights K} {s : Start K r.nodes.size} (hs : r.start w = .ok s)
    (hrounds : 1 ≤ r.config.maxIterations)
    (hpow : 2 * r.config.alpha ^ (r.config.maxIterations - 1) < r.threshold) :
    ∃ ranking, r.rankWith w = .ok ranking := by
  have hk : r.config.maxIterations - 1 < r.config.maxIterations := Nat.sub_lt hrounds Nat.one_pos
  refine exists_rankWith_eq_ok hn hs hk (Scalar.lt_iff.2 ?_)
  exact (change_le ht hc (start_balanced hn hs) _).trans_lt hpow

theorem standard_pow_lt (hn : n ≠ 0) {c : RankConfig K} (hc : c = .standard) :
    2 * c.alpha ^ (c.maxIterations - 1) < n * c.tolerance := by
  subst hc
  have hone : (1 : K) ≤ n := Nat.one_le_cast.2 (Nat.one_le_iff_ne_zero.2 hn)
  have hpow : 2 * (1 / 4 : K) ^ 99 < 1 / 1000000 := by norm_num
  simp only [RankConfig.standard, Scalar.ofNat_eq, Nat.cast_ofNat]
  exact hpow.trans_le (le_mul_of_one_le_left (by positivity) hone)

theorem standard_ne_notConverged {g : RankGraph K} (hn : g.nodes.size ≠ 0) (order : RowOrder K)
    (w : RankWeights K) (iterations : Nat) :
    (ofGraph g .standard order).rankWith w ≠ .error (.notConverged iterations) := by
  intro hfailed
  have ht : (ofGraph g .standard order).transition.Stochastic :=
    Transition.ofEdges_stochastic _ _ _ _
  cases hs : (ofGraph g .standard order).start w with
  | error e =>
    obtain ⟨map, uri, value, rfl⟩ := invalidWeight_of_start hs
    rw [rankWith_of_start_error (r := ofGraph g .standard order) hn hs] at hfailed
    cases hfailed
  | ok s =>
    obtain ⟨ranking, hranking⟩ := exists_rankWith_of_pow_lt (r := ofGraph g .standard order) ht
      RankConfig.standard_valid hn hs (by simp [ofGraph,
        RankConfig.standard]) (standard_pow_lt hn rfl)
    rw [hranking] at hfailed
    cases hfailed

/-- Changes die out at least as fast as the powers of `alpha`. With enough rounds allowed a ranking
is found, and it is close to whatever a round leaves alone. -/
theorem rank_converges {g : RankGraph K} {config : RankConfig K} (hc : config.Valid)
    (hn : g.nodes.size ≠ 0) (order : RowOrder K) (w : RankWeights K) :
    (∀ s, (ofGraph g config order).start w = .ok s →
      (∀ k, (ofGraph g config order).change s k ≤ 2 * config.alpha ^ k) ∧
      (1 ≤ config.maxIterations →
        2 * config.alpha ^ (config.maxIterations - 1) < g.nodes.size * config.tolerance →
          ∃ ranking, (ofGraph g config order).rankWith w = .ok ranking)) ∧
      (∀ iterations, (ofGraph g .standard order).rankWith w ≠ .error (.notConverged iterations)) ∧
      ∀ ranking, (ofGraph g config order).rankWith w = .ok ranking →
        ∃ s scores, (ofGraph g config order).start w = .ok s ∧
          ranking = (ofGraph g config order).sorted scores ∧
          ∀ v, (ofGraph g config order).IsStationary s.toPersonalization v →
            distance scores v ≤
              config.alpha / (1 - config.alpha) * (g.nodes.size * config.tolerance) := by
  have ht : (ofGraph g config order).transition.Stochastic := Transition.ofEdges_stochastic _ _ _ _
  refine ⟨fun s hs => ⟨?_, ?_⟩, standard_ne_notConverged hn order w, ?_⟩
  · exact change_le (r := ofGraph g config order) ht hc (start_balanced hn hs)
  · exact exists_rankWith_of_pow_lt (r := ofGraph g config order) ht hc hn hs
  · intro ranking hranking
    obtain ⟨s, hs⟩ := exists_start_eq_ok hn hranking
    obtain ⟨k, -, hsmall, -, rfl⟩ := (rankWith_eq_ok_iff hn hs).1 hranking
    refine ⟨s, (ofGraph g config order).scoresAfter s (k + 1), hs, rfl, fun v hv => ?_⟩
    have hratio : 0 ≤ config.alpha / (1 - config.alpha) :=
      div_nonneg hc.alpha_pos.le (sub_nonneg.2 hc.alpha_lt_one.le)
    have hnear := distance_stationary_le (r := ofGraph g config order) ht hc
      (start_balanced hn hs).dangling hv ((ofGraph g config order).scoresAfter s k)
    rw [← scoresAfter_succ] at hnear
    exact hnear.trans (mul_le_mul_of_nonneg_left (Scalar.lt_iff.1 hsmall).le hratio)

def forkLimit : Vector ℚ 3 := #v[20 / 41, 5 / 41, 16 / 41]

theorem isStationary_fork :
    (ofGraph fork .standard).IsStationary forkStart.toPersonalization forkLimit := by
  unfold IsStationary
  decide +kernel

theorem rank_converges_fork :
    (∀ k, (ofGraph fork .standard).change forkStart k ≤ 2 * (1 / 4) ^ k) ∧
      (∀ iterations, (ofGraph fork .standard).rankWith forkWeights ≠
        .error (.notConverged iterations)) ∧
      ∃ scores, (ofGraph fork .standard).rankWith forkWeights =
          .ok ((ofGraph fork .standard).sorted scores) ∧
        distance scores forkLimit ≤ 1 / 1000000 := by
  obtain ⟨hrounds, hstandard, hnear⟩ :=
    rank_converges (g := fork) RankConfig.standard_valid (by decide) .ascending forkWeights
  obtain ⟨hchange, henough⟩ := hrounds forkStart start_fork
  obtain ⟨ranking, hranking⟩ := henough (by decide) (by decide +kernel)
  obtain ⟨s, scores, hs, rfl, hscores⟩ := hnear ranking hranking
  obtain rfl := Except.ok.inj (start_fork.symm.trans hs)
  refine ⟨hchange, hstandard, scores, hranking, (hscores forkLimit isStationary_fork).trans ?_⟩
  decide +kernel

end SymbolRank

end CodeAtlas
