import CodeAtlas.Proofs.Rank.Conservation
import CodeAtlas.Proofs.Rank.Order
import CodeAtlas.Proofs.Rank.Weight

/-! Rankings under wider bounds. The rounds do not depend on how many of them are allowed nor on the
tolerance, so that a ranking is found again when more rounds are allowed, and with a larger
tolerance one is found no later. Both need the rows to add up to the same totals again, which
rounding does not grant: a row that is added up in another order may give another ranking. -/

namespace CodeAtlas

namespace RowOrder

/-- The two orders add the rows of a graph up to the same totals. -/
def Agrees {α : Type} [Scalar α] (order order' : RowOrder α) (g : RankGraph α) (key : String) :
    Prop :=
  ∀ node, Transition.rowTotal order node (Transition.outgoing g.directed key g.edges node) =
    Transition.rowTotal order' node (Transition.outgoing g.directed key g.edges node)

theorem agrees_exact {K : Type} [Field K] [LinearOrder K] [CurvedFunctions K]
    (order order' : RowOrder K)
    (g : RankGraph K) (key : String) : order.Agrees order' g key := by
  intro node
  rw [Transition.rowTotal_eq, Transition.rowTotal_eq]

def descending (α : Type) : RowOrder α :=
  ⟨fun _ weights => weights.reverse, fun _ => List.reverse_perm⟩

end RowOrder

namespace SymbolRank

/-! ### Counted rounds -/

section
variable {α : Type} [Scalar α] {n : Nat} {step : Vector α n → Vector α n} {threshold threshold' : α}
  {fuel fuel' : Nat} {last : Vector α n}

def iterateCounted (step : Vector α n → Vector α n) (threshold : α) :
    Nat → Vector α n → Option (Nat × Vector α n)
  | 0, _ => none
  | fuel + 1, last =>
    let next := step last
    if Scalar.lt (distance next last) threshold then some (1, next)
    else (iterateCounted step threshold fuel next).map fun found => (found.1 + 1, found.2)

theorem map_iterateCounted (step : Vector α n → Vector α n) (threshold : α) (fuel : Nat)
    (last : Vector α n) :
    (iterateCounted step threshold fuel last).map (·.2) = iterate step threshold fuel last := by
  induction fuel generalizing last with
  | zero => rfl
  | succ fuel ih =>
    rw [iterateCounted, iterate]
    split
    · rfl
    · rw [Option.map_map]
      exact ih (step last)

theorem iterateCounted_of_le (hfuel : fuel ≤ fuel') {found : Nat × Vector α n}
    (h : iterateCounted step threshold fuel last = some found) :
    iterateCounted step threshold fuel' last = some found := by
  induction fuel generalizing fuel' last found with
  | zero => cases h
  | succ fuel ih =>
    obtain ⟨more, rfl⟩ : ∃ more, fuel' = more + 1 := ⟨fuel' - 1, by omega⟩
    simp only [iterateCounted] at h ⊢
    split at h
    · rename_i hsmall
      rw [if_pos hsmall, h]
    · rename_i hlarge
      obtain ⟨rest, hrest, rfl⟩ := Option.map_eq_some_iff.1 h
      have hmore := ih (Nat.le_of_succ_le_succ hfuel) hrest
      rw [if_neg hlarge, hmore, Option.map_some]

theorem exists_iterateCounted_of_imp
    (hsmall : ∀ change : α, Scalar.lt change threshold = true → Scalar.lt change threshold' = true)
    {k : Nat} {scores : Vector α n}
    (h : iterateCounted step threshold fuel last = some (k, scores)) :
    ∃ k' ≤ k, ∃ scores', iterateCounted step threshold' fuel last = some (k', scores') := by
  -- The two runs share their vectors until the one with `threshold'` stops, which the other does
  -- not do before.
  induction fuel generalizing last k with
  | zero => cases h
  | succ fuel ih =>
    simp only [iterateCounted] at h ⊢
    by_cases hnow : Scalar.lt (distance (step last) last) threshold' = true
    · have hk : 1 ≤ k := by
        split at h
        · cases h
          exact le_rfl
        · obtain ⟨rest, -, heq⟩ := Option.map_eq_some_iff.1 h
          cases heq
          exact Nat.succ_le_succ (Nat.zero_le _)
      exact ⟨1, hk, step last, if_pos hnow⟩
    · have hbefore : ¬Scalar.lt (distance (step last) last) threshold = true :=
        fun hlt => hnow (hsmall _ hlt)
      rw [if_neg hbefore] at h
      obtain ⟨rest, hrest, heq⟩ := Option.map_eq_some_iff.1 h
      cases heq
      obtain ⟨k', hk', scores', hfound⟩ := ih hrest
      refine ⟨k' + 1, Nat.succ_le_succ hk', scores', ?_⟩
      rw [if_neg hnow, hfound, Option.map_some]

end

/-! ### Counted rankings -/

section
variable {α : Type} [Scalar α]

def rankCounted (r : SymbolRank α) (w : RankWeights α) :
    Except (RankError α) (Nat × List (Symbol × α)) :=
  if r.nodes.size = 0 then .ok (0, [])
  else do
    let start ← r.start w
    match iterateCounted (r.step start.toPersonalization) r.threshold r.config.maxIterations
      start.initial with
    | some (k, scores) => return (k, r.sorted scores)
    | none => .error (.notConverged r.config.maxIterations)

theorem rankCounted_of_start {r : SymbolRank α} (hn : r.nodes.size ≠ 0) {w : RankWeights α}
    {s : Start α r.nodes.size} (hs : r.start w = .ok s) :
    r.rankCounted w =
      match iterateCounted (r.step s.toPersonalization) r.threshold
        r.config.maxIterations s.initial with
      | some (k, scores) => .ok (k, r.sorted scores)
      | none => .error (.notConverged r.config.maxIterations) := by
  rw [rankCounted, if_neg hn, hs]
  rfl

theorem rankWith_eq_map (r : SymbolRank α) (w : RankWeights α) :
    r.rankWith w = (r.rankCounted w).map (·.2) := by
  by_cases hn : r.nodes.size = 0
  · simp only [rankWith, rankCounted, if_pos hn]
    rfl
  cases hs : r.start w with
  | error e =>
    rw [rankWith_of_start_error hn hs, rankCounted, if_neg hn, hs]
    rfl
  | ok s =>
    rw [rankWith_of_start hn hs, rankCounted_of_start hn hs, ← map_iterateCounted]
    cases iterateCounted (r.step s.toPersonalization) r.threshold r.config.maxIterations
      s.initial <;> rfl

theorem rankWith_of_rankCounted {r : SymbolRank α} {w : RankWeights α} {k : Nat}
    {ranking : List (Symbol × α)}
    (h : r.rankCounted w = .ok (k, ranking)) : r.rankWith w = .ok ranking := by
  rw [rankWith_eq_map, h]
  rfl

theorem exists_rankCounted {r : SymbolRank α} {w : RankWeights α} {ranking : List (Symbol × α)}
    (h : r.rankWith w = .ok ranking) : ∃ k, r.rankCounted w = .ok (k, ranking) := by
  rw [rankWith_eq_map] at h
  cases hcounted : r.rankCounted w with
  | error e =>
    rw [hcounted] at h
    cases h
  | ok found =>
    rw [hcounted] at h
    cases h
    exact ⟨found.1, rfl⟩

theorem rankCounted_eq_ok_iff {r : SymbolRank α} (hn : r.nodes.size ≠ 0) {w : RankWeights α}
    {k : Nat} {ranking : List (Symbol × α)} :
    r.rankCounted w = .ok (k, ranking) ↔ ∃ s, r.start w = .ok s ∧ ∃ scores,
      iterateCounted (r.step s.toPersonalization) r.threshold r.config.maxIterations s.initial =
        some (k, scores) ∧
        r.sorted scores = ranking := by
  cases hs : r.start w with
  | error e =>
    rw [rankCounted, if_neg hn, hs]
    simp [bind, Except.bind]
  | ok s =>
    rw [rankCounted_of_start hn hs]
    simp only [Except.ok.injEq, exists_eq_left']
    cases iterateCounted (r.step s.toPersonalization) r.threshold
      r.config.maxIterations s.initial with
    | none => simp
    | some found => simp [Prod.ext_iff, and_assoc]

end

/-! ### Wider bounds -/

section
variable {α : Type} [Scalar α] {r : SymbolRank α} {w : RankWeights α} {k : Nat}
  {ranking : List (Symbol × α)}

def withRounds (r : SymbolRank α) (rounds : Nat) : SymbolRank α :=
  { r with config := { r.config with maxIterations := rounds } }

def withTolerance (r : SymbolRank α) (tolerance : α) : SymbolRank α :=
  { r with config := { r.config with tolerance } }

theorem rankCounted_withRounds {rounds : Nat} (hrounds : r.config.maxIterations ≤ rounds)
    (h : r.rankCounted w = .ok (k, ranking)) :
    (r.withRounds rounds).rankCounted w = .ok (k, ranking) := by
  by_cases hn : r.nodes.size = 0
  · rw [rankCounted, if_pos hn] at h
    rw [rankCounted, if_pos (show (r.withRounds rounds).nodes.size = 0 from hn), h]
  · obtain ⟨s, hs, scores, hfound, hsorted⟩ := (rankCounted_eq_ok_iff hn).1 h
    have hmore := iterateCounted_of_le hrounds hfound
    exact (rankCounted_eq_ok_iff (r := r.withRounds rounds) hn).2 ⟨s, hs, scores, hmore, hsorted⟩

theorem exists_rankCounted_withTolerance {tolerance : α}
    (hsmall : ∀ change : α, Scalar.lt change r.threshold = true →
      Scalar.lt change (r.withTolerance tolerance).threshold = true)
    (h : r.rankCounted w = .ok (k, ranking)) :
    ∃ k' ≤ k, ∃ ranking', (r.withTolerance tolerance).rankCounted w = .ok (k', ranking') := by
  by_cases hn : r.nodes.size = 0
  · refine ⟨0, Nat.zero_le k, [], ?_⟩
    rw [rankCounted, if_pos (show (r.withTolerance tolerance).nodes.size = 0 from hn)]
  · obtain ⟨s, hs, scores, hfound, -⟩ := (rankCounted_eq_ok_iff hn).1 h
    obtain ⟨k', hk', scores', hfound'⟩ := exists_iterateCounted_of_imp hsmall hfound
    refine ⟨k', hk', r.sorted scores', ?_⟩
    exact (rankCounted_eq_ok_iff (r := r.withTolerance tolerance) hn).2
      ⟨s, hs, scores', hfound', rfl⟩

end

section
variable {α : Type} [Scalar α] {g : RankGraph α} {config : RankConfig α} {order order' : RowOrder α}

theorem ofGraph_of_agrees (h : order.Agrees order' g config.weightKey) :
    ofGraph g config order = ofGraph g config order' := by
  unfold ofGraph
  rw [Transition.ofEdges_of_rowTotal_eq h]

end

variable {α : Type} [Scalar α] {K : Type} [Field K] [LinearOrder K] [CurvedFunctions K]
  [IsStrictOrderedRing K]

/-- A ranking that is found stays what it is when more rounds are allowed, if the rows add up to the
same totals again; in exact arithmetic they always do. There one is also found with a larger
tolerance, in at most as many rounds. -/
theorem rankWith_relaxed :
    (∀ (g : RankGraph α) (config : RankConfig α) (w : RankWeights α) (rounds : Nat)
      (order order' : RowOrder α), order.Agrees order' g config.weightKey →
        config.maxIterations ≤ rounds →
        ∀ ranking, (ofGraph g config order).rankWith w = .ok ranking →
          (ofGraph g { config with maxIterations := rounds } order').rankWith w = .ok ranking) ∧
      (∀ (g : RankGraph K) (key : String) (order order' : RowOrder K), order.Agrees order' g key) ∧
      ∀ (g : RankGraph K) (config : RankConfig K) (w : RankWeights K) (tolerance : K)
        (order order' : RowOrder K), config.tolerance ≤ tolerance →
          ∀ ranking, (ofGraph g config order).rankWith w = .ok ranking →
            ∃ k k' ranking', (ofGraph g config order).rankCounted w = .ok (k, ranking) ∧ k' ≤ k ∧
              (ofGraph g { config with tolerance } order').rankCounted w = .ok (k', ranking') ∧
              (ofGraph g { config with tolerance } order').rankWith w = .ok ranking' := by
  refine ⟨?rounds, fun g key order order' => order.agrees_exact order' g key, ?tolerance⟩
  case rounds =>
    intro g config w rounds order order' hagrees hrounds ranking hranking
    rw [ofGraph_of_agrees hagrees] at hranking
    obtain ⟨k, hk⟩ := exists_rankCounted hranking
    exact rankWith_of_rankCounted (rankCounted_withRounds (r := ofGraph g config order') hrounds hk)
  case tolerance =>
    intro g config w tolerance order order' htolerance ranking hranking
    obtain ⟨k, hk⟩ := exists_rankCounted hranking
    have hk' := hk
    rw [ofGraph_of_agrees (order.agrees_exact order' g _)] at hk'
    have hnodes : (0 : K) ≤ g.nodes.size := Nat.cast_nonneg _
    have hthreshold : (ofGraph g config order').threshold ≤
        ((ofGraph g config order').withTolerance tolerance).threshold :=
      mul_le_mul_of_nonneg_left htolerance hnodes
    obtain ⟨k', hle, ranking', hfound⟩ :=
      exists_rankCounted_withTolerance (r := ofGraph g config order')
        (fun change hchange => Scalar.lt_iff.2 ((Scalar.lt_iff.1 hchange).trans_le hthreshold)) hk'
    exact ⟨k, k', ranking', hk, hle, hfound, rankWith_of_rankCounted hfound⟩

theorem rankWith_relaxed_fork :
    (∃ ranking, (ofGraph fork .standard).rankWith forkWeights = .ok ranking ∧
      (ofGraph fork { RankConfig.standard with maxIterations := 1000 } (.descending ℚ)).rankWith
        forkWeights = .ok ranking) ∧
      ∃ k k' ranking ranking', (ofGraph fork .standard).rankCounted forkWeights = .ok (k, ranking) ∧
        k' ≤ k ∧ (ofGraph fork { RankConfig.standard with tolerance := 1 / 20000 }
          (.descending ℚ)).rankCounted forkWeights = .ok (k', ranking') := by
  obtain ⟨ranking, hranking⟩ := Option.isSome_iff_exists.1 isSome_rankWith_fork
  have hranking := toOption_eq_some_iff.1 hranking
  obtain ⟨hrounds, hagrees, htolerance⟩ := @rankWith_relaxed ℚ _ ℚ _ _ _ _
  have hstandard : (RankConfig.standard : RankConfig ℚ).tolerance ≤ 1 / 20000 := by decide +kernel
  obtain ⟨k, k', ranking', hk, hle, hk', -⟩ :=
    htolerance fork .standard forkWeights _ .ascending (.descending ℚ) hstandard ranking hranking
  refine ⟨⟨ranking, hranking, ?_⟩, k, k', ranking, ranking', hk, hle, hk'⟩
  exact hrounds fork .standard forkWeights 1000 .ascending (.descending ℚ)
    (hagrees _ _ _ _) (by decide)
    ranking hranking

example : ((ofGraph fork .standard).rankCounted forkWeights).toOption.map (·.1) = some 9 := by
  decide +kernel

example : ((ofGraph fork { RankConfig.standard with tolerance := 1 / 20000 }).rankCounted
    forkWeights).toOption.map (·.1) = some 7 := by decide +kernel

/-! ### Rounding -/

section
variable {r : SymbolRank α} {w : RankWeights α}

def finalScores (r : SymbolRank α) (w : RankWeights α) : Option (Vector α r.nodes.size) :=
  (r.start w).toOption.bind fun s =>
    iterate (r.step s.toPersonalization) r.threshold r.config.maxIterations s.initial

theorem rankWith_of_finalScores (hn : r.nodes.size ≠ 0) {scores : Vector α r.nodes.size}
    (h : r.finalScores w = some scores) : r.rankWith w = .ok (r.sorted scores) := by
  obtain ⟨s, hs, hfound⟩ := Option.bind_eq_some_iff.1 h
  rw [rankWith_of_start hn (toOption_eq_some_iff.1 hs), hfound]

theorem exists_pair_sublist [Scalar.Lawful α] {i j : Fin r.nodes.size} {a b : Symbol}
    (ha : r.nodes[i.val]? = some a) (hb : r.nodes[j.val]? = some b) (hne : a ≠ b)
    (h : ((r.finalScores w).any fun scores =>
      !rankingLe (b, scores.get j) (a, scores.get i)) = true) :
    ∃ ranking, r.rankWith w = .ok ranking ∧ [a, b].Sublist (ranking.map (·.1)) := by
  obtain ⟨scores, hscores, hlate⟩ := (Option.any_eq_true _ _).1 h
  have hn : r.nodes.size ≠ 0 := Nat.ne_of_gt (Nat.zero_lt_of_lt i.isLt)
  refine ⟨r.sorted scores, rankWith_of_finalScores hn hscores, ?_⟩
  exact pair_sublist_sorted ha hb hne (by simpa using hlate)

end

/-- Two nodes that each lead to a node of their own and to two in common, with the same weights. -/
def twins : RankGraph Float where
  nodes := #[forkSymbol "p", forkSymbol "q", forkSymbol "a", forkSymbol "b",
    forkSymbol "c", forkSymbol "d"]
  edges := [⟨0, 2, .number 0.1⟩, ⟨0, 4, .number 0.2⟩, ⟨0, 5, .number 0.3⟩,
    ⟨1, 3, .number 0.1⟩, ⟨1, 4, .number 0.2⟩, ⟨1, 5, .number 0.3⟩]

def twinsWeights : RankWeights Float where
  similarity := some [(forkSymbol "p", 1), (forkSymbol "q", 1)]
  initial := some [(forkSymbol "p", 1), (forkSymbol "q", 1)]

def quick : RankConfig Float := { RankConfig.standard with alpha := 0.015625 }

/-- The rows of the second node backwards, all others as they are. -/
def twisted : RowOrder Float where
  arrange node weights := if node = 1 then weights.reverse else weights
  perm node weights := by
    split
    · exact List.reverse_perm weights
    · exact .refl weights

theorem exists_rankWith_reordered :
    quick.Valid ∧ ∃ ranking ranking',
      (ofGraph twins quick).rankWith twinsWeights = .ok ranking ∧
      (ofGraph twins { quick with maxIterations := 1000 } twisted).rankWith twinsWeights =
        .ok ranking' ∧
      [forkSymbol "a", forkSymbol "b"].Sublist (ranking.map (·.1)) ∧
      [forkSymbol "b", forkSymbol "a"].Sublist (ranking'.map (·.1)) ∧ ranking ≠ ranking' := by
  have hne : forkSymbol "a" ≠ forkSymbol "b" := fun heq =>
    absurd (congrArg Symbol.uri heq) (by decide)
  obtain ⟨ranking, hranking, hab⟩ :=
    exists_pair_sublist (r := ofGraph twins quick) (w := twinsWeights)
      (i := (2 : Fin 6)) (j := (3 : Fin 6)) rfl rfl hne (by decide +kernel)
  obtain ⟨ranking', hranking', hba⟩ := exists_pair_sublist
    (r := ofGraph twins { quick with maxIterations := 1000 } twisted) (w := twinsWeights)
    (i := (3 : Fin 6)) (j := (2 : Fin 6)) rfl rfl hne.symm (by decide +kernel)
  refine ⟨⟨by decide +kernel, by decide +kernel⟩, ranking, ranking', hranking,
    hranking', hab, hba, ?_⟩
  rintro rfl
  have hnodup : (ranking.map (·.1)).Nodup := by
    obtain ⟨scores, rfl⟩ := exists_eq_sorted hranking
    have huris : (twins.nodes.toList.map Symbol.uri).Nodup := by decide
    exact (symbols_sorted_perm _ _).nodup_iff.2 (huris.of_map _)
  exact not_pair_sublist hnodup hab hba

end SymbolRank
end CodeAtlas
