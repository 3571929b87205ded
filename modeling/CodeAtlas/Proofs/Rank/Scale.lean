import CodeAtlas.Proofs.Rank.Refusal

/-! The scale of weights. In exact arithmetic a ranking is the same when the values of a map are
multiplied, and equal values are as good as no map. Only the error about a refused weight tells the
value that was given. -/

namespace CodeAtlas

variable {K : Type} [Field K]

namespace Weights

def scaled (c : K) (weights : Weights K) : Weights K := weights.map fun x => (x.1, c * x.2)

variable [LinearOrder K] [CurvedFunctions K]

theorem value_scaled (c : K) (weights : Weights K) (s : Symbol) :
    (weights.scaled c).value s = c * weights.value s := by
  have hfind : (weights.scaled c).find? (·.1 == s) =
      (weights.find? (·.1 == s)).map fun x => (x.1, c * x.2) :=
    List.find?_map ..
  rw [value, value, hfind]
  cases weights.find? (·.1 == s) with
  | none => exact (mul_zero c).symm
  | some x => rfl

end Weights

def RankWeights.scaled (map : WeightMap) (c : K) (w : RankWeights K) : RankWeights K where
  similarity := if map = .similarity then w.similarity.map (·.scaled c) else w.similarity
  initial := if map = .initial then w.initial.map (·.scaled c) else w.initial
  dangling := if map = .dangling then w.dangling.map (·.scaled c) else w.dangling

def RankError.scaled (map : WeightMap) (c : K) : RankError K → RankError K
  | .invalidWeight refused uri value =>
    .invalidWeight refused uri (if map = refused then c * value else value)
  | e => e

/-- No map, one that is zero on all nodes, or one positive value on all nodes. -/
inductive Weights.EvenOn [LinearOrder K] [CurvedFunctions K] (nodes : Array Symbol) :
    Option (Weights K) → Prop
  | absent : EvenOn nodes none
  | zero {weights : Weights K} (h : ∀ s ∈ nodes, weights.value s = 0) : EvenOn nodes (some weights)
  | constant {weights : Weights K} {c : K} (hc : 0 < c) (h : ∀ s ∈ nodes, weights.value s = c) :
    EvenOn nodes (some weights)

namespace SymbolRank
variable [LinearOrder K] [CurvedFunctions K]

/-! ### Shares -/

def shares {n : Nat} (v : Vector K n) : Vector K n :=
  if Scalar.le (Scalar.sum v.toList) 0 then uniform n else v.map (· / Scalar.sum v.toList)

theorem normalized_of_find?_eq_some {r : SymbolRank K} {weights : Weights K} {s : Symbol}
    (h : (r.nodes.toList.find? fun s => !accepted (weights.value s)) = some s) (map : WeightMap) :
    r.normalized map (some weights) = .error (.invalidWeight map s.uri (weights.value s)) := by
  simp only [normalized, h]

theorem normalized_of_find?_eq_none {r : SymbolRank K} {weights : Weights K}
    (h : (r.nodes.toList.find? fun s => !accepted (weights.value s)) = none) (map : WeightMap) :
    r.normalized map (some weights) =
      .ok (shares (Vector.ofFn fun i : Fin r.nodes.size =>
        weights.value (getElem r.nodes i i.isLt))) := by
  simp only [normalized, h]
  rfl

section
variable [IsStrictOrderedRing K] {n : Nat} {c : K}

theorem shares_mul (hc : 0 < c) (v : Vector K n) : shares (v.map (c * ·)) = shares v := by
  have hsum : Scalar.sum (v.map (c * ·)).toList = c * Scalar.sum v.toList := by
    rw [Scalar.sum_eq, Scalar.sum_eq, sum_toList, sum_toList, Finset.mul_sum]
    simp only [get_map]
  have hle : Scalar.le (c * Scalar.sum v.toList) 0 = Scalar.le (Scalar.sum v.toList) 0 := by
    rw [Bool.eq_iff_iff, Scalar.le_iff, Scalar.le_iff, ← not_lt, ← not_lt,
      mul_pos_iff_of_pos_left hc]
  have hvalue : ((· / (c * Scalar.sum v.toList)) ∘ (c * ·) : K → K) =
      (· / Scalar.sum v.toList) := by
    funext x
    exact mul_div_mul_left x _ hc.ne'
  rw [shares, shares, hsum, hle, Vector.map_map, hvalue]

omit [IsStrictOrderedRing K] in
theorem shares_replicate (hc : 0 < c) : shares (Vector.replicate n c) = uniform n := by
  rw [shares]
  split
  · rfl
  · have hsum : Scalar.sum (Vector.replicate n c).toList = n * c := by
      rw [Scalar.sum_eq, Vector.toList_replicate, List.sum_replicate, nsmul_eq_mul]
    have hvalue : c / (n * c) = 1 / n := by
      rw [← div_div, div_right_comm, div_self hc.ne']
    rw [Vector.map_replicate, hsum, hvalue]
    rfl

end

variable {r : SymbolRank K} {map refused : WeightMap} {weights : Option (Weights K)}
  {w : RankWeights K} {c : K}

/-! ### Equal weights -/

theorem normalized_of_evenOn (hn : r.nodes.size ≠ 0) (h : Weights.EvenOn r.nodes weights)
    (map : WeightMap) :
    r.normalized map weights = r.normalized map none := by
  cases h with
  | absent => rfl
  | zero h => exact normalized_of_value_eq_zero hn h map
  | @constant weights c hc h =>
    have hnone : (r.nodes.toList.find? fun s => !accepted (weights.value s)) = none := by
      rw [List.find?_eq_none]
      intro s hs
      rw [h s (Array.mem_toList_iff.1 hs), accepted_iff.2 hc.le]
      exact Bool.false_ne_true
    have hconstant : (Vector.ofFn fun i : Fin r.nodes.size =>
        weights.value (getElem r.nodes i i.isLt)) =
        Vector.replicate r.nodes.size c := by
      exact Vector.ext fun i hi => by simp [h]
    rw [normalized_of_find?_eq_none hnone, hconstant, shares_replicate hc]
    rfl

theorem start_of_normalized_eq {w' : RankWeights K}
    (hsimilarity : r.normalized .similarity w.similarity = r.normalized .similarity w'.similarity)
    (hinitial : r.normalized .initial w.initial = r.normalized .initial w'.initial)
    (hdangling : w.dangling = w'.dangling) : r.start w = r.start w' := by
  simp only [start, hsimilarity, hinitial, hdangling]

theorem normalized_of_ok {v : Vector K r.nodes.size} (h : r.normalized map weights = .ok v)
    (other : WeightMap) :
    r.normalized other weights = .ok v := by
  cases weights with
  | none => exact h
  | some weights =>
    cases hrefused : r.nodes.toList.find? fun s => !accepted (weights.value s) with
    | some s =>
      rw [normalized_of_find?_eq_some hrefused] at h
      cases h
    | none =>
      rw [normalized_of_find?_eq_none hrefused] at h ⊢
      exact h

theorem start_dangling {d : Weights K}
    (h : ∀ v, r.normalized .similarity w.similarity = .ok v →
      r.normalized .dangling (some d) = .ok v) :
    r.start { w with dangling := some d } = r.start { w with dangling := none } := by
  unfold start
  cases hsimilarity : r.normalized .similarity w.similarity with
  | error e => rfl
  | ok v =>
    simp only [Option.elim_some, Option.elim_none, h v hsimilarity]
    rfl

/-! ### Scaled maps -/

theorem scaled_of_normalized (hmap : map ≠ refused) {e : RankError K}
    (h : r.normalized refused weights = .error e) : e.scaled map c = e := by
  obtain ⟨uri, value, rfl⟩ := invalidWeight_of_normalized h
  rw [RankError.scaled, if_neg hmap]

variable [IsStrictOrderedRing K]

theorem accepted_mul (hc : 0 < c) (value : K) : accepted (c * value) = accepted value := by
  rw [Bool.eq_iff_iff, accepted_iff, accepted_iff, mul_nonneg_iff_of_pos_left hc]

theorem normalized_map_scaled (hc : 0 < c) (map : WeightMap) (weights : Weights K) :
    r.normalized map (some (weights.scaled c)) =
      (r.normalized map (some weights)).mapError (RankError.scaled map c) := by
  have hfind : (r.nodes.toList.find? fun s => !accepted ((weights.scaled c).value s)) =
      r.nodes.toList.find? fun s => !accepted (weights.value s) := by
    simp only [Weights.value_scaled, accepted_mul hc]
  cases hrefused : r.nodes.toList.find? fun s => !accepted (weights.value s) with
  | some s =>
    have herror : (RankError.invalidWeight map s.uri (weights.value s)).scaled map c =
        .invalidWeight map s.uri (c * weights.value s) := by
      rw [RankError.scaled, if_pos rfl]
    rw [normalized_of_find?_eq_some hrefused, normalized_of_find?_eq_some (hfind.trans hrefused),
      Weights.value_scaled, ← herror]
    rfl
  | none =>
    have hscaled : (Vector.ofFn fun i : Fin r.nodes.size =>
        (weights.scaled c).value (getElem r.nodes i i.isLt)) =
        (Vector.ofFn fun i : Fin r.nodes.size =>
          weights.value (getElem r.nodes i i.isLt)).map (c * ·) := by
      simp only [Weights.value_scaled]
      exact Vector.ext fun i hi => by simp
    rw [normalized_of_find?_eq_none hrefused, normalized_of_find?_eq_none (hfind.trans hrefused),
      hscaled, shares_mul hc]
    rfl

theorem normalized_scaled (hc : 0 < c) (map refused : WeightMap) (weights : Option (Weights K)) :
    r.normalized refused (if map = refused then weights.map (·.scaled c) else weights) =
      (r.normalized refused weights).mapError (RankError.scaled map c) := by
  by_cases hmap : map = refused
  · rw [if_pos hmap, hmap]
    cases weights with
    | none => rfl
    | some weights => exact normalized_map_scaled hc refused weights
  · rw [if_neg hmap, mapError_eq_self fun e he => scaled_of_normalized hmap he]

theorem start_scaled (hc : 0 < c) (map : WeightMap) (w : RankWeights K) :
    r.start (w.scaled map c) = (r.start w).mapError (RankError.scaled map c) := by
  have hdangling : ∀ similarity, (w.scaled map c).dangling.elim (.ok similarity)
      (fun weights => r.normalized .dangling (some weights)) =
        (w.dangling.elim (.ok similarity) fun weights =>
          r.normalized .dangling (some weights)).mapError
          (RankError.scaled map c) := by
    intro similarity
    simp only [RankWeights.scaled]
    cases w.dangling with
    | none =>
      rw [Option.map_none, ite_self]
      rfl
    | some weights =>
      have hscaled := normalized_scaled (r := r) hc map .dangling (some weights)
      by_cases hmap : map = .dangling
      · rwa [if_pos hmap] at hscaled ⊢
      · rwa [if_neg hmap] at hscaled ⊢
  have hsimilarity := normalized_scaled (r := r) hc map .similarity w.similarity
  have hinitial := normalized_scaled (r := r) hc map .initial w.initial
  simp only [start, hdangling]
  simp only [RankWeights.scaled, hsimilarity, hinitial]
  apply bind_mapError
  intro similarity
  apply bind_mapError
  intro initial
  apply bind_mapError
  intro dangling
  rfl

theorem rankWith_scaled (hc : 0 < c) (map : WeightMap) (w : RankWeights K) :
    r.rankWith (w.scaled map c) = (r.rankWith w).mapError (RankError.scaled map c) := by
  by_cases hn : r.nodes.size = 0
  · simp only [rankWith, if_pos hn]
    rfl
  have hstart := start_scaled (r := r) hc map w
  cases hs : r.start w with
  | error e =>
    rw [hs] at hstart
    rw [rankWith_of_start_error hn hs, rankWith_of_start_error hn hstart]
    rfl
  | ok s =>
    rw [hs] at hstart
    rw [rankWith_of_start hn hs, rankWith_of_start hn hstart]
    cases iterate (r.step s.toPersonalization) r.threshold r.config.maxIterations s.initial <;> rfl

/-! ### Rankings -/

/-- What a ranking does not tell of its weights. -/
structure ScaleFree (r : SymbolRank K) (w : RankWeights K) : Prop where
  scaled : ∀ map c, 0 < c → r.rankWith (w.scaled map c) =
    (r.rankWith w).mapError (RankError.scaled map c)
  foreign : ∀ w', w.AgreeOn r.nodes.toList w' → r.rankWith w' = r.rankWith w
  even_similarity : ∀ a b, Weights.EvenOn r.nodes a → Weights.EvenOn r.nodes b →
    r.rankWith { w with similarity := a } = r.rankWith { w with similarity := b }
  even_initial : ∀ a b, Weights.EvenOn r.nodes a → Weights.EvenOn r.nodes b →
    r.rankWith { w with initial := a } = r.rankWith { w with initial := b }
  dangling : ∀ d, w.similarity = some d ∨
    (w.similarity = none ∧ ∃ c > 0, ∀ s ∈ r.nodes, d.value s = c) →
    r.rankWith { w with dangling := some d } = r.rankWith { w with dangling := none }

/-- In exact arithmetic a ranking depends on a map by the proportions of what it gives to the nodes.
A positive factor shows in nothing but the value that an error names, other symbols do not count,
equal weights are no weights, and dangling nodes go by the similarity unless they have a map of
their own. -/
theorem rankWith_scaleFree (g : RankGraph K) (config : RankConfig K) (order : RowOrder K)
    (w : RankWeights K) :
    (ofGraph g config order).ScaleFree w := by
  constructor
  · intro map c hc
    exact rankWith_scaled hc map w
  · intro w' hw
    apply rankWith_congr
    intro _
    exact (start_congr hw).symm
  · intro a b ha hb
    apply rankWith_congr
    intro hn
    have hsame :=
      (normalized_of_evenOn hn ha .similarity).trans (normalized_of_evenOn hn hb .similarity).symm
    exact start_of_normalized_eq hsame rfl rfl
  · intro a b ha hb
    apply rankWith_congr
    intro hn
    have hsame :=
      (normalized_of_evenOn hn ha .initial).trans (normalized_of_evenOn hn hb .initial).symm
    exact start_of_normalized_eq rfl hsame rfl
  · intro d hd
    apply rankWith_congr
    intro hn
    apply start_dangling
    intro v hv
    rcases hd with hsimilarity | ⟨hsimilarity, c, hc, hconstant⟩
    · rw [hsimilarity] at hv
      exact normalized_of_ok hv .dangling
    · rw [hsimilarity] at hv
      rw [normalized_of_evenOn hn (.constant hc hconstant), normalized_of_ok hv .dangling]

def deficit : RankWeights ℚ where
  similarity := some [(forkSymbol "a", -1)]

/-- The error about a refused weight names another value when the map is doubled. -/
theorem exists_rankWith_scaled_ne :
    ∃ (g : RankGraph ℚ) (config : RankConfig ℚ) (w : RankWeights ℚ) (c : ℚ), 0 < c ∧
    (ofGraph g config).rankWith w = .error (.invalidWeight .similarity "local a" (-1)) ∧
    (ofGraph g config).rankWith (w.scaled .similarity c) ≠ (ofGraph g config).rankWith w := by
  have hstart : (ofGraph fork .standard).start deficit =
      .error (.invalidWeight .similarity "local a" (-1)) := by
    decide +kernel
  have hdoubled : (ofGraph fork .standard).start (deficit.scaled .similarity 2) =
      .error (.invalidWeight .similarity "local a" (-2)) := by
    decide +kernel
  have hnodes : (ofGraph fork .standard).nodes.size ≠ 0 := by decide
  refine ⟨fork, .standard, deficit, 2, two_pos, rankWith_of_start_error hnodes hstart, ?_⟩
  rw [rankWith_of_start_error hnodes hstart, rankWith_of_start_error hnodes hdoubled]
  intro heq
  injection heq with heq
  injection heq with _ _ hvalue
  exact absurd hvalue (by decide +kernel)

theorem rankWith_scaleFree_fork :
    ∃ ranking, (ofGraph fork .standard).rankWith forkWeights = .ok ranking ∧
    (ofGraph fork .standard).rankWith (forkWeights.scaled .initial (1 / 2)) = .ok ranking ∧
    (ofGraph fork .standard).rankWith { forkWeights with dangling := some [(forkSymbol "a", 1)] } =
      .ok ranking ∧
    (ofGraph fork .standard).rankWith { forkWeights with
      similarity := some [(forkSymbol "a", 3), (forkSymbol "c", 5), (forkSymbol "b", 3)] } =
        (ofGraph fork .standard).rankWith { forkWeights with similarity := none } := by
  obtain ⟨ranking, hranking⟩ := Option.isSome_iff_exists.1 isSome_rankWith_fork
  have hranking := toOption_eq_some_iff.1 hranking
  have hfree := rankWith_scaleFree fork .standard .ascending forkWeights
  have hscaled := hfree.scaled .initial (1 / 2) (by norm_num)
  rw [hranking] at hscaled
  have hdangling := hfree.dangling [(forkSymbol "a", 1)] (.inl rfl)
  have heven : ∀ s ∈ (ofGraph fork .standard).nodes,
      Weights.value [(forkSymbol "a", 3), (forkSymbol "c", 5), (forkSymbol "b", 3)] s =
        (3 : ℚ) := by
    decide +kernel
  exact ⟨ranking, hranking, hscaled, hdangling.trans hranking,
    hfree.even_similarity _ _ (.constant three_pos heven) .absent⟩

end SymbolRank
end CodeAtlas
