import CodeAtlas.Proofs.Rank.Conservation
import CodeAtlas.Proofs.Rank.Personalization

/-! How a ranking ends. Without nodes it is empty. Otherwise a map that gives some node a negative
weight, or one that is no finite number, is refused, whatever the rounds would have made of it; then
the rounds decide. -/

namespace CodeAtlas

variable {α : Type} [Scalar α]

/-- What a map gives to a symbol; a symbol that it leaves out gets nothing. -/
def Weights.given? (weights : Weights α) (s : Symbol) : Option α :=
  (weights.find? (·.1 == s)).map (·.2)

structure WeightOffer (α : Type) where
  map : WeightMap
  node : Symbol
  value : α

namespace WeightOffer

/-- Negative, or no finite number. -/
def isRefused (o : WeightOffer α) : Bool := Scalar.lt o.value 0 || !Scalar.isFinite o.value

def error (o : WeightOffer α) : RankError α := .invalidWeight o.map o.node.uri o.value

def ofMap (map : WeightMap) (nodes : List Symbol) : Option (Weights α) → List (WeightOffer α)
  | none => []
  | some weights => nodes.filterMap fun s => (weights.given? s).map fun value => ⟨map, s, value⟩

end WeightOffer

namespace RankWeights

def offers (w : RankWeights α) (nodes : List Symbol) : List (WeightOffer α) :=
  WeightOffer.ofMap .similarity nodes w.similarity ++ WeightOffer.ofMap .initial nodes w.initial ++
    WeightOffer.ofMap .dangling nodes w.dangling

def FirstRefused (w : RankWeights α) (nodes : List Symbol) (o : WeightOffer α) : Prop :=
  ∃ before after, w.offers nodes = before ++ o :: after ∧ o.isRefused ∧ ∀ o' ∈ before, ¬o'.isRefused

/-- The same maps are there, and each of them gives the nodes what its counterpart does. -/
structure AgreeOn (nodes : List Symbol) (w w' : RankWeights α) : Prop where
  similarity : Option.Rel (fun a b => ∀ s ∈ nodes, a.given? s =
    b.given? s) w.similarity w'.similarity
  initial : Option.Rel (fun a b => ∀ s ∈ nodes, a.given? s = b.given? s) w.initial w'.initial
  dangling : Option.Rel (fun a b => ∀ s ∈ nodes, a.given? s = b.given? s) w.dangling w'.dangling

theorem firstRefused_iff {w : RankWeights α} {nodes : List Symbol} {o : WeightOffer α} :
    w.FirstRefused nodes o ↔ (w.offers nodes).find? WeightOffer.isRefused = some o := by
  rw [List.find?_eq_some_iff_append, FirstRefused]
  constructor
  · rintro ⟨before, after, hsplit, ho, hbefore⟩
    exact ⟨ho, before, after, hsplit, by simpa using hbefore⟩
  · rintro ⟨ho, before, after, hsplit, hbefore⟩
    exact ⟨before, after, hsplit, ho, by simpa using hbefore⟩

end RankWeights

namespace SymbolRank
variable {r : SymbolRank α} {w w' : RankWeights α} {map : WeightMap}
  {weights weights' : Option (Weights α)} {e : RankError α}

theorem isRefused_eq (o : WeightOffer α) : o.isRefused = !accepted o.value := by
  rw [WeightOffer.isRefused, accepted, Bool.not_and, Bool.not_not, Bool.or_comm]

/-! ### Refused weights -/

section
variable [Scalar.Lawful α]

theorem find?_ofMap (map : WeightMap) (nodes : List Symbol) (weights : Weights α) :
    (WeightOffer.ofMap map nodes (some weights)).find? WeightOffer.isRefused =
      (nodes.find? fun s => !accepted (weights.value s)).map fun s =>
        ⟨map, s, weights.value s⟩ := by
  have hrefused (s : Symbol) : ((weights.given? s).map fun value =>
      (⟨map, s, value⟩ : WeightOffer α)).any
      WeightOffer.isRefused = !accepted (weights.value s) := by
    have hvalue : weights.value s = (weights.given? s).getD 0 := rfl
    rw [hvalue]
    cases weights.given? s with
    | none => simp [accepted_zero]
    | some value => exact isRefused_eq _
  rw [WeightOffer.ofMap, List.find?_filterMap]
  simp only [hrefused]
  cases hfound : nodes.find? fun s => !accepted (weights.value s) with
  | none => rfl
  | some s =>
    have hs := List.find?_some hfound
    cases hgiven : weights.given? s with
    | none =>
      rw [← hrefused, hgiven] at hs
      cases hs
    | some value =>
      have hvalue : weights.value s = (weights.given? s).getD 0 := rfl
      simp [hvalue, hgiven]

theorem normalized_eq_error_iff : r.normalized map weights = .error e ↔
    ∃ o, (WeightOffer.ofMap map r.nodes.toList weights).find? WeightOffer.isRefused = some o ∧
      e = o.error := by
  cases weights with
  | none => simp [normalized, WeightOffer.ofMap]
  | some weights =>
    rw [find?_ofMap, normalized]
    cases r.nodes.toList.find? fun s => !accepted (weights.value s) with
    | none => simp
    | some s => simp [WeightOffer.error, eq_comm]

theorem exists_normalized_eq_ok_iff : (∃ v, r.normalized map weights = .ok v) ↔
    (WeightOffer.ofMap map r.nodes.toList weights).find? WeightOffer.isRefused = none := by
  cases hnormalized : r.normalized map weights with
  | error e =>
    obtain ⟨o, ho, -⟩ := normalized_eq_error_iff.1 hnormalized
    simp [ho]
  | ok v =>
    refine iff_of_true ⟨v, rfl⟩ (Option.eq_none_iff_forall_ne_some.2 fun o ho => ?_)
    rw [normalized_eq_error_iff.2 ⟨o, ho, rfl⟩] at hnormalized
    cases hnormalized

theorem start_eq_error_iff :
    r.start w = .error e ↔ ∃ o, w.FirstRefused r.nodes.toList o ∧ e = o.error := by
  have hdangling (similarity : Vector α r.nodes.size) :
      w.dangling.elim (.ok similarity) (fun map => r.normalized .dangling (some map)) = .error e ↔
        r.normalized .dangling w.dangling = .error e := by
    cases w.dangling with
    | none => simp [normalized]
    | some map => rfl
  have hokay {m : WeightMap} {weights : Option (Weights α)} {p : Prop} :
      (∃ v, r.normalized m weights = .ok v ∧ p) ↔
        (WeightOffer.ofMap m r.nodes.toList weights).find? WeightOffer.isRefused = none ∧ p := by
    rw [← exists_normalized_eq_ok_iff, exists_and_right]
  simp only [start, bind_eq_error_iff, hdangling, hokay, pure, Except.pure, reduceCtorEq, and_false,
    exists_false, or_false, normalized_eq_error_iff, RankWeights.firstRefused_iff,
    RankWeights.offers, List.find?_append, Option.or_eq_some_iff, Option.or_eq_none_iff]
  grind

theorem exists_start_eq_ok_iff :
    (∃ s, r.start w = .ok s) ↔ ∀ o ∈ w.offers r.nodes.toList, ¬o.isRefused := by
  rw [← List.find?_eq_none]
  cases hstart : r.start w with
  | error e =>
    obtain ⟨o, ho, -⟩ := start_eq_error_iff.1 hstart
    simp [RankWeights.firstRefused_iff.1 ho]
  | ok s =>
    refine iff_of_true ⟨s, rfl⟩ (Option.eq_none_iff_forall_ne_some.2 fun o ho => ?_)
    rw [start_eq_error_iff.2 ⟨o, RankWeights.firstRefused_iff.2 ho, rfl⟩] at hstart
    cases hstart

end

/-! ### Weights of other symbols -/

theorem normalized_congr
    (h : Option.Rel (fun a b => ∀ s ∈ r.nodes.toList, a.given? s = b.given? s) weights weights')
    (map : WeightMap) :
    r.normalized map weights = r.normalized map weights' := by
  cases h with
  | none => rfl
  | @some a b h =>
    have hvalue : ∀ s ∈ r.nodes.toList, a.value s = b.value s :=
      fun s hs => congrArg (·.getD 0) (h s hs)
    have hfind : (r.nodes.toList.find? fun s => !accepted (a.value s)) =
        r.nodes.toList.find? fun s => !accepted (b.value s) :=
      List.find?_congr fun s hs => by rw [hvalue s hs]
    have hdense : (Vector.ofFn fun i : Fin r.nodes.size => a.value r.nodes[i]) =
        Vector.ofFn fun i : Fin r.nodes.size => b.value r.nodes[i] := by
      congr 1
      funext i
      exact hvalue _ (Array.getElem_mem_toList i.isLt)
    rw [normalized, normalized, hfind, hdense]
    cases hrefused : r.nodes.toList.find? fun s => !accepted (b.value s) with
    | none => rfl
    | some s => simp only [hvalue s (List.mem_of_find?_eq_some hrefused)]

theorem start_congr (h : w.AgreeOn r.nodes.toList w') : r.start w = r.start w' := by
  have hdangling (similarity : Vector α r.nodes.size) :
      w.dangling.elim (.ok similarity) (fun map => r.normalized .dangling (some map)) =
        w'.dangling.elim (.ok similarity) fun map => r.normalized .dangling (some map) := by
    obtain h := h.dangling
    generalize w.dangling = d, w'.dangling = d' at h
    cases h with
    | none => rfl
    | some h => exact normalized_congr (.some h) .dangling
  simp only [start, normalized_congr h.similarity, normalized_congr h.initial, hdangling]

/-! ### The end of a ranking -/

theorem rankWith_eq_notConverged_iff (hn : r.nodes.size ≠ 0) {s : Start α r.nodes.size}
    (hs : r.start w = .ok s) {iterations : Nat} :
    r.rankWith w = .error (.notConverged iterations) ↔ iterations = r.config.maxIterations ∧
      ∀ k < r.config.maxIterations, Scalar.lt (r.change s k) r.threshold = false := by
  have hrounds : iterate (r.step s.toPersonalization) r.threshold r.config.maxIterations s.initial =
      none ↔
      ∀ k < r.config.maxIterations, Scalar.lt (r.change s k) r.threshold = false :=
        iterate_eq_none_iff
  rw [rankWith_of_start hn hs, ← hrounds]
  cases iterate (r.step s.toPersonalization) r.threshold r.config.maxIterations s.initial with
  | none => simp [eq_comm]
  | some scores => simp

/-- How a ranking ends, by what its maps give to the nodes and by what its rounds change. -/
structure Ends (r : SymbolRank α) (w : RankWeights α) : Prop where
  nodeless : r.nodes.size = 0 → r.rankWith w = .ok []
  refused_iff : r.nodes.size ≠ 0 →
    ((∃ map uri value, r.rankWith w = .error (.invalidWeight map uri value)) ↔
      ∃ o ∈ w.offers r.nodes.toList, o.isRefused)
  named : r.nodes.size ≠ 0 → ∀ o, w.FirstRefused r.nodes.toList o → r.rankWith w = .error o.error
  rounds : r.nodes.size ≠ 0 → (∀ o ∈ w.offers r.nodes.toList, ¬o.isRefused) →
    ∃ s, r.start w = .ok s ∧
    (∀ iterations, r.rankWith w = .error (.notConverged iterations) ↔
      iterations = r.config.maxIterations ∧
      ∀ k < r.config.maxIterations,
        Scalar.lt (r.change s k) (Scalar.ofNat r.nodes.size * r.config.tolerance) = false) ∧
    ((∃ k < r.config.maxIterations,
        Scalar.lt (r.change s k) (Scalar.ofNat r.nodes.size * r.config.tolerance) = true) →
      ∃ ranking, r.rankWith w = .ok ranking)
  foreign : ∀ w', w.AgreeOn r.nodes.toList w' → r.rankWith w = r.rankWith w'

/-- A ranking without nodes is empty. One with nodes names the first weight that it refuses, even if
no round is allowed; if it refuses none it fails just when no round allowed changes little enough.
What the maps give to other symbols never matters. -/
theorem rankWith_ends [Scalar.Lawful α] (g : RankGraph α) (config : RankConfig α)
    (order : RowOrder α)
    (w : RankWeights α) : (ofGraph g config order).Ends w := by
  constructor
  · intro hn
    simp only [rankWith, if_pos hn]
  · intro hn
    constructor
    · rintro ⟨map, uri, value, hfailed⟩
      by_contra hnone
      obtain ⟨s, hs⟩ := exists_start_eq_ok_iff.2 fun o ho hrefused => hnone ⟨o, ho, hrefused⟩
      rw [rankWith_of_start hn hs] at hfailed
      split at hfailed <;> cases hfailed
    · rintro ⟨o, ho, hrefused⟩
      have hfound : ((w.offers (ofGraph g config order).nodes.toList).find?
          WeightOffer.isRefused).isSome :=
        List.find?_isSome.2 ⟨o, ho, hrefused⟩
      obtain ⟨first, hfirst⟩ := Option.isSome_iff_exists.1 hfound
      have hstart := start_eq_error_iff.2 ⟨first, RankWeights.firstRefused_iff.2 hfirst, rfl⟩
      exact ⟨_, _, _, rankWith_of_start_error hn hstart⟩
  · exact fun hn o ho => rankWith_of_start_error hn (start_eq_error_iff.2 ⟨o, ho, rfl⟩)
  · intro hn haccepted
    obtain ⟨s, hs⟩ := exists_start_eq_ok_iff.2 haccepted
    refine ⟨s, hs, fun iterations => rankWith_eq_notConverged_iff hn hs, ?_⟩
    rintro ⟨k, hk, hsmall⟩
    exact exists_rankWith_eq_ok hn hs hk hsmall
  · exact fun w' hw => rankWith_congr fun _ => start_congr hw

def bridge : RankGraph Float where
  nodes := #[forkSymbol "a", forkSymbol "b"]
  edges := [⟨0, 1, .unit⟩]

def noRounds : RankConfig Float := { RankConfig.standard with maxIterations := 0 }

/-- A weight of another symbol, then one that is no number, then a negative one. -/
def strayWeights : RankWeights Float where
  similarity := some [(forkSymbol "c", -1)]
  initial := some [(forkSymbol "b", 0 / 0), (forkSymbol "a", 1)]
  dangling := some [(forkSymbol "a", -1)]

theorem rankWith_ends_bridge :
    (ofGraph bridge noRounds).rankWith strayWeights =
      .error (.invalidWeight .initial "local b" (0 / 0)) ∧
      (ofGraph bridge noRounds).rankWith { similarity := strayWeights.similarity } =
        .error (.notConverged 0) ∧
      (ofGraph ⟨#[], [], true⟩ noRounds).rankWith strayWeights = .ok [] := by
  have hrefused : strayWeights.FirstRefused bridge.nodes.toList
      ⟨.initial, forkSymbol "b", 0 / 0⟩ := by
    refine ⟨[⟨.initial, forkSymbol "a", 1⟩], [⟨.dangling, forkSymbol "a", -1⟩], rfl, by decide, ?_⟩
    rintro o ho
    rw [List.mem_singleton.1 ho]
    decide
  obtain ⟨s, -, hrounds, -⟩ := (rankWith_ends bridge noRounds .ascending
    { similarity := strayWeights.similarity }).rounds
    (by decide) (fun o ho => nomatch (ho : o ∈ []))
  refine ⟨(rankWith_ends bridge noRounds .ascending strayWeights).named (by decide) _ hrefused, ?_,
    (rankWith_ends ⟨#[], [], true⟩ noRounds .ascending strayWeights).nodeless rfl⟩
  exact (hrounds 0).2 ⟨rfl, fun k hk => absurd hk (Nat.not_lt_zero k)⟩

end SymbolRank
end CodeAtlas
