import CodeAtlas.Proofs.Graph.Subgraph
import CodeAtlas.Proofs.Rank.Convergence
import CodeAtlas.Proofs.Rank.Order
import CodeAtlas.Proofs.Rank.Weight

/-! Nodes by other numbers, and edges in another order. In exact arithmetic the scores of every
round go along with the nodes, and once they are sorted nothing is left of the numbers. -/

namespace CodeAtlas

variable {K : Type} {n m : Nat} {σ : Fin n ≃ Fin m}

def Carried (σ : Fin n ≃ Fin m) (v : Vector K n) (v' : Vector K m) : Prop :=
  ∀ i, v'.get (σ i) = v.get i

theorem Carried.sum_eq [AddCommMonoid K] {v : Vector K n} {v' : Vector K m} (h : Carried σ v v') :
    ∑ j, v'.get j = ∑ i, v.get i := by
  rw [← Equiv.sum_comp σ]
  exact Finset.sum_congr rfl fun i _ => h i

theorem Carried.map {v : Vector K n} {v' : Vector K m} (h : Carried σ v v') (f : K → K) :
    Carried σ (v.map f) (v'.map f) := by
  intro i
  rw [get_map, get_map, h i]

/-! ### The walk -/

theorem RankEdge.joins_renumber (directed : Bool) (e : RankEdge K n) (i j : Fin n) :
    (e.renumber σ).Joins directed (σ i) (σ j) ↔ e.Joins directed i j := by
  simp [RankEdge.Joins, RankEdge.renumber]

namespace Transition
variable [Field K] [LinearOrder K] [CurvedFunctions K] {edges : List (RankEdge K n)}
  {edges' : List (RankEdge K m)}

theorem weight_renumber (directed : Bool) (key : String)
    (h : edges'.Perm (edges.map (·.renumber σ))) (i j : Fin n) :
    weight directed key edges' (σ i) (σ j) = weight directed key edges i j := by
  rw [weight, ((h.filter _).map _).sum_eq, List.filter_map, List.map_map]
  simp only [Function.comp_def, RankEdge.joins_renumber]
  rfl

variable [IsStrictOrderedRing K] {order order' : RowOrder K}

theorem probability_renumber (directed : Bool) (key : String)
    (h : edges'.Perm (edges.map (·.renumber σ)))
    (i j : Fin n) : (ofEdges order' directed key edges').probability (σ i) (σ j) =
      (ofEdges order directed key edges).probability i j := by
  rw [probability_ofEdges, probability_ofEdges, ← Equiv.sum_comp σ]
  simp only [weight_renumber directed key h]

theorem mem_dangling_renumber (directed : Bool) (key : String)
    (h : edges'.Perm (edges.map (·.renumber σ)))
    (i : Fin n) : σ i ∈ (ofEdges order' directed key edges').dangling ↔
      i ∈ (ofEdges order directed key edges).dangling := by
  rw [mem_dangling_iff_weight, mem_dangling_iff_weight, ← σ.forall_congr_right]
  simp only [weight_renumber directed key h]

end Transition

namespace SymbolRank

/-- Both succeed with related values, or both fail for one reason, where of an invalid weight the
map counts. -/
inductive SameOutcome {β γ : Type} (R : β → γ → Prop) :
    Except (RankError K) β → Except (RankError K) γ → Prop
  | ok {b : β} {c : γ} (h : R b c) : SameOutcome R (.ok b) (.ok c)
  | invalidWeight (map : WeightMap) (uri uri' : String) (value value' : K) :
    SameOutcome R (.error (.invalidWeight map uri value)) (.error (.invalidWeight map uri' value'))
  | notConverged (iterations : Nat) :
    SameOutcome R (.error (.notConverged iterations)) (.error (.notConverged iterations))

section
variable {β γ β' γ' : Type} {R R' : β → γ → Prop} {S : β' → γ' → Prop} {x : Except (RankError K) β}
  {y : Except (RankError K) γ}

theorem SameOutcome.bind {f : β → Except (RankError K) β'} {g : γ → Except (RankError K) γ'}
    (h : SameOutcome R x y)
    (hfg : ∀ b c, R b c → SameOutcome S (f b) (g c)) : SameOutcome S (x >>= f) (y >>= g) := by
  cases h with
  | ok h => exact hfg _ _ h
  | invalidWeight map uri uri' value value' => exact .invalidWeight map uri uri' value value'
  | notConverged iterations => exact .notConverged iterations

theorem SameOutcome.mono (h : SameOutcome R x y) (hR : ∀ b c, x = .ok b → R b c → R' b c) :
    SameOutcome R' x y := by
  cases h with
  | ok h => exact .ok (hR _ _ rfl h)
  | invalidWeight map uri uri' value value' => exact .invalidWeight map uri uri' value value'
  | notConverged iterations => exact .notConverged iterations

end

/-- The same nodes, by uri, with the same scores in the same order. -/
structure SameRanking (a b : List (Symbol × K)) : Prop where
  perm : b.Perm a
  entries_eq : b.map entry = a.map entry

theorem SameRanking.eq {a b : List (Symbol × K)} (h : SameRanking a b)
    (huris : ∀ x ∈ a, ∀ y ∈ a, x.1.uri = y.1.uri → x.1 = y.1) : b = a := by
  refine List.ext_getElem h.perm.length_eq fun i hb ha => ?_
  have hentry : entry b[i] = entry a[i] := by
    have hget := congrArg (fun l => l[i]?) h.entries_eq
    simpa [ha, hb] using hget
  have hmem : b[i] ∈ a := h.perm.mem_iff.1 (List.getElem_mem hb)
  obtain ⟨huri, hscore⟩ := Prod.mk.inj hentry
  exact Prod.ext (huris _ hmem _ (List.getElem_mem ha) huri) hscore

theorem zip_eq (r : SymbolRank K) (scores : Vector K r.nodes.size) :
    r.nodes.toList.zip scores.toList =
      (List.finRange r.nodes.size).map fun i => (getElem r.nodes i i.isLt, scores.get i) := by
  rw [toList_eq_ofFn]
  refine List.ext_getElem (by simp) fun i _ _ => ?_
  simp

variable [Field K] [LinearOrder K]

/-- `σ` takes the nodes of one ranking to the nodes of the other, and its walk to the other one. -/
structure Renumbers (r r' : SymbolRank K) (σ : Fin r.nodes.size ≃ Fin r'.nodes.size) : Prop where
  nodes_eq : ∀ i, getElem r'.nodes (σ i) (σ i).isLt = getElem r.nodes i i.isLt
  config_eq : r'.config = r.config
  stochastic : r.transition.Stochastic
  stochastic' : r'.transition.Stochastic
  probability_eq : ∀ i j, r'.transition.probability (σ i) (σ j) = r.transition.probability i j
  dangling_iff : ∀ i, σ i ∈ r'.transition.dangling ↔ i ∈ r.transition.dangling

theorem ofGraph_renumbers [CurvedFunctions K] [IsStrictOrderedRing K] {g g' : RankGraph K}
    {σ : Fin g.nodes.size ≃ Fin g'.nodes.size} (h : g.Renumbers g' σ) (config : RankConfig K)
    (order order' : RowOrder K) :
    (ofGraph g config order).Renumbers (ofGraph g' config order') σ where
  nodes_eq := h.nodes_eq
  config_eq := rfl
  stochastic := Transition.ofEdges_stochastic _ _ _ _
  stochastic' := Transition.ofEdges_stochastic _ _ _ _
  probability_eq i j := by
    change (Transition.ofEdges order' g'.directed config.weightKey g'.edges).probability _ _ = _
    rw [h.directed_eq]
    exact Transition.probability_renumber _ _ h.edges_perm i j
  dangling_iff i := by
    change _ ∈ (Transition.ofEdges order' g'.directed config.weightKey g'.edges).dangling ↔ _
    rw [h.directed_eq]
    exact Transition.mem_dangling_renumber _ _ h.edges_perm i

namespace Renumbers
variable {r r' : SymbolRank K} {σ : Fin r.nodes.size ≃ Fin r'.nodes.size}

theorem mem_nodes_iff (h : r.Renumbers r' σ) {s : Symbol} :
    s ∈ r'.nodes.toList ↔ s ∈ r.nodes.toList := by
  rw [Array.mem_toList_iff, Array.mem_toList_iff, Array.mem_iff_getElem, Array.mem_iff_getElem]
  constructor
  · rintro ⟨j, hj, rfl⟩
    have hnode := h.nodes_eq (σ.symm ⟨j, hj⟩)
    simp only [σ.apply_symm_apply] at hnode
    exact ⟨σ.symm ⟨j, hj⟩, (σ.symm ⟨j, hj⟩).isLt, hnode.symm⟩
  · rintro ⟨i, hi, rfl⟩
    exact ⟨σ ⟨i, hi⟩, (σ ⟨i, hi⟩).isLt, h.nodes_eq ⟨i, hi⟩⟩

theorem flow_eq (h : r.Renumbers r' σ) {d : Vector K r.nodes.size} {d' : Vector K r'.nodes.size}
    (hd : Carried σ d d') (i j : Fin r.nodes.size) :
    r'.transition.flow d' (σ i) (σ j) = r.transition.flow d i j := by
  simp only [Transition.flow, h.probability_eq, h.dangling_iff, hd j]

/-! ### What a ranking starts from -/

variable [CurvedFunctions K]

theorem uniform_carried :
    Carried σ (uniform r.nodes.size : Vector K _) (uniform r'.nodes.size) := by
  intro i
  simp [uniform, Vector.get, Fin.equiv_iff_eq.1 ⟨σ⟩]

theorem normalized_same (h : r.Renumbers r' σ) (map : WeightMap) (weights : Option (Weights K)) :
    SameOutcome (Carried σ) (r.normalized map weights) (r'.normalized map weights) := by
  cases weights with
  | none => exact .ok uniform_carried
  | some weights =>
    have hdense : Carried σ (Vector.ofFn fun i : Fin r.nodes.size => weights.value r.nodes[i])
        (Vector.ofFn fun j : Fin r'.nodes.size => weights.value r'.nodes[j]) := by
      intro i
      rw [get_ofFn, get_ofFn, h.nodes_eq]
    have htotal := hdense.sum_eq
    simp only [← sum_toList] at htotal
    -- both graphs have a node whose weight is refused or none has, but the first such one may
    -- differ
    cases hfind : r.nodes.toList.find? fun s => !accepted (weights.value s) with
    | some s =>
      cases hfind' : r'.nodes.toList.find? fun s => !accepted (weights.value s) with
      | some s' =>
        simp only [normalized, hfind, hfind']
        exact .invalidWeight _ _ _ _ _
      | none =>
        have hs := h.mem_nodes_iff.2 (List.mem_of_find?_eq_some hfind)
        exact absurd (List.find?_some hfind) (List.find?_eq_none.1 hfind' s hs)
    | none =>
      have hfind' : (r'.nodes.toList.find? fun s => !accepted (weights.value s)) = none :=
        List.find?_eq_none.2 fun s hs => List.find?_eq_none.1 hfind s (h.mem_nodes_iff.1 hs)
      simp only [normalized, hfind, hfind', Scalar.sum_eq, htotal]
      refine .ok ?_
      split
      · exact uniform_carried
      · exact hdense.map _

structure StartCarried (σ : Fin r.nodes.size ≃ Fin r'.nodes.size) (s : Start K r.nodes.size)
    (s' : Start K r'.nodes.size) : Prop where
  similarity : Carried σ s.similarity s'.similarity
  dangling : Carried σ s.dangling s'.dangling
  initial : Carried σ s.initial s'.initial

theorem start_same (h : r.Renumbers r' σ) (w : RankWeights K) :
    SameOutcome (StartCarried σ) (r.start w) (r'.start w) := by
  refine (h.normalized_same .similarity w.similarity).bind
    fun similarity similarity' hsimilarity => ?_
  refine (h.normalized_same .initial w.initial).bind fun initial initial' hinitial => ?_
  have hdangling : SameOutcome (Carried σ)
      (w.dangling.elim (.ok similarity) fun map => r.normalized .dangling (some map))
      (w.dangling.elim (.ok similarity') fun map => r'.normalized .dangling (some map)) := by
    cases w.dangling with
    | none => exact .ok hsimilarity
    | some map => exact h.normalized_same .dangling (some map)
  exact hdangling.bind fun dangling dangling' hdangling => .ok ⟨hsimilarity, hdangling, hinitial⟩

/-! ### The rounds -/

theorem step_carried (h : r.Renumbers r' σ) {s : Start K r.nodes.size} {s' : Start K r'.nodes.size}
    (hs : StartCarried σ s s') {v : Vector K r.nodes.size} {v' : Vector K r'.nodes.size}
    (hv : Carried σ v v') :
    Carried σ (r.step s.toPersonalization v) (r'.step s'.toPersonalization v') := by
  intro i
  rw [get_step h.stochastic', get_step h.stochastic, h.config_eq, hs.similarity i,
    ← Equiv.sum_comp σ]
  simp only [hv _, h.flow_eq hs.dangling]

theorem distance_carried {v w : Vector K r.nodes.size} {v' w' : Vector K r'.nodes.size}
    (hv : Carried σ v v')
    (hw : Carried σ w w') : distance v' w' = distance v w := by
  rw [distance_eq, distance_eq, ← Equiv.sum_comp σ]
  simp only [hv _, hw _]

theorem iterate_carried (h : r.Renumbers r' σ) {s : Start K r.nodes.size}
    {s' : Start K r'.nodes.size} (hs : StartCarried σ s s') (threshold : K) (fuel : Nat)
    {v : Vector K r.nodes.size} {v' : Vector K r'.nodes.size} (hv : Carried σ v v') :
    Option.Rel (Carried σ) (iterate (r.step s.toPersonalization) threshold fuel v)
      (iterate (r'.step s'.toPersonalization) threshold fuel v') := by
  induction fuel generalizing v v' with
  | zero => exact .none
  | succ fuel ih =>
    have hnext := h.step_carried hs hv
    simp only [iterate, distance_carried hnext hv]
    split
    · exact .some hnext
    · exact ih hnext

/-! ### The ranking -/

theorem sorted_perm (h : r.Renumbers r' σ) {v : Vector K r.nodes.size} {v' : Vector K r'.nodes.size}
    (hv : Carried σ v v') : (r'.sorted v').Perm (r.sorted v) := by
  have hnumbers : (List.finRange r'.nodes.size).Perm ((List.finRange r.nodes.size).map σ) := by
    refine (List.perm_ext_iff_of_nodup (List.nodup_finRange _)
      ((List.nodup_finRange _).map σ.injective)).2 fun j => ?_
    simp only [List.mem_finRange, List.mem_map, true_and, true_iff]
    exact σ.surjective j
  have hzip : (r'.nodes.toList.zip v'.toList).Perm (r.nodes.toList.zip v.toList) := by
    rw [zip_eq, zip_eq]
    refine (hnumbers.map _).trans (.of_eq ?_)
    rw [List.map_map]
    refine List.map_congr_left fun i _ => ?_
    rw [Function.comp_apply, h.nodes_eq, hv i]
  exact ((List.mergeSort_perm _ _).trans hzip).trans (List.mergeSort_perm _ _).symm

end Renumbers

variable [CurvedFunctions K]

theorem Precedes.antisymm {a b : String × K} (hab : Precedes a b) (hba : Precedes b a) : a = b := by
  have hscore : a.2 = b.2 := le_antisymm (of_decide_eq_true hba.score) (of_decide_eq_true hab.score)
  exact Prod.ext (String.le_antisymm (hab.uri hba.score) (hba.uri hab.score)) hscore

section
variable {r r' : SymbolRank K} {σ : Fin r.nodes.size ≃ Fin r'.nodes.size}

theorem Renumbers.sorted_same (h : r.Renumbers r' σ) {v : Vector K r.nodes.size}
    {v' : Vector K r'.nodes.size}
    (hv : Carried σ v v') : SameRanking (r.sorted v) (r'.sorted v') :=
  ⟨h.sorted_perm hv, ((h.sorted_perm hv).map entry).eq_of_pairwise
    (fun _ _ _ _ => Precedes.antisymm)
    (pairwise_sorted r' v') (pairwise_sorted r v)⟩

theorem Renumbers.rankWith_same (h : r.Renumbers r' σ) (w : RankWeights K) :
    SameOutcome SameRanking (r.rankWith w) (r'.rankWith w) := by
  have hsize : r'.nodes.size = r.nodes.size := (Fin.equiv_iff_eq.1 ⟨σ⟩).symm
  by_cases hn : r.nodes.size = 0
  · simp only [rankWith, if_pos hn, if_pos (hsize.trans hn)]
    exact .ok ⟨.nil, rfl⟩
  · have hn' : r'.nodes.size ≠ 0 := hsize.trans_ne hn
    have hthreshold : r'.threshold = r.threshold := by rw [threshold, threshold, hsize, h.config_eq]
    have hstart := h.start_same w
    generalize hs : r.start w = s, hs' : r'.start w = s' at hstart
    cases hstart with
    | ok hcarried =>
      have hrounds := h.iterate_carried hcarried r.threshold r.config.maxIterations hcarried.initial
      rw [rankWith_of_start hn hs, rankWith_of_start hn' hs', hthreshold, h.config_eq]
      generalize iterate (r.step _) _ _ _ = scores, iterate (r'.step _) _ _ _ = scores' at hrounds
      cases hrounds with
      | none => exact .notConverged _
      | some hscores => exact .ok (h.sorted_same hscores)
    | invalidWeight map uri uri' value value' =>
      rw [rankWith_of_start_error hn hs, rankWith_of_start_error hn' hs']
      exact .invalidWeight map uri uri' value value'
    | notConverged iterations =>
      rw [rankWith_of_start_error hn hs, rankWith_of_start_error hn' hs']
      exact .notConverged iterations

end

variable [IsStrictOrderedRing K]

/-- A ranking does not tell how the nodes are numbered, nor in which order the edges come: the same
nodes have the same scores in the same order, or the ranking fails for the same reason. -/
theorem rankWith_renumbered {g g' : RankGraph K} (h : g.SameUpToNumbering g')
    (config : RankConfig K) (order order' : RowOrder K) (w : RankWeights K) :
    SameOutcome SameRanking ((ofGraph g config order).rankWith w)
      ((ofGraph g' config order').rankWith w) ∧
      ((∀ s ∈ g.nodes, ∀ t ∈ g.nodes, s.uri = t.uri → s = t) →
        SameOutcome Eq ((ofGraph g config order).rankWith w)
          ((ofGraph g' config order').rankWith w)) := by
  obtain ⟨σ, hσ⟩ := h
  have hsame := (ofGraph_renumbers hσ config order order').rankWith_same w
  refine ⟨hsame, fun huris => hsame.mono fun a b ha hab => (hab.eq fun x hx y hy => ?_).symm⟩
  obtain ⟨scores, rfl⟩ := exists_eq_sorted ha
  have hnode : ∀ x ∈ (ofGraph g config order).sorted scores, x.1 ∈ g.nodes := by
    intro x hx
    have hx := (symbols_sorted_perm _ _).mem_iff.1 (List.mem_map_of_mem hx)
    exact Array.mem_toList_iff.1 hx
  exact huris _ (hnode x hx) _ (hnode y hy)

def forkTurned : RankGraph ℚ where
  nodes := #[forkSymbol "b", forkSymbol "a", forkSymbol "a"]
  edges := [⟨1, 2, .unit⟩, ⟨0, 0, .number (-2)⟩, ⟨2, 0, .number (-1)⟩, ⟨2, 0, .number 3⟩]

theorem fork_sameUpToNumbering : fork.SameUpToNumbering forkTurned := by
  let turn : Fin 3 ≃ Fin 3 := Equiv.subRight 1
  have hedges : forkTurned.edges = (fork.edges.map (·.renumber turn)).reverse := rfl
  refine ⟨turn, fun i => ?_, ?_, rfl⟩
  · change Fin 3 at i
    fin_cases i <;> rfl
  · rw [hedges]
    exact List.reverse_perm _

theorem rankWith_renumbered_fork :
    ∃ ranking, (ofGraph fork .standard).rankWith forkWeights = .ok ranking ∧
      (ofGraph forkTurned .standard).rankWith forkWeights = .ok ranking := by
  obtain ⟨ranking, hranking⟩ := Option.isSome_iff_exists.1 isSome_rankWith_fork
  have hranking := toOption_eq_some_iff.1 hranking
  have hsame :=
    (rankWith_renumbered fork_sameUpToNumbering .standard .ascending .ascending forkWeights).2
      (by simp [fork, forkSymbol])
  rw [hranking] at hsame
  generalize hturned : (ofGraph forkTurned .standard).rankWith forkWeights = turned at hsame
  cases hsame with
  | ok h => exact ⟨ranking, hranking, by rw [h]⟩

end SymbolRank
end CodeAtlas
