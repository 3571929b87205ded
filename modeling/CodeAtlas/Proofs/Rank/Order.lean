import CodeAtlas.Proofs.Rank.Rounds
import CodeAtlas.Proofs.Scalar.Laws

/-! The order of a ranking. It is a total order on scores and uris, so that only one list of them
is sorted. -/

namespace CodeAtlas.SymbolRank

variable {α : Type} [Scalar α]

def entry (x : Symbol × α) : String × α := (x.1.uri, x.2)

/-- A higher score, or the same one and a uri that is not later. -/
structure Precedes (a b : String × α) : Prop where
  score : Scalar.totalLe b.2 a.2
  uri : Scalar.totalLe a.2 b.2 → a.1 ≤ b.1

theorem length_sorted (r : SymbolRank α) (scores : Vector α r.nodes.size) :
    (r.sorted scores).length = r.nodes.size := by
  simp [sorted]

theorem symbols_sorted_perm (r : SymbolRank α) (scores : Vector α r.nodes.size) :
    ((r.sorted scores).map (·.1)).Perm r.nodes.toList := by
  have hzip : (r.nodes.toList.zip scores.toList).map (·.1) = r.nodes.toList :=
    List.map_fst_zip (by simp)
  exact ((List.mergeSort_perm _ _).map _).trans (by rw [hzip])

theorem exists_eq_sorted {r : SymbolRank α} {w : RankWeights α} {ranking : List (Symbol × α)}
    (h : r.rankWith w = .ok ranking) : ∃ scores, ranking = r.sorted scores := by
  by_cases hn : r.nodes.size = 0
  · rw [rankWith, if_pos hn] at h
    cases h
    refine ⟨uniform _, ?_⟩
    exact (List.eq_nil_of_length_eq_zero ((length_sorted r _).trans hn)).symm
  · obtain ⟨s, hs⟩ := exists_start_eq_ok hn h
    obtain ⟨k, -, -, -, hranking⟩ := (rankWith_eq_ok_iff hn hs).1 h
    exact ⟨_, hranking⟩

variable [Scalar.Lawful α]

theorem rankingLe_iff {x y : Symbol × α} : rankingLe x y = true ↔ Precedes (entry x) (entry y) := by
  rw [rankingLe]
  split
  · rename_i hle
    rw [Bool.and_eq_true, Symbol.before, decide_eq_true_iff]
    exact ⟨fun h => ⟨h.1, fun _ => h.2⟩, fun h => ⟨h.score, h.uri hle⟩⟩
  · rename_i hle
    have htotal := Scalar.Lawful.totalLe_total y.2 x.2
    simp only [hle, Bool.or_false] at htotal
    exact iff_of_true rfl ⟨htotal, fun h => absurd h hle⟩

theorem Precedes.trans {a b c : String × α} (hab : Precedes a b) (hbc : Precedes b c) :
    Precedes a c := by
  refine ⟨Scalar.Lawful.totalLe_trans _ _ _ hbc.score hab.score, fun hac => ?_⟩
  have hab' := hab.uri (Scalar.Lawful.totalLe_trans _ _ _ hac hbc.score)
  have hbc' := hbc.uri (Scalar.Lawful.totalLe_trans _ _ _ hab.score hac)
  exact String.le_trans hab' hbc'

theorem Precedes.total (a b : String × α) : Precedes a b ∨ Precedes b a := by
  by_cases hab : Scalar.totalLe a.2 b.2
  · by_cases hba : Scalar.totalLe b.2 a.2
    · exact (String.le_total a.1 b.1).imp (fun h => ⟨hba, fun _ => h⟩) fun h => ⟨hab, fun _ => h⟩
    · exact .inr ⟨hab, fun h => absurd h hba⟩
  · have htotal := Scalar.Lawful.totalLe_total a.2 b.2
    rw [Bool.or_eq_true] at htotal
    exact .inl ⟨htotal.resolve_left hab, fun h => absurd h hab⟩

theorem pairwise_rankingLe_sorted (r : SymbolRank α) (scores : Vector α r.nodes.size) :
    (r.sorted scores).Pairwise fun x y => rankingLe x y = true := by
  refine List.pairwise_mergeSort (fun x y z hxy hyz => ?_) (fun x y => ?_) _
  · exact rankingLe_iff.2 ((rankingLe_iff.1 hxy).trans (rankingLe_iff.1 hyz))
  · rw [Bool.or_eq_true, rankingLe_iff, rankingLe_iff]
    exact Precedes.total _ _

theorem pairwise_sorted (r : SymbolRank α) (scores : Vector α r.nodes.size) :
    ((r.sorted scores).map entry).Pairwise Precedes :=
  List.pairwise_map.2 ((pairwise_rankingLe_sorted r scores).imp rankingLe_iff.1)

theorem pair_sublist_of_pairwise {β : Type} {R : β → β → Prop} {l : List β} {x y : β}
    (hl : l.Pairwise R) (hx : x ∈ l) (hy : y ∈ l) (hne : x ≠ y) (hyx : ¬R y x) :
    [x, y].Sublist l := by
  induction l with
  | nil => cases hx
  | cons z l ih =>
    obtain ⟨hz, hl⟩ := List.pairwise_cons.1 hl
    rcases List.mem_cons.1 hx with rfl | hxl
    · have hy : y ∈ l := (List.mem_cons.1 hy).resolve_left hne.symm
      exact (List.singleton_sublist.2 hy).cons_cons x
    · rcases List.mem_cons.1 hy with rfl | hyl
      · exact absurd (hz x hxl) hyx
      · exact (ih hl hxl hyl).cons z

theorem not_pair_sublist {β : Type} {l : List β} {x y : β} (hl : l.Nodup) (hxy : [x, y].Sublist l) :
    ¬[y, x].Sublist l := by
  induction l with
  | nil => cases hxy
  | cons z l ih =>
    obtain ⟨hz, hl⟩ := List.nodup_cons.1 hl
    intro hyx
    cases hxy with
    | cons _ hxy =>
      cases hyx with
      | cons _ hyx => exact ih hl hxy hyx
      | cons_cons _ hyx => exact hz (hxy.subset (by simp))
    | cons_cons _ hy =>
      cases hyx with
      | cons _ hyx => exact hz (hyx.subset (by simp))
      | cons_cons _ hyx => exact hz (hy.subset (by simp))

theorem pair_sublist_sorted {r : SymbolRank α} {scores : Vector α r.nodes.size}
    {i j : Fin r.nodes.size} {a b : Symbol} (ha : r.nodes[i.val]? = some a)
    (hb : r.nodes[j.val]? = some b) (hne : a ≠ b)
    (h : rankingLe (b, scores.get j) (a, scores.get i) = false) :
    [a, b].Sublist ((r.sorted scores).map (·.1)) := by
  have hmem : ∀ (k : Fin r.nodes.size) (s : Symbol), r.nodes[k.val]? = some s →
      (s, scores.get k) ∈ r.sorted scores := by
    intro k s hs
    obtain ⟨hk, rfl⟩ := Array.getElem?_eq_some_iff.1 hs
    rw [sorted, List.mem_mergeSort, List.mem_iff_getElem]
    exact ⟨k, by simp, by simp [Vector.get]⟩
  have hfirst : (a, scores.get i) ≠ (b, scores.get j) := fun heq => hne (congrArg (·.1) heq)
  have hpair : [(a, scores.get i), (b, scores.get j)].Sublist (r.sorted scores) :=
    pair_sublist_of_pairwise (pairwise_rankingLe_sorted r scores) (hmem i a ha) (hmem j b hb)
      hfirst (Bool.eq_false_iff.1 h)
  exact hpair.map (·.1)

end CodeAtlas.SymbolRank
