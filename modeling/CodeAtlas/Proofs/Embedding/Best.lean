import CodeAtlas.Embedding.Similarity
import CodeAtlas.Proofs.Repetitions
import CodeAtlas.Proofs.Scalar.Laws

/-! Scores and the best of them. Every symbol has one score, of its last embedding, unless some
vector does not fit the query; the best scores come first, and equal ones in the order in which they
are stored. -/

namespace CodeAtlas.Similarity

variable {α κ : Type} [Scalar α] {norm : Norm} {widen : κ → α} {query : List κ}
  {es : List (Embedding κ)}

/-! ### Scores -/

def rawOf (norm : Norm) (widen : κ → α) (query : List κ) (e : Embedding κ) : α :=
  raw norm (e.vector.map widen) (query.map widen)

def settled : Norm → List α → List α
  | .softmax, values => softmax values
  | _, values => values

/-- The first embedding whose vector has another length than the query. -/
def FirstMisfit (query : List κ) (es : List (Embedding κ)) (e : Embedding κ) : Prop :=
  ∃ before after, es = before ++ e :: after ∧ e.vector.length ≠ query.length ∧
    ∀ x ∈ before, x.vector.length = query.length

/-- One score for each symbol, in the order in which the symbols first come up, of its last
embedding. -/
structure ScoresLast (norm : Norm) (widen : κ → α) (query : List κ) (es : List (Embedding κ))
    (found : List (Symbol × α)) : Prop where
  symbols : found.map (·.1) = (es.map (·.symbol)).eraseDups
  values : ∃ counted, Ordered.KeepsLast (es.map fun e => (e.symbol, e)) counted ∧
    found.map (·.2) = settled norm (counted.map fun x => rawOf norm widen query x.2)

theorem length_settled (norm : Norm) (values : List α) :
    (settled norm values).length = values.length := by
  cases norm
  · rfl
  · rfl
  · exact List.length_map _

theorem firstMisfit_iff {e : Embedding κ} : FirstMisfit query es e ↔
    (es.find? fun e => decide (e.vector.length ≠ query.length)) = some e := by
  rw [List.find?_eq_some_iff_append, FirstMisfit]
  constructor
  · rintro ⟨before, after, hsplit, he, hbefore⟩
    exact ⟨decide_eq_true he, before, after, hsplit, by simpa using hbefore⟩
  · rintro ⟨he, before, after, hsplit, hbefore⟩
    exact ⟨before, after, hsplit, of_decide_eq_true he, by simpa using hbefore⟩

theorem rawScores_of_fits (h : ∀ e ∈ es, e.vector.length = query.length)
    (known : List (Symbol × α)) :
    rawScores norm widen query known es =
      .ok ((es.map fun e => (e.symbol, rawOf norm widen query e)).foldl
        (fun m x => Ordered.insert x.1 x.2 m) known) := by
  induction es generalizing known with
  | nil => rfl
  | cons e es ih =>
    obtain ⟨he, hes⟩ := List.forall_mem_cons.1 h
    rw [rawScores, if_neg (not_not.2 he), ih hes]
    rfl

theorem rawScores_of_firstMisfit {e : Embedding κ} (h : FirstMisfit query es e)
    (known : List (Symbol × α)) :
    rawScores norm widen query known es =
      .error (.dimensionMismatch query.length e.vector.length) := by
  obtain ⟨before, after, rfl, he, hbefore⟩ := h
  induction before generalizing known with
  | nil => rw [List.nil_append, rawScores, if_pos he]
  | cons x before ih =>
    obtain ⟨hx, hbefore⟩ := List.forall_mem_cons.1 hbefore
    rw [List.cons_append, rawScores, if_neg (not_not.2 hx)]
    exact ih _ hbefore

theorem scores_of_firstMisfit {e : Embedding κ} (h : FirstMisfit query es e) :
    scores norm widen query es = .error (.dimensionMismatch query.length e.vector.length) := by
  rw [scores, rawScores_of_firstMisfit h]
  rfl

theorem fits_or_exists_firstMisfit (query : List κ) (es : List (Embedding κ)) :
    (∀ e ∈ es, e.vector.length = query.length) ∨ ∃ e, FirstMisfit query es e := by
  simp only [firstMisfit_iff]
  cases hfound : es.find? fun e => decide (e.vector.length ≠ query.length) with
  | none => exact .inl (by simpa using hfound)
  | some e => exact .inr ⟨e, rfl⟩

theorem scores_of_rawScores {counted : List (Symbol × Embedding κ)}
    (h : rawScores norm widen query [] es =
      .ok (counted.map fun x => (x.1, rawOf norm widen query x.2))) :
    scores norm widen query es =
      .ok ((counted.map (·.1)).zip
        (settled norm (counted.map fun x => rawOf norm widen query x.2))) := by
  have hunsettled : (counted.map fun x => (x.1, rawOf norm widen query x.2)) =
      (counted.map (·.1)).zip (counted.map fun x => rawOf norm widen query x.2) :=
        (List.zip_map' ..).symm
  rw [scores, h]
  cases norm with
  | l1 => exact congrArg Except.ok hunsettled
  | l2 => exact congrArg Except.ok hunsettled
  | softmax =>
    apply congrArg Except.ok
    rw [List.map_map, List.map_map]
    rfl

theorem exists_scores_eq_ok (h : ∀ e ∈ es, e.vector.length = query.length) :
    ∃ found, scores norm widen query es = .ok found ∧ ScoresLast norm widen query es found := by
  have hlast := Ordered.keepsLast_ofPairs (es.map fun e => (e.symbol, e))
  have hraw : rawScores norm widen query [] es =
      .ok ((Ordered.ofPairs (es.map fun e => (e.symbol, e))).map fun x =>
        (x.1, rawOf norm widen query x.2)) := by
    rw [rawScores_of_fits h, ← Ordered.ofPairs_map, List.map_map]
    rfl
  generalize Ordered.ofPairs (es.map fun e => (e.symbol, e)) = counted at hlast hraw
  have hsymbols : counted.map (·.1) = (es.map (·.symbol)).eraseDups := by
    rw [hlast.keys, List.map_map]
    rfl
  refine ⟨_, scores_of_rawScores hraw, ?_, counted, hlast, ?_⟩
  · rw [List.map_fst_zip (by simp [length_settled]), hsymbols]
  · rw [List.map_snd_zip (by simp [length_settled])]

/-! ### The best scores -/

def Ahead (x y : (Symbol × α) × Nat) : Prop :=
  Scalar.totalLe y.1.2 x.1.2 ∧ (Scalar.totalLe x.1.2 y.1.2 → x.2 < y.2)

/-- As many of the scores as asked for, if there are so many, all of them ahead of those that are
left out. -/
structure TakesBest (k : Nat) (scores best : List (Symbol × α)) : Prop where
  length_eq : best.length = min k scores.length
  isPrefix : ∀ k', k ≤ k' → best <+: top k' scores
  ranked : ∃ ranks ⊆ scores.zipIdx, best = ranks.map (·.1) ∧ ranks.Pairwise Ahead ∧
    ∀ x ∈ ranks, ∀ y ∈ scores.zipIdx, y ∉ ranks → Ahead x y

theorem ahead_of_zipIdxLE {x y : (Symbol × α) × Nat}
    (h : List.zipIdxLE (fun a b : Symbol × α => Scalar.totalLe b.2 a.2) x y) (hne : x.2 ≠ y.2) :
    Ahead x y := by
  rw [List.zipIdxLE] at h
  split at h
  · rename_i hle
    refine ⟨hle, fun htie => ?_⟩
    rw [if_pos htie, decide_eq_true_iff] at h
    exact lt_of_le_of_ne h hne
  · cases h

theorem exists_ranks [Scalar.Lawful α] (scores : List (Symbol × α)) :
    ∃ ranks : List ((Symbol × α) × Nat), ranks.Perm scores.zipIdx ∧ ranks.Pairwise Ahead ∧
      ∀ k, top k scores = (ranks.take k).map (·.1) := by
  have htrans (a b c : Symbol × α) (hab : Scalar.totalLe b.2 a.2) (hbc : Scalar.totalLe c.2 b.2) :
      Scalar.totalLe c.2 a.2 := Scalar.Lawful.totalLe_trans _ _ _ hbc hab
  have htotal (a b : Symbol × α) : Scalar.totalLe b.2 a.2 || Scalar.totalLe a.2 b.2 :=
    Scalar.Lawful.totalLe_total _ _
  have hperm := List.mergeSort_perm scores.zipIdx (List.zipIdxLE fun a b => Scalar.totalLe b.2 a.2)
  have hsorted :=
    List.pairwise_mergeSort (List.zipIdxLE_trans htrans) (List.zipIdxLE_total htotal) scores.zipIdx
  have hnumbers : (scores.zipIdx.mergeSort (List.zipIdxLE fun a b =>
      Scalar.totalLe b.2 a.2)).Pairwise
      fun x y => x.2 ≠ y.2 :=
    hperm.symm.pairwise ((pairwise_zipIdx scores).imp Nat.ne_of_lt) fun h => h.symm
  refine ⟨_, hperm, hsorted.imp₂ (fun _ _ => ahead_of_zipIdxLE) hnumbers, fun k => ?_⟩
  rw [top, List.map_take, List.mergeSort_zipIdx]

theorem top_takesBest [Scalar.Lawful α] (k : Nat) (scores : List (Symbol × α)) :
    TakesBest k scores (top k scores) := by
  obtain ⟨ranks, hperm, hahead, htop⟩ := exists_ranks scores
  refine ⟨by simp [top], fun k' hk => ?_, ranks.take k, ?_, htop k, hahead.take,
    fun x hx y hy hout => ?_⟩
  · rw [htop, htop]
    exact (List.take_prefix_take_left hk).map _
  · exact List.Subset.trans (List.take_subset k ranks) hperm.subset
  · have hsplit : (ranks.take k ++ ranks.drop k).Pairwise Ahead := by rwa [List.take_append_drop]
    have hy : y ∈ ranks.take k ++ ranks.drop k := by
      rw [List.take_append_drop]
      exact hperm.mem_iff.2 hy
    have hbehind : y ∈ ranks.drop k := (List.mem_append.1 hy).resolve_left hout
    exact (List.pairwise_append.1 hsplit).2.2 x hx y hbehind

/-- Scoring fails just at the first vector that does not fit the query. Otherwise every symbol
has the score of its last embedding. Of any scores the best ones come first, with equal ones in
their order. -/
theorem scores_last_top_best [Scalar.Lawful α] (norm : Norm) (widen : κ → α) (query : List κ)
    (es : List (Embedding κ)) :
    (∀ err, scores norm widen query es = .error err ↔
        ∃ e, FirstMisfit query es e ∧ err = .dimensionMismatch query.length e.vector.length) ∧
      ((∀ e ∈ es, e.vector.length = query.length) →
        ∃ found, scores norm widen query es = .ok found ∧ ScoresLast norm widen query es found) ∧
      ∀ k (found : List (Symbol × α)), TakesBest k found (top k found) := by
  refine ⟨fun err => ⟨fun h => ?_, ?_⟩, exists_scores_eq_ok, top_takesBest⟩
  · rcases fits_or_exists_firstMisfit query es with hfits | ⟨e, he⟩
    · have hscored : ∃ found, scores norm widen query es = .ok found ∧
          ScoresLast norm widen query es found :=
        exists_scores_eq_ok hfits
      obtain ⟨found, hfound, -⟩ := hscored
      rw [hfound] at h
      cases h
    · rw [scores_of_firstMisfit he] at h
      exact ⟨e, he, (Except.error.inj h).symm⟩
  · rintro ⟨e, he, rfl⟩
    exact scores_of_firstMisfit he

def embeddingOf {κ : Type} (name : String) (vector : List κ) : Embedding κ :=
  ⟨⟨"local " ++ name, ⟨"local", {}, [⟨name, .localId, none⟩]⟩⟩, name, vector, .code⟩

def repeatedEmbeddings : List (Embedding Float) :=
  [embeddingOf "a" [2], embeddingOf "b" [3], embeddingOf "a" [-4]]

def repeatedScores : List (Symbol × Float) :=
  [((embeddingOf "a" [(2 : Float)]).symbol, -1), ((embeddingOf "b" [(3 : Float)]).symbol, 1)]

set_option maxRecDepth 4096 in
theorem scores_last_top_best_repeated :
    (∀ e ∈ repeatedEmbeddings, e.vector.length = 1) ∧
      scores .l1 id [2] repeatedEmbeddings = .ok repeatedScores ∧
      ScoresLast .l1 id [2] repeatedEmbeddings repeatedScores ∧
      TakesBest 1 repeatedScores (top 1 repeatedScores) := by
  obtain ⟨-, hscored, hbest⟩ := scores_last_top_best .l1 id [2] repeatedEmbeddings
  have hfits : ∀ e ∈ repeatedEmbeddings, e.vector.length = 1 := by decide
  have hscores : scores .l1 id [2] repeatedEmbeddings = .ok repeatedScores := by rfl
  obtain ⟨found, hfound, hlast⟩ := hscored hfits
  obtain rfl := Except.ok.inj (hscores.symm.trans hfound)
  exact ⟨hfits, hscores, hlast, hbest 1 repeatedScores⟩

end CodeAtlas.Similarity
