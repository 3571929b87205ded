import CodeAtlas.Embedding.Similarity
import CodeAtlas.Outcome
import CodeAtlas.Proofs.Ordered
import CodeAtlas.Proofs.Scalar.Laws

/-! The scores of embeddings: whose they are, and what is left of them where they are all
the same. -/

namespace CodeAtlas

theorem Ordered.keys_insert_subset {κ ν : Type} [BEq κ] (key : κ) (value : ν) (m : List (κ × ν)) :
    (insert key value m).map (·.1) ⊆ key :: m.map (·.1) := by
  rw [insert_eq_alter, keys_alter]
  split
  · exact List.subset_cons_self _ _
  · exact List.append_subset.2 ⟨List.subset_cons_self _ _, by simp⟩

theorem keys_zip_subset {κ ν : Type} (keys : List κ) (values : List ν) :
    (keys.zip values).map (·.1) ⊆ keys := by
  intro k hk
  obtain ⟨e, he, rfl⟩ := List.mem_map.1 hk
  exact (List.of_mem_zip he).1

namespace Similarity

variable {α κ : Type} [Scalar α] {norm : Norm} {widen : κ → α} {query : List κ}
  {es : List (Embedding κ)}

theorem symbols_rawScores_subset {known found : List (Symbol × α)}
    (h : rawScores norm widen query known es = .ok found) :
    found.map (·.1) ⊆ known.map (·.1) ++ es.map (·.symbol) := by
  induction es generalizing known with
  | nil =>
    cases h
    simp
  | cons e es ih =>
    rw [rawScores] at h
    split at h
    · cases h
    · refine List.Subset.trans (ih h) (List.append_subset.2 ⟨?_, ?_⟩)
      · refine List.Subset.trans (Ordered.keys_insert_subset _ _ _)
          (List.cons_subset.2 ⟨by simp, ?_⟩)
        exact List.subset_append_left _ _
      · exact List.Subset.trans (List.subset_cons_self _ _) (List.subset_append_right _ _)

theorem symbols_scores_subset {found : List (Symbol × α)}
    (h : scores norm widen query es = .ok found) :
    found.map (·.1) ⊆ es.map (·.symbol) := by
  obtain ⟨raw, hraw, h⟩ := bind_eq_ok_iff.1 h
  have hsymbols : raw.map (·.1) ⊆ es.map (·.symbol) := symbols_rawScores_subset hraw
  split at h
  · cases h
    exact List.Subset.trans (keys_zip_subset _ _) hsymbols
  · cases h
    exact hsymbols

variable [Scalar.Exact α]

theorem shiftedZScore_replicate (n : Nat) (x power : α) :
    shiftedZScore (List.replicate n x) power = List.replicate n 0 := by
  by_cases hn : n = 0
  · subst hn
    rw [shiftedZScore]
    split <;> rfl
  · have hvariance : Scalar.sum (List.replicate n (0 : α)) / Scalar.ofNat n = 0 :=
      Scalar.Exact.mean_replicate n 0 hn
    have hzero : Scalar.isZero (0 : α) = true := by
      rw [Scalar.isZero, Scalar.Lawful.le_zero_zero]
      rfl
    simp only [shiftedZScore, List.length_replicate, Scalar.Exact.mean_replicate n x hn,
      List.map_replicate, Scalar.Exact.sub_self, Scalar.Exact.zero_mul_zero, hvariance,
      Scalar.Exact.sqrt_zero, hzero, Bool.true_or, if_true]

end Similarity
end CodeAtlas
