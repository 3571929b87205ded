import CodeAtlas.Text.Lines
import Mathlib.Data.List.Infix

/-! Lines and the text that they are cut from. A pattern that has no line end in it occurs in the
text after `k` line feeds just where it occurs in line `k`. -/

namespace CodeAtlas.Text

variable {pattern s line : List Char} {k : Nat}

theorem contains_iff : contains pattern s ↔ pattern <:+: s := by
  induction s with
  | nil => simp [contains]
  | cons c s ih =>
    rw [contains, Bool.or_eq_true, List.isPrefixOf_iff_prefix, ih, List.infix_cons_iff]

/-! ### Pieces -/

theorem pieces_cons_newline (s : List Char) : pieces ('\n' :: s) = [] :: pieces s := by
  rw [pieces, if_pos rfl]

theorem pieces_cons_of_ne {c : Char} (hc : c ≠ '\n') {first : List Char} {rest : List (List Char)}
    (h : pieces s = first :: rest) : pieces (c :: s) = (c :: first) :: rest := by
  rw [pieces, if_neg hc, h]

theorem exists_pieces_eq_cons (s : List Char) : ∃ first rest, pieces s = first :: rest := by
  induction s with
  | nil => exact ⟨[], [], rfl⟩
  | cons c s ih =>
    obtain ⟨first, rest, h⟩ := ih
    by_cases hc : c = '\n'
    · subst hc
      exact ⟨[], pieces s, pieces_cons_newline s⟩
    · exact ⟨c :: first, rest, pieces_cons_of_ne hc h⟩

theorem newline_notMem_pieces (s : List Char) : ∀ piece ∈ pieces s, '\n' ∉ piece := by
  induction s with
  | nil => simp [pieces]
  | cons c s ih =>
    by_cases hc : c = '\n'
    · subst hc
      rw [pieces_cons_newline]
      exact List.forall_mem_cons.2 ⟨List.not_mem_nil, ih⟩
    · obtain ⟨first, rest, hs⟩ := exists_pieces_eq_cons s
      rw [pieces_cons_of_ne hc hs]
      obtain ⟨hfirst, hrest⟩ := List.forall_mem_cons.1 (hs ▸ ih)
      exact List.forall_mem_cons.2 ⟨by simp [hfirst, Ne.symm hc], hrest⟩

theorem prefix_first_iff (hp : '\n' ∉ pattern) {first : List Char} {rest : List (List Char)}
    (h : pieces s = first :: rest) : pattern <+: first ↔ pattern <+: s := by
  induction s generalizing pattern first rest with
  | nil =>
    obtain ⟨rfl, -⟩ := List.cons.inj h
    rfl
  | cons c s ih =>
    cases pattern with
    | nil => simp
    | cons p pattern =>
      obtain ⟨hne, hp⟩ : '\n' ≠ p ∧ '\n' ∉ pattern := by simpa using hp
      by_cases hc : c = '\n'
      · subst hc
        rw [pieces_cons_newline] at h
        obtain ⟨rfl, -⟩ := List.cons.inj h
        simp [List.cons_prefix_cons, hne.symm]
      · obtain ⟨first', rest', hs⟩ := exists_pieces_eq_cons s
        rw [pieces_cons_of_ne hc hs] at h
        obtain ⟨rfl, -⟩ := List.cons.inj h
        rw [List.cons_prefix_cons, List.cons_prefix_cons, ih hp hs]

/-- The pattern starts after exactly `k` line feeds of the text. -/
def OccursAfter (pattern s : List Char) (k : Nat) : Prop :=
  ∃ before after, s = before ++ (pattern ++ after) ∧ before.count '\n' = k

theorem occursAfter_cons_iff {c : Char} : OccursAfter pattern (c :: s) k ↔
    k = 0 ∧ pattern <+: c :: s ∨ ∃ j, OccursAfter pattern s j ∧
      k = if c = '\n' then j + 1 else j := by
  have hcount (before : List Char) : (c :: before).count '\n' =
      if c = '\n' then before.count '\n' + 1 else before.count '\n' := by
    rw [List.count_cons]
    simp only [beq_iff_eq]
    split <;> rfl
  constructor
  · rintro ⟨before, after, heq, rfl⟩
    cases before with
    | nil => exact .inl ⟨rfl, after, heq.symm⟩
    | cons b before =>
      obtain ⟨rfl, rfl⟩ := List.cons.inj heq
      exact .inr ⟨_, ⟨before, after, rfl, rfl⟩, hcount before⟩
  · rintro (⟨rfl, after, heq⟩ | ⟨j, ⟨before, after, rfl, rfl⟩, rfl⟩)
    · exact ⟨[], after, heq.symm, rfl⟩
    · exact ⟨c :: before, after, rfl, hcount before⟩

theorem exists_piece_iff (hp : '\n' ∉ pattern) :
    (∃ piece, (pieces s)[k]? = some piece ∧ pattern <:+: piece) ↔ OccursAfter pattern s k := by
  induction s generalizing k with
  | nil => cases k <;> simp [pieces, OccursAfter]
  | cons c s ih =>
    by_cases hc : c = '\n'
    · -- the line feed is a piece of its own, and what follows it is one piece further on
      subst hc
      have hstart : pattern <+: '\n' :: s ↔ pattern = [] := by
        rw [← prefix_first_iff hp (pieces_cons_newline s), List.prefix_nil]
      rw [pieces_cons_newline, occursAfter_cons_iff, hstart]
      cases k with
      | zero => simp
      | succ k => simp [ih]
    · obtain ⟨first, rest, hs⟩ := exists_pieces_eq_cons s
      have hstart : pattern <+: c :: first ↔
          pattern <+: c :: s := prefix_first_iff hp (pieces_cons_of_ne hc hs)
      rw [hs] at ih
      rw [pieces_cons_of_ne hc hs, occursAfter_cons_iff, ← hstart]
      cases k with
      | zero => simp [hc, ← ih, List.infix_cons_iff]
      | succ k => simp [hc, ← ih]

/-! ### Lines -/

theorem lines_eq {ended : List (List Char)} {last : List Char} (h : pieces s = ended ++ [last]) :
    lines s = ended.map dropReturn ++ if last = [] then [] else [last] := by
  rw [lines, h, List.dropLast_concat, List.getLast?_concat]
  cases last with
  | nil => simp
  | cons c last => simp

theorem exists_pieces_eq_concat (s : List Char) : ∃ ended last, pieces s = ended ++ [last] := by
  obtain ⟨first, rest, h⟩ := exists_pieces_eq_cons s
  have hne : pieces s ≠ [] := by simp [h]
  exact ⟨_, _, (List.dropLast_append_getLast hne).symm⟩

theorem infix_dropReturn_iff (hp : '\r' ∉ pattern) :
    pattern <:+: dropReturn line ↔ pattern <:+: line := by
  rw [dropReturn]
  split
  · rename_i hlast
    obtain ⟨start, rfl⟩ := List.getLast?_eq_some_iff.1 hlast
    have hend : pattern <:+ start ++ ['\r'] ↔ pattern = [] := by
      rw [List.suffix_concat_iff]
      refine or_iff_left ?_
      rintro ⟨front, rfl, -⟩
      simp at hp
    rw [List.dropLast_concat, List.infix_concat_iff, hend, or_iff_right_of_imp]
    rintro rfl
    exact List.nil_infix
  · rfl

theorem newline_notMem_lines (s : List Char) : ∀ line ∈ lines s, '\n' ∉ line := by
  obtain ⟨ended, last, h⟩ := exists_pieces_eq_concat s
  have hpieces : ∀ piece ∈ ended ++ [last], '\n' ∉ piece := h ▸ newline_notMem_pieces s
  rw [lines_eq h]
  intro line hline
  rcases List.mem_append.1 hline with hline | hline
  · obtain ⟨piece, hpiece, rfl⟩ := List.mem_map.1 hline
    have hsub : (dropReturn piece).Sublist piece := by
      rw [dropReturn]
      split
      · exact List.dropLast_sublist piece
      · exact List.Sublist.refl piece
    exact fun hmem => hpieces piece (List.mem_append_left _ hpiece) (hsub.subset hmem)
  · split at hline
    · cases hline
    · exact hpieces line (List.mem_append_right _ hline)

theorem exists_line_iff (hne : pattern ≠ []) (hreturn : '\r' ∉ pattern) (hp : '\n' ∉ pattern) :
    (∃ line, (lines s)[k]? = some line ∧ pattern <:+: line) ↔ OccursAfter pattern s k := by
  obtain ⟨ended, last, h⟩ := exists_pieces_eq_concat s
  rw [← exists_piece_iff hp, lines_eq h, h]
  by_cases hk : k < ended.length
  · have hline : (ended.map dropReturn)[k]? = some (dropReturn ended[k]) := by simp [hk]
    rw [List.getElem?_append_left (by simpa using hk), List.getElem?_append_left hk, hline,
      List.getElem?_eq_getElem hk]
    simp [infix_dropReturn_iff hreturn]
  · -- the last piece is no line if it is empty, but then the pattern is not in it
    rw [List.getElem?_append_right (by simpa using hk),
      List.getElem?_append_right (by simpa using hk)]
    rw [List.length_map]
    split
    · rename_i hlast
      subst hlast
      simp [List.getElem?_singleton, hne]
    · rfl

end CodeAtlas.Text
