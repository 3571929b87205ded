import CodeAtlas.Proofs.Ordered
import CodeAtlas.Source.Block

/-! Blocks of lines. The block that a line opens ends with the last line that is reached over lines
indented deeper, so that of two blocks either the first one ends before the other begins, or it
holds the other. -/

namespace CodeAtlas.Source

variable {lines : List (List Char)}

def HasText (lines : List (List Char)) (k : Nat) : Prop :=
  ∃ line, lines[k]? = some line ∧ Text.allBlank line = false

structure Reaches (lines : List (List Char)) (base start e : Nat) : Prop where
  le : start ≤ e
  ends : e = start ∨ HasText lines e
  deeper : ∀ k line, start < k → k ≤ e → lines[k]? = some line → Text.allBlank line = false →
    base < indentWidth line

/-- The block of line `start`: its indentation, and the last line that it reaches. -/
structure IsBlock (lines : List (List Char)) (start base last : Nat) : Prop where
  base_eq : lines[start]?.map indentWidth = some base
  reaches : Reaches lines base start last
  largest : ∀ e, Reaches lines base start e → e ≤ last

/-! ### The scan -/

structure EndsAt (base last : Nat) (rest : List (List Char × Nat)) (e : Nat) : Prop where
  ends : e = last ∨ ∃ x ∈ rest, x.2 = e ∧ Text.allBlank x.1 = false
  deeper : ∀ x ∈ rest, x.2 ≤ e → Text.allBlank x.1 = false → base < indentWidth x.1
  largest : ∀ x ∈ rest, Text.allBlank x.1 = false →
    (∀ y ∈ rest, y.2 ≤ x.2 → Text.allBlank y.1 = false → base < indentWidth y.1) → x.2 ≤ e

theorem EndsAt.le {base last e : Nat} {rest : List (List Char × Nat)} (h : EndsAt base last rest e)
    (hrest : ∀ x ∈ rest, last < x.2) : last ≤ e := by
  rcases h.ends with rfl | ⟨x, hx, rfl, -⟩
  · exact Nat.le_refl _
  · exact Nat.le_of_lt (hrest x hx)

section
variable {base last number e : Nat} {line : List Char} {rest : List (List Char × Nat)}

theorem EndsAt.cons_blank (h : EndsAt base last rest e) (hblank : Text.allBlank line = true) :
    EndsAt base last ((line, number) :: rest) e := by
  have hnot : ¬Text.allBlank line = false := by simp [hblank]
  refine ⟨?_, ?_, ?_⟩
  · rcases h.ends with hlast | ⟨x, hx, hxe⟩
    · exact .inl hlast
    · exact .inr ⟨x, List.mem_cons_of_mem _ hx, hxe⟩
  · exact List.forall_mem_cons.2 ⟨fun _ htext => absurd htext hnot, h.deeper⟩
  · refine List.forall_mem_cons.2 ⟨fun htext => absurd htext hnot, fun x hx htext hdeeper => ?_⟩
    exact h.largest x hx htext fun y hy => hdeeper y (List.mem_cons_of_mem _ hy)

theorem endsAt_cons_shallow (hlast : ∀ x ∈ (line, number) :: rest, last < x.2)
    (hnumber : ∀ x ∈ rest, number < x.2) (htext : Text.allBlank line = false)
    (hshallow : indentWidth line ≤ base) :
    EndsAt base last ((line, number) :: rest) last := by
  refine ⟨.inl rfl, ?_, ?_⟩
  · intro x hx hle
    exact absurd (hlast x hx) (Nat.not_lt.2 hle)
  · intro x hx _ hdeeper
    have hle : number ≤ x.2 := by
      rcases List.mem_cons.1 hx with rfl | hx
      · exact Nat.le_refl _
      · exact Nat.le_of_lt (hnumber x hx)
    have hdeep := hdeeper (line, number) List.mem_cons_self hle htext
    exact absurd hdeep (Nat.not_lt.2 hshallow)

theorem EndsAt.cons_deep (h : EndsAt base number rest e) (hnumber : ∀ x ∈ rest, number < x.2)
    (htext : Text.allBlank line = false) (hdeep : base < indentWidth line) :
    EndsAt base last ((line, number) :: rest) e := by
  refine ⟨.inr ?_, ?_, ?_⟩
  · rcases h.ends with hnow | ⟨x, hx, hxe⟩
    · exact ⟨(line, number), List.mem_cons_self, hnow.symm, htext⟩
    · exact ⟨x, List.mem_cons_of_mem _ hx, hxe⟩
  · exact List.forall_mem_cons.2 ⟨fun _ _ => hdeep, h.deeper⟩
  · refine List.forall_mem_cons.2 ⟨fun _ _ => h.le hnumber, fun x hx hx' hdeeper => ?_⟩
    exact h.largest x hx hx' fun y hy => hdeeper y (List.mem_cons_of_mem _ hy)

end

theorem endsAt_blockEnd (base last : Nat) {rest : List (List Char × Nat)}
    (hlast : ∀ x ∈ rest, last < x.2) (hrest : rest.Pairwise fun x y => x.2 < y.2) :
    EndsAt base last rest (blockEnd base last rest) := by
  -- A deeper line becomes the last one, and all that follow it have larger numbers.
  induction rest generalizing last with
  | nil => exact ⟨.inl rfl, by simp, by simp⟩
  | cons x rest ih =>
    obtain ⟨line, number⟩ := x
    obtain ⟨hnumber, hrest⟩ := List.pairwise_cons.1 hrest
    have hafter : ∀ y ∈ rest, last < y.2 := fun y hy => hlast y (List.mem_cons_of_mem _ hy)
    cases hblank : Text.allBlank line with
    | true =>
      rw [blockEnd, if_pos hblank]
      exact (ih last hafter hrest).cons_blank hblank
    | false =>
      rw [blockEnd, if_neg (by simp [hblank])]
      split
      · exact endsAt_cons_shallow hlast hnumber hblank ‹_›
      · exact (ih number hnumber hrest).cons_deep hnumber hblank (Nat.not_le.1 ‹_›)

/-! ### Blocks -/

theorem mem_drop_zipIdx_iff {start : Nat} {x : List Char × Nat} :
    x ∈ lines.zipIdx.drop (start + 1) ↔ start < x.2 ∧ lines[x.2]? = some x.1 := by
  rw [List.mem_iff_getElem?]
  simp only [List.getElem?_drop, List.getElem?_zipIdx, Option.map_eq_some_iff]
  constructor
  · rintro ⟨i, line, hline, rfl⟩
    exact ⟨by simp only; omega, by simpa using hline⟩
  · rintro ⟨hlt, hline⟩
    refine ⟨x.2 - (start + 1), x.1, ?_, ?_⟩
    · rw [← hline]
      congr 1
      omega
    · exact Prod.ext rfl (by simp only; omega)

theorem pairwise_drop_zipIdx (start : Nat) :
    (lines.zipIdx.drop (start + 1)).Pairwise fun x y => x.2 < y.2 :=
  (pairwise_zipIdx lines).sublist (List.drop_sublist _ _)

theorem indentationBlock_eq_none_iff {start : Nat} :
    indentationBlock lines start = none ↔ lines.length ≤ start := by
  rw [indentationBlock, Option.map_eq_none_iff, List.getElem?_eq_none_iff]

theorem isBlock_of_getElem? {start : Nat} {opening : List Char} (h : lines[start]? = some opening) :
    IsBlock lines start (indentWidth opening)
      (blockEnd (indentWidth opening) start (lines.zipIdx.drop (start + 1))) := by
  have hends : EndsAt (indentWidth opening) start (lines.zipIdx.drop (start + 1)) _ :=
    endsAt_blockEnd _ start (fun x hx => (mem_drop_zipIdx_iff.1 hx).1) (pairwise_drop_zipIdx start)
  refine ⟨by rw [h, Option.map_some], ⟨?_, ?_, ?_⟩, ?_⟩
  · exact hends.le fun x hx => (mem_drop_zipIdx_iff.1 hx).1
  · refine hends.ends.imp_right ?_
    rintro ⟨x, hx, hxe, htext⟩
    rw [← hxe]
    exact ⟨x.1, (mem_drop_zipIdx_iff.1 hx).2, htext⟩
  · intro k line hlt hle hline
    exact hends.deeper (line, k) (mem_drop_zipIdx_iff.2 ⟨hlt, hline⟩) hle
  · intro e he
    rcases he.ends with rfl | ⟨line, hline, htext⟩
    · exact hends.le fun x hx => (mem_drop_zipIdx_iff.1 hx).1
    · rcases Nat.eq_or_lt_of_le he.le with rfl | hlt
      · exact hends.le fun x hx => (mem_drop_zipIdx_iff.1 hx).1
      · apply hends.largest (line, e) (mem_drop_zipIdx_iff.2 ⟨hlt, hline⟩) htext
        intro y hy hle
        obtain ⟨hafter, hy⟩ := mem_drop_zipIdx_iff.1 hy
        exact he.deeper y.2 y.1 hafter hle hy

theorem IsBlock.unique {start base base' last last' : Nat} (h : IsBlock lines start base last)
    (h' : IsBlock lines start base' last') : base = base' ∧ last = last' := by
  obtain rfl : base = base' := Option.some.inj (h.base_eq.symm.trans h'.base_eq)
  exact ⟨rfl, Nat.le_antisymm (h'.largest _ h.reaches) (h.largest _ h'.reaches)⟩

theorem IsBlock.indentationBlock_eq {start base last : Nat} (h : IsBlock lines start base last) :
    indentationBlock lines start = some (narrow base, narrow last) := by
  obtain ⟨opening, hopening, -⟩ := Option.map_eq_some_iff.1 h.base_eq
  obtain ⟨rfl, rfl⟩ := (isBlock_of_getElem? hopening).unique h
  rw [indentationBlock, hopening, Option.map_some]

end CodeAtlas.Source
