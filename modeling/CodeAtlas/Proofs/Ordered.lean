import CodeAtlas.Ordered
import Mathlib.Data.List.Induction
import Mathlib.Data.List.Nodup
import Mathlib.Data.List.Pairwise

/-! What lists of pairs answer, told without the order in which the pairs came. -/

namespace CodeAtlas

section
variable {α β : Type} {f : α → Option β} {l l' : List α}

theorem findSome?_eq_some_iff_exists
    (hunique : ∀ a ∈ l, ∀ b ∈ l, (f a).isSome → (f b).isSome → a = b) {b : β} :
    l.findSome? f = some b ↔ ∃ a ∈ l, f a = some b := by
  constructor
  · exact List.exists_of_findSome?_eq_some
  · rintro ⟨a, ha, hab⟩
    cases hfound : l.findSome? f with
    | none =>
      rw [List.findSome?_eq_none_iff.1 hfound a ha] at hab
      cases hab
    | some c =>
      obtain ⟨a', ha', hc⟩ := List.exists_of_findSome?_eq_some hfound
      obtain rfl := hunique a ha a' ha' (by simp [hab]) (by simp [hc])
      rw [← hc, hab]

theorem findSome?_perm (h : l'.Perm l)
    (hunique : ∀ a ∈ l, ∀ b ∈ l, (f a).isSome → (f b).isSome → a = b) :
    l'.findSome? f = l.findSome? f := by
  refine Option.ext fun b => ?_
  rw [findSome?_eq_some_iff_exists hunique, findSome?_eq_some_iff_exists fun a ha b hb =>
    hunique a (h.mem_iff.1 ha) b (h.mem_iff.1 hb)]
  simp only [h.mem_iff]

theorem find?_key_eq_some_iff {key : α → β} [DecidableEq β] (h : (l.map key).Nodup)
    {k : β} {a : α} :
    l.find? (key · = k) = some a ↔ a ∈ l ∧ key a = k := by
  constructor
  · intro hfound
    exact ⟨List.mem_of_find?_eq_some hfound, by simpa using List.find?_some hfound⟩
  · rintro ⟨ha, hk⟩
    cases hfound : l.find? (key · = k) with
    | none => exact absurd hk (by simpa using List.find?_eq_none.1 hfound a ha)
    | some other =>
      have hother : other ∈ l := List.mem_of_find?_eq_some hfound
      have hkey : key other = k := by simpa using List.find?_some hfound
      rw [List.inj_on_of_nodup_map h hother ha (hkey.trans hk.symm)]

/-- The last element of a list of which `p` holds. -/
structure IsLast (p : α → Prop) (l : List α) (a : α) : Prop where
  holds : p a
  split : ∃ earlier later, l = earlier ++ a :: later ∧ ∀ b ∈ later, ¬p b

theorem findSome?_reverse_eq_some_iff {b : β} :
    l.reverse.findSome? f = some b ↔ ∃ a, f a = some b ∧ IsLast (fun c => (f c).isSome) l a := by
  rw [List.findSome?_eq_some_iff]
  constructor
  · rintro ⟨later, a, earlier, hsplit, ha, hlater⟩
    refine ⟨a, ha, by simp [ha], earlier.reverse, later.reverse, ?_, by simpa using hlater⟩
    rw [← List.reverse_reverse l, hsplit, List.reverse_append, List.reverse_cons, List.append_assoc,
      List.singleton_append]
  · rintro ⟨a, ha, -, earlier, later, rfl, hlater⟩
    exact ⟨later.reverse, a, earlier.reverse, by simp, ha, by simpa using hlater⟩

theorem find?_reverse_eq_some_iff {p : α → Bool} {a : α} :
    l.reverse.find? p = some a ↔ p a ∧ ∃ earlier later, l = earlier ++ a :: later ∧
      ∀ b ∈ later, ¬p b := by
  rw [List.find?_eq_findSome?_guard, findSome?_reverse_eq_some_iff]
  simp only [Option.guard_eq_some_iff, Option.isSome_guard]
  constructor
  · rintro ⟨_, ⟨rfl, hp⟩, hlast⟩
    exact ⟨hp, hlast.split⟩
  · rintro ⟨hp, hsplit⟩
    exact ⟨a, ⟨rfl, hp⟩, hp, hsplit⟩

theorem pairwise_zipIdx (l : List α) : l.zipIdx.Pairwise fun x y => x.2 < y.2 := by
  have hnumbers : (l.zipIdx.map (·.2)).Pairwise (· < ·) := by
    rw [List.zipIdx_map_snd]
    exact List.pairwise_lt_range' 1
  exact List.pairwise_map.1 hnumbers

theorem find?_perm {p : α → Bool} (h : l'.Perm l) (hunique : ∀ a ∈ l, ∀ b ∈ l, p a → p b → a = b) :
    l'.find? p = l.find? p := by
  rw [List.find?_eq_findSome?_guard, List.find?_eq_findSome?_guard]
  refine findSome?_perm h fun a ha b hb hpa hpb => hunique a ha b hb ?_ ?_
  · simpa using hpa
  · simpa using hpb

end

namespace Ordered
variable {κ ν : Type} [BEq κ]

/-! ### Maps of pairs -/

theorem lookup_reverse_filterMap {α : Type} (g : α → Option (κ × ν)) (l : List α) (k : κ) :
    (l.filterMap g).reverse.lookup k = l.reverse.findSome? fun a => (g a).bind fun e =>
      if k == e.1 then some e.2 else none := by
  rw [List.lookup_eq_findSome?, ← List.filterMap_reverse, ← List.head?_filterMap,
    ← List.head?_filterMap, List.filterMap_filterMap]

def alter (key : κ) (f : Option ν → ν) : List (κ × ν) → List (κ × ν)
  | [] => [(key, f none)]
  | (k, v) :: rest => if k == key then (k, f (some v)) :: rest else (k, v) :: alter key f rest

theorem insert_eq_alter (key : κ) (value : ν) (m : List (κ × ν)) :
    insert key value m = alter key (fun _ => value) m := by
  induction m with
  | nil => rfl
  | cons e m ih => rw [insert, alter, ih]

theorem push_eq_alter (key : κ) (value : ν) (m : List (κ × List ν)) :
    push key value m = alter key (fun old => old.getD [] ++ [value]) m := by
  induction m with
  | nil => rfl
  | cons e m ih =>
    rw [push, alter, ih]
    rfl

theorem keys_alter (key : κ) (f : Option ν → ν) (m : List (κ × ν)) :
    (alter key f m).map (·.1) = if (m.map (·.1)).any (· == key) then m.map (·.1)
      else m.map (·.1) ++ [key] := by
  induction m with
  | nil => rfl
  | cons e m ih =>
    rw [alter]
    by_cases hkey : e.1 == key
    · simp [hkey]
    · rw [if_neg hkey, List.map_cons, ih, List.map_cons, List.any_cons, Bool.eq_false_iff.2 hkey,
        Bool.false_or]
      split <;> rfl

theorem lookup_eq_some_iff_exists [EquivBEq κ] {m : List (κ × ν)}
    (hkeys : m.Pairwise fun d e => ¬d.1 == e.1) {k : κ}
    {v : ν} : m.lookup k = some v ↔ ∃ k', k' == k ∧ (k', v) ∈ m := by
  have hunique : ∀ d ∈ m, ∀ e ∈ m, (if k == d.1 then some d.2 else none).isSome →
      (if k == e.1 then some e.2 else none).isSome → d = e := by
    intro d hd e he hkd hke
    have hkd : k == d.1 := by simpa using hkd
    have hke : k == e.1 := by simpa using hke
    by_contra hne
    have : Std.Symm fun d e : κ × ν => ¬d.1 == e.1 := ⟨fun _ _ h hed => h (BEq.symm hed)⟩
    exact hkeys.forall hd he hne (BEq.trans (BEq.symm hkd) hke)
  rw [List.lookup_eq_findSome?, findSome?_eq_some_iff_exists hunique]
  constructor
  · rintro ⟨⟨k', v'⟩, hmem, hfound⟩
    obtain ⟨hk, rfl⟩ : k == k' ∧ v' = v := by simpa using hfound
    exact ⟨k', BEq.symm hk, hmem⟩
  · rintro ⟨k', hk, hmem⟩
    exact ⟨(k', v), hmem, by simp [BEq.symm hk]⟩

theorem pairwise_concat_of_lookup_eq_none [EquivBEq κ] {m : List (κ × ν)}
    (hkeys : m.Pairwise fun d e => ¬d.1 == e.1)
    {k : κ} (hk : m.lookup k = none) (v : ν) : (m ++ [(k, v)]).Pairwise fun d e => ¬d.1 == e.1 := by
  rw [List.lookup_eq_none_iff] at hk
  refine List.pairwise_append.2 ⟨hkeys, List.pairwise_singleton _ _, fun d hd e he heq => ?_⟩
  obtain rfl := List.mem_singleton.1 he
  have hdiffer := hk d hd
  rw [bne, BEq.symm heq] at hdiffer
  cases hdiffer

/-! Pairs go into a map one after another, from the front. -/

theorem ofPairs_concat (pairs : List (κ × ν)) (e : κ × ν) :
    ofPairs (pairs ++ [e]) = insert e.1 e.2 (ofPairs pairs) := List.foldl_concat ..

theorem group_concat (pairs : List (κ × ν)) (e : κ × ν) :
    group (pairs ++ [e]) = push e.1 e.2 (group pairs) := List.foldl_concat ..

variable [LawfulBEq κ]

theorem lookup_alter (key : κ) (f : Option ν → ν) (m : List (κ × ν)) (k : κ) :
    (alter key f m).lookup k = if k == key then some (f (m.lookup key)) else m.lookup k := by
  induction m with
  | nil =>
    rw [alter, List.lookup_cons]
    cases k == key <;> rfl
  | cons e m ih =>
    rw [alter]
    by_cases hkey : e.1 = key
    · subst hkey
      rw [if_pos (BEq.refl e.1), List.lookup_cons, List.lookup_cons, List.lookup_cons, BEq.refl e.1]
      cases k == e.1 <;> rfl
    · have hne : (key == e.1) = false := beq_false_of_ne (Ne.symm hkey)
      rw [if_neg (by simpa using hkey), List.lookup_cons, ih, List.lookup_cons, List.lookup_cons,
        hne]
      by_cases hk : k = e.1
      · subst hk
        simp [hkey]
      · rw [beq_false_of_ne hk]

theorem lookup_ofPairs (pairs : List (κ × ν)) (k : κ) :
    (ofPairs pairs).lookup k = pairs.reverse.lookup k := by
  induction pairs using List.reverseRecOn with
  | nil => rfl
  | append_singleton pairs e ih =>
    rw [ofPairs_concat, insert_eq_alter, lookup_alter, ih, List.reverse_append,
      List.reverse_singleton, List.singleton_append, List.lookup_cons]
    cases k == e.1 <;> rfl

theorem lookup_eq_of_mem {m : List (κ × ν)} {f : κ → Option ν} {k : κ}
    (hm : ∀ e ∈ m, f e.1 = some e.2) (hk : ∀ v, f k = some v → (k, v) ∈ m) : m.lookup k = f k := by
  cases hlookup : m.lookup k with
  | none =>
    rw [List.lookup_eq_none_iff] at hlookup
    cases hf : f k with
    | none => rfl
    | some v => simpa using hlookup _ (hk v hf)
  | some v =>
    obtain ⟨earlier, later, rfl, -⟩ := List.lookup_eq_some_iff.1 hlookup
    exact (hm (k, v) (by simp)).symm

theorem lookup_eq_some_iff_mem {m : List (κ × ν)} (hkeys : (m.map (·.1)).Nodup) {k : κ} {v : ν} :
    m.lookup k = some v ↔ (k, v) ∈ m := by
  have hunique : ∀ a ∈ m, ∀ b ∈ m, (if k == a.1 then some a.2 else none).isSome →
      (if k == b.1 then some b.2 else none).isSome → a = b := by
    intro a ha b hb hka hkb
    have hka : k = a.1 := by simpa using hka
    have hkb : k = b.1 := by simpa using hkb
    exact List.inj_on_of_nodup_map hkeys ha hb (hka.symm.trans hkb)
  rw [List.lookup_eq_findSome?, findSome?_eq_some_iff_exists hunique]
  constructor
  · rintro ⟨⟨k', v'⟩, hmem, hfound⟩
    obtain ⟨hk, rfl⟩ : k = k' ∧ v' = v := by simpa using hfound
    rwa [hk]
  · intro hmem
    exact ⟨(k, v), hmem, by simp⟩

/-! ### Groups -/

def valuesOf (pairs : List (κ × ν)) (k : κ) : List ν :=
  pairs.filterMap fun e => if e.1 == k then some e.2 else none

omit [LawfulBEq κ] in
theorem valuesOf_concat (pairs : List (κ × ν)) (key : κ) (value : ν) (k : κ) :
    valuesOf (pairs ++ [(key, value)]) k =
      valuesOf pairs k ++ if key == k then [value] else [] := by
  rw [valuesOf, List.filterMap_append, ← valuesOf]
  cases h : key == k <;> simp [h]

/-- Every key that comes up once, with all its values. -/
structure Groups (pairs : List (κ × ν)) (m : List (κ × List ν)) : Prop where
  keys : (m.map (·.1)).Nodup
  lookup_eq : ∀ k, m.lookup k = if (valuesOf pairs k).isEmpty then none else some (valuesOf pairs k)

theorem Groups.push {pairs : List (κ × ν)} {m : List (κ × List ν)} (h : Groups pairs m) (key : κ)
    (value : ν) :
    Groups (pairs ++ [(key, value)]) (push key value m) := by
  rw [push_eq_alter]
  constructor
  · rw [keys_alter]
    split
    · exact h.keys
    · rename_i hnew
      have hout : key ∉ m.map (·.1) := by simpa using hnew
      rw [← List.concat_eq_append]
      exact h.keys.concat hout
  · intro k
    rw [lookup_alter, h.lookup_eq, h.lookup_eq, valuesOf_concat]
    by_cases hk : k = key
    · subst hk
      cases hvalues : valuesOf pairs k <;> simp
    · have hne : ¬key = k := Ne.symm hk
      simp [hk, hne]

theorem groups_group (pairs : List (κ × ν)) : Groups pairs (group pairs) := by
  induction pairs using List.reverseRecOn with
  | nil => exact ⟨List.nodup_nil, fun _ => rfl⟩
  | append_singleton pairs e ih =>
    rw [group_concat]
    exact ih.push e.1 e.2

theorem Groups.mem_iff {pairs : List (κ × ν)} {m : List (κ × List ν)} (h : Groups pairs m) {k : κ}
    {values : List ν} : (k, values) ∈ m ↔ values = valuesOf pairs k ∧ values ≠ [] := by
  rw [← lookup_eq_some_iff_mem h.keys, h.lookup_eq]
  cases hvalues : valuesOf pairs k with
  | nil => simp
  | cons v vs =>
    simp only [List.isEmpty_cons, Bool.false_eq_true, if_false, Option.some_inj]
    constructor
    · rintro rfl
      exact ⟨rfl, List.cons_ne_nil v vs⟩
    · exact fun hv => hv.1.symm

theorem group_perm {pairs pairs' : List (κ × ν)} (h : ∀ k, valuesOf pairs' k = valuesOf pairs k) :
    (group pairs').Perm (group pairs) := by
  have hgroups := groups_group pairs
  have hgroups' := groups_group pairs'
  refine (List.perm_ext_iff_of_nodup hgroups'.keys.of_map hgroups.keys.of_map).2 ?_
  rintro ⟨k, values⟩
  rw [hgroups'.mem_iff, hgroups.mem_iff, h]

theorem pairwise_mergeSort_keys (m : List (String × ν)) :
    (m.mergeSort fun a b => a.1 ≤ b.1).Pairwise fun a b => a.1 ≤ b.1 := by
  have htrans : ∀ a b c : String × ν, decide (a.1 ≤ b.1) → decide (b.1 ≤ c.1) →
      decide (a.1 ≤ c.1) := by
    simp only [decide_eq_true_eq]
    exact fun a b c => String.le_trans
  have htotal : ∀ a b : String × ν, (decide (a.1 ≤ b.1) || decide (b.1 ≤ a.1)) = true := by
    simp only [Bool.or_eq_true, decide_eq_true_eq]
    exact fun a b => String.le_total a.1 b.1
  exact (List.pairwise_mergeSort htrans htotal m).imp of_decide_eq_true

theorem mergeSort_perm_eq {m m' : List (String × ν)} (h : m'.Perm m) (hkeys : (m.map (·.1)).Nodup) :
    (m'.mergeSort fun a b => a.1 ≤ b.1) = m.mergeSort fun a b => a.1 ≤ b.1 := by
  have hsorts : (m'.mergeSort fun a b => a.1 ≤ b.1).Perm (m.mergeSort fun a b => a.1 ≤ b.1) :=
    ((List.mergeSort_perm m' _).trans h).trans (List.mergeSort_perm m _).symm
  refine hsorts.eq_of_pairwise (fun a b ha hb hab hba => ?_) (pairwise_mergeSort_keys m')
    (pairwise_mergeSort_keys m)
  have hkey : a.1 = b.1 := String.le_antisymm hab hba
  exact List.inj_on_of_nodup_map hkeys (h.mem_iff.1 (List.mem_mergeSort.1 ha))
    (List.mem_mergeSort.1 hb) hkey

theorem mergeSort_eq_reverse {m : List (Nat × ν)} (h : m.Pairwise fun a b => b.1 < a.1) :
    (m.mergeSort fun a b => a.1 ≤ b.1) = m.reverse := by
  have hkeys : (m.map (·.1)).Nodup := List.pairwise_map.2 (h.imp fun hab => Nat.ne_of_gt hab)
  have hsorted : (m.mergeSort fun a b => a.1 ≤ b.1).Pairwise fun a b => a.1 ≤ b.1 := by
    refine (List.pairwise_mergeSort (fun a b c hab hbc => ?_) (fun a b =>
      ?_) m).imp of_decide_eq_true
    · exact decide_eq_true (Nat.le_trans (of_decide_eq_true hab) (of_decide_eq_true hbc))
    · rw [Bool.or_eq_true]
      exact (Nat.le_total a.1 b.1).imp decide_eq_true decide_eq_true
  have hturned : m.reverse.Pairwise fun a b => a.1 ≤ b.1 :=
    List.pairwise_reverse.2 (h.imp Nat.le_of_lt)
  refine ((List.mergeSort_perm m _).trans m.reverse_perm.symm).eq_of_pairwise
    (fun a b ha hb hab hba => ?_) hsorted
    hturned
  exact List.inj_on_of_nodup_map hkeys (List.mem_mergeSort.1 ha) (List.mem_reverse.1 hb)
    (Nat.le_antisymm hab hba)

theorem pairwise_mergeSort_keys_of_nodup {m : List (String × ν)} (hkeys : (m.map (·.1)).Nodup) :
    (m.mergeSort fun a b => a.1 ≤ b.1).Pairwise fun a b => a.1 < b.1 := by
  have hnodup : ((m.mergeSort fun a b => a.1 ≤ b.1).map (·.1)).Nodup :=
    ((List.mergeSort_perm m _).map _).nodup_iff.2 hkeys
  refine (pairwise_mergeSort_keys m).imp₂ (fun a b hab hne => ?_) (List.pairwise_map.1 hnodup)
  exact String.not_le.1 fun hba => hne (String.le_antisymm hab hba)

/-! ### Sorted lists without repetitions -/

section
variable {α : Type} [BEq α] {le : α → α → Bool} {l : List α} {a : α}

/-- An order that takes two elements of a list for the same just where `==` does. -/
structure Arranges (le : α → α → Bool) (l : List α) : Prop where
  trans : ∀ a b c, le a b → le b c → le a c
  total : ∀ a b, le a b || le b a
  beq_iff : ∀ a ∈ l, ∀ b ∈ l, (a == b ↔ le a b ∧ le b a)

theorem Arranges.mono {l' : List α} (h : Arranges le l) (hsub : l' ⊆ l) : Arranges le l' :=
  ⟨h.trans, h.total, fun a ha b hb => h.beq_iff a (hsub ha) b (hsub hb)⟩

theorem mem_of_mem_squeeze_mergeSort (ha : a ∈ squeeze (l.mergeSort le)) : a ∈ l :=
  List.mem_mergeSort.1 ((squeeze_sublist _).subset ha)

variable [EquivBEq α]

theorem mem_squeezeAfter_iff {last : α} (h : Arranges le (last :: l))
    (hsorted : (last :: l).Pairwise fun a b => le a b) :
    a ∈ squeeze.squeezeAfter last l ↔ ¬last == a ∧ l.find? (· == a) = some a := by
  induction l generalizing last with
  | nil => simp [squeeze.squeezeAfter]
  | cons b rest ih =>
    obtain ⟨hlast, hrest⟩ := List.pairwise_cons.1 hsorted
    rw [squeeze.squeezeAfter]
    by_cases hb : last == b
    · have hskip : (last :: rest).Sublist (last :: b :: rest) :=
        (List.sublist_cons_self b rest).cons_cons last
      rw [if_pos hb, ih (h.mono hskip.subset) (hsorted.sublist hskip)]
      refine and_congr_right fun hne => ?_
      have hskipped : (b :: rest).find? (· == a) = rest.find? (· == a) :=
        List.find?_cons_of_neg fun hba => hne (BEq.trans hb hba)
      rw [hskipped]
    · rw [if_neg hb, List.mem_cons, ih (h.mono (List.subset_cons_self last _)) hrest]
      by_cases hba : b == a
      · have hne : ¬last == a := fun hla => hb (BEq.trans hla (BEq.symm hba))
        have hfound : (b :: rest).find? (· == a) = some b := List.find?_cons_of_pos hba
        rw [hfound, Option.some_inj]
        constructor
        · rintro (rfl | ⟨hnot, -⟩)
          · exact ⟨hne, rfl⟩
          · exact absurd hba hnot
        · rintro ⟨-, rfl⟩
          exact .inl rfl
      · have hskipped : (b :: rest).find? (· == a) = rest.find? (· == a) :=
          List.find?_cons_of_neg hba
        rw [hskipped]
        constructor
        · rintro (rfl | ⟨-, hfound⟩)
          · exact absurd BEq.rfl hba
          · -- were `a` the same as `last`, so would be `b` between them
            have ha : a ∈ rest := List.mem_of_find?_eq_some hfound
            refine ⟨fun hla => hba ?_, hfound⟩
            have hal : le a last := ((h.beq_iff last (by simp) a (by simp [ha])).1 hla).2
            have hab : le a b := h.trans a last b hal (hlast b List.mem_cons_self)
            exact (h.beq_iff b (by simp) a (by simp [ha])).2
              ⟨(List.pairwise_cons.1 hrest).1 a ha, hab⟩
        · rintro ⟨-, hfound⟩
          exact .inr ⟨hba, hfound⟩

theorem mem_squeeze_iff (h : Arranges le l) (hsorted : l.Pairwise fun a b => le a b) :
    a ∈ squeeze l ↔ l.find? (· == a) = some a := by
  cases l with
  | nil => simp [squeeze]
  | cons b rest =>
    rw [squeeze, List.mem_cons, mem_squeezeAfter_iff h hsorted]
    by_cases hba : b == a
    · simp [hba, eq_comm]
    · have hne : a ≠ b := by
        rintro rfl
        exact hba BEq.rfl
      simp [hba, hne]

theorem pairwise_squeezeAfter {last : α} (h : Arranges le (last :: l))
    (hsorted : (last :: l).Pairwise fun a b => le a b) :
    (last :: squeeze.squeezeAfter last l).Pairwise fun a b => ¬a == b := by
  refine List.pairwise_cons.2 ⟨fun a ha => ((mem_squeezeAfter_iff h hsorted).1 ha).1, ?_⟩
  induction l generalizing last with
  | nil => exact .nil
  | cons b rest ih =>
    rw [squeeze.squeezeAfter]
    split
    · have hskip : (last :: rest).Sublist (last :: b :: rest) :=
        (List.sublist_cons_self b rest).cons_cons last
      exact ih (h.mono hskip.subset) (hsorted.sublist hskip)
    · have hb := h.mono (List.subset_cons_self last (b :: rest))
      have hbsorted := hsorted.of_cons
      exact List.pairwise_cons.2
        ⟨fun a ha => ((mem_squeezeAfter_iff hb hbsorted).1 ha).1, ih hb hbsorted⟩

theorem pairwise_squeeze (h : Arranges le l) (hsorted : l.Pairwise fun a b => le a b) :
    (squeeze l).Pairwise fun a b => le a b ∧ ¬le b a := by
  have hne : (squeeze l).Pairwise fun a b => ¬a == b := by
    cases l with
    | nil => exact .nil
    | cons b rest => exact pairwise_squeezeAfter h hsorted
  have hsub := squeeze_sublist l
  refine ((hsorted.sublist hsub).and hne).imp_of_mem fun {a b} ha hb hab =>
    ⟨hab.1, fun hba => hab.2 ?_⟩
  exact (h.beq_iff a (hsub.subset ha) b (hsub.subset hb)).2 ⟨hab.1, hba⟩

theorem find?_mergeSort (h : Arranges le l) (a : α) :
    (l.mergeSort le).find? (· == a) = l.find? (· == a) := by
  have hsame : (l.filter (· == a)).Pairwise fun b c => le b c := by
    refine List.pairwise_of_forall_mem_list fun b hb c hc => ?_
    obtain ⟨hb, hba⟩ := List.mem_filter.1 hb
    obtain ⟨hc, hca⟩ := List.mem_filter.1 hc
    exact ((h.beq_iff b hb c hc).1 (BEq.trans hba (BEq.symm hca))).1
  have hsub := (List.sublist_mergeSort h.trans h.total hsame List.filter_sublist).filter (· == a)
  rw [List.filter_filter] at hsub
  simp only [Bool.and_self] at hsub
  have hlength : (l.filter (· == a)).length = ((l.mergeSort le).filter (· == a)).length :=
    ((List.mergeSort_perm l le).filter _).length_eq.symm
  rw [← List.head?_filter, ← hsub.eq_of_length hlength, List.head?_filter]

theorem mem_squeeze_mergeSort_iff (h : Arranges le l) :
    a ∈ squeeze (l.mergeSort le) ↔ l.find? (· == a) = some a := by
  have hsort : Arranges le (l.mergeSort le) := h.mono (List.mergeSort_perm l le).subset
  rw [mem_squeeze_iff hsort (List.pairwise_mergeSort h.trans h.total l), find?_mergeSort h]

theorem pairwise_squeeze_mergeSort (h : Arranges le l) :
    (squeeze (l.mergeSort le)).Pairwise fun a b => le a b ∧ ¬le b a :=
  pairwise_squeeze (h.mono (List.mergeSort_perm l le).subset)
    (List.pairwise_mergeSort h.trans h.total l)

theorem any_squeeze_mergeSort (h : Arranges le l) (a : α) :
    (squeeze (l.mergeSort le)).any (· == a) = l.any (· == a) := by
  rw [Bool.eq_iff_iff, List.any_eq_true, List.any_eq_true]
  constructor
  · rintro ⟨b, hb, hba⟩
    exact ⟨b, mem_of_mem_squeeze_mergeSort hb, hba⟩
  · intro hany
    obtain ⟨b, hb⟩ := Option.isSome_iff_exists.1 (List.find?_isSome.2 hany)
    have hba : b == a := by simpa using List.find?_some hb
    refine ⟨b, (mem_squeeze_mergeSort_iff h).2 ?_, hba⟩
    rw [← hb]
    congr 1
    funext c
    exact BEq.congr_right hba

end
end Ordered
end CodeAtlas
