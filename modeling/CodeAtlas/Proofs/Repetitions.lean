import CodeAtlas.Proofs.Ordered

/-! Lists without repetitions. Of what comes up several times the first is kept; where pairs are put
into a map one after another, it stands for the last value. -/

namespace CodeAtlas

theorem any_eraseDups_of_congr {α : Type} [BEq α] {p : α → Bool} :
    ∀ l : List α, (∀ a ∈ l, ∀ b ∈ l, a == b → p a = p b) → l.eraseDups.any p = l.any p
  | [], _ => rfl
  | a :: as, h => by
    have hshort : (as.filter fun b => !b == a).length < as.length + 1 :=
      Nat.lt_succ_of_le (List.length_filter_le _ as)
    have hrest : ∀ b ∈ as.filter (fun b => !b == a), ∀ c ∈ as.filter (fun b => !b == a),
        b == c → p b = p c :=
      fun b hb c hc => h b (List.mem_cons_of_mem a (List.mem_of_mem_filter hb)) c
        (List.mem_cons_of_mem a (List.mem_of_mem_filter hc))
    rw [List.eraseDups_cons, List.any_cons, List.any_cons, any_eraseDups_of_congr _ hrest,
      List.any_filter]
    cases ha : p a with
    | true => rfl
    | false =>
      -- what repeats `a` fails as `a` does
      rw [Bool.false_or, Bool.false_or, Bool.eq_iff_iff, List.any_eq_true, List.any_eq_true]
      refine exists_congr fun b => and_congr_right fun hb => ?_
      cases hba : b == a with
      | false => simp
      | true => simp [h b (List.mem_cons_of_mem a hb) a List.mem_cons_self hba, ha]
termination_by l => l.length

theorem any_eraseDups {α : Type} [BEq α] [EquivBEq α] (t : α) (l : List α) :
    l.eraseDups.any (· == t) = l.any (· == t) :=
  any_eraseDups_of_congr l fun _ _ _ _ hab => BEq.congr_left hab

theorem nodup_eraseDups {α : Type} [BEq α] [LawfulBEq α] : ∀ l : List α, l.eraseDups.Nodup
  | [] => List.nodup_nil
  | a :: as => by
    have hshort : (as.filter fun b => !b == a).length < as.length + 1 :=
      Nat.lt_succ_of_le (List.length_filter_le _ as)
    have hnew : a ∉ (as.filter fun b => !b == a).eraseDups := by simp
    rw [List.eraseDups_cons]
    exact List.nodup_cons.2 ⟨hnew, nodup_eraseDups _⟩
termination_by l => l.length

theorem eraseDups_sublist {α : Type} [BEq α] : ∀ l : List α, l.eraseDups.Sublist l
  | [] => .slnil
  | a :: as => by
    have hshort : (as.filter fun b => !b == a).length < as.length + 1 :=
      Nat.lt_succ_of_le (List.length_filter_le _ as)
    rw [List.eraseDups_cons]
    exact ((eraseDups_sublist _).trans List.filter_sublist).cons_cons a
termination_by l => l.length

theorem pairwise_eraseDups {α : Type} [BEq α] [EquivBEq α] : ∀ l : List α,
    l.eraseDups.Pairwise fun a b => ∃ earlier later, l = earlier ++ a :: later ∧
      ∀ c ∈ earlier ++ [a], ¬c == b
  | [] => .nil
  | a :: as => by
    have hshort : (as.filter fun b => !b == a).length < as.length + 1 :=
      Nat.lt_succ_of_le (List.length_filter_le _ as)
    have hother : ∀ b ∈ (as.filter fun b => !b == a).eraseDups, ¬a == b := by
      intro b hb hab
      have hba := (List.mem_filter.1 ((eraseDups_sublist _).subset hb)).2
      rw [BEq.comm, hab] at hba
      cases hba
    rw [List.eraseDups_cons]
    refine List.pairwise_cons.2 ⟨fun b hb => ⟨[], as, rfl, by simpa using hother b hb⟩, ?_⟩
    refine (pairwise_eraseDups _).imp_of_mem fun {c b} hc hb hcb => ?_
    obtain ⟨earlier, later, hsplit, hbefore⟩ := hcb
    -- what has been filtered out repeats `a`, and so does not repeat `b`
    have hrepeats : ∀ x, x == a →
        ¬x == b := fun x hxa hxb => hother b hb (BEq.trans (BEq.symm hxa) hxb)
    obtain ⟨l₁, l₂, rfl, hl₁, hl₂⟩ := List.filter_eq_append_iff.1 hsplit
    obtain ⟨l₃, l₄, rfl, hl₃, -, -⟩ := List.filter_eq_cons_iff.1 hl₂
    refine ⟨a :: l₁ ++ l₃, l₄, by simp, fun x hx => ?_⟩
    simp only [List.mem_append, List.mem_cons, List.not_mem_nil, or_false] at hx
    rcases hx with ((rfl | hx) | hx) | rfl
    · exact hother b hb
    · by_cases hxa : x == a
      · exact hrepeats x hxa
      · exact hbefore x (by simp [← hl₁, hx, hxa])
    · exact hrepeats x (by simpa using hl₃ x hx)
    · exact hbefore x (by simp)
termination_by l => l.length

theorem distinct_eraseDups {α : Type} [BEq α] [EquivBEq α] (l : List α) :
    l.eraseDups.Pairwise fun a b => ¬a == b := by
  refine (pairwise_eraseDups l).imp fun {a b} hab => ?_
  obtain ⟨earlier, later, -, hbefore⟩ := hab
  exact hbefore a (by simp)

theorem eraseDups_concat {α : Type} [BEq α] [EquivBEq α] (x : α) : ∀ l : List α,
    (l ++ [x]).eraseDups = if l.any (· == x) then l.eraseDups else l.eraseDups ++ [x]
  | [] => rfl
  | a :: as => by
    have hshort : (as.filter fun b => !b == a).length < as.length + 1 :=
      Nat.lt_succ_of_le (List.length_filter_le _ as)
    rw [List.cons_append, List.eraseDups_cons, List.eraseDups_cons, List.filter_append,
      List.any_cons]
    by_cases hax : a == x
    · have hdropped : [x].filter (fun b => !b == a) = [] := by simp [BEq.symm hax]
      rw [hdropped, List.append_nil, hax, Bool.true_or, if_pos rfl]
    · have hxa : (x == a) = false := by
        rw [BEq.comm]
        exact Bool.eq_false_iff.2 hax
      have hkept : [x].filter (fun b => !b == a) = [x] := by simp [hxa]
      -- what repeats `a` is not the same as `x`
      have hany : (as.filter fun b => !b == a).any (· == x) = as.any (· == x) := by
        rw [List.any_filter]
        refine List.any_congr rfl fun b => ?_
        cases hba : b == a with
        | false => rfl
        | true => rw [BEq.congr_left hba, Bool.eq_false_iff.2 hax, Bool.and_false]
      rw [hkept, eraseDups_concat x, hany, Bool.eq_false_iff.2 hax, Bool.false_or]
      split <;> rfl
termination_by l => l.length

namespace Ordered
variable {κ ν ν' : Type} [BEq κ]

/-! ### Values that are overwritten -/

/-- Every key that comes up once, in the order in which the keys first come up, with its
last value. -/
structure KeepsLast (pairs m : List (κ × ν)) : Prop where
  keys : m.map (·.1) = (pairs.map (·.1)).eraseDups
  last : ∀ x ∈ m, ∃ key, IsLast (fun e => e.1 == x.1) pairs (key, x.2)

section
variable [EquivBEq κ] {key : κ} {value : ν} {pairs m : List (κ × ν)} {x : κ × ν}

theorem mem_insert (hm : (m.map (·.1)).Pairwise fun a b => ¬a == b) (hx : x ∈ insert key value m) :
    x.1 == key ∧ x.2 = value ∨ x ∈ m ∧ ¬x.1 == key := by
  induction m with
  | nil =>
    obtain rfl := List.mem_singleton.1 hx
    exact .inl ⟨BEq.rfl, rfl⟩
  | cons e m ih =>
    obtain ⟨hother, hm⟩ := List.pairwise_cons.1 hm
    rw [insert] at hx
    by_cases hkey : e.1 == key
    · rw [if_pos hkey] at hx
      rcases List.mem_cons.1 hx with rfl | hx
      · exact .inl ⟨hkey, rfl⟩
      · have hne : ¬x.1 == key := fun hxkey =>
          hother x.1 (List.mem_map_of_mem hx) (BEq.trans hkey (BEq.symm hxkey))
        exact .inr ⟨List.mem_cons_of_mem e hx, hne⟩
    · rw [if_neg hkey] at hx
      rcases List.mem_cons.1 hx with rfl | hx
      · exact .inr ⟨List.mem_cons_self, hkey⟩
      · exact (ih hm hx).imp_right fun h => ⟨List.mem_cons_of_mem e h.1, h.2⟩

theorem KeepsLast.insert (h : KeepsLast pairs m) (key : κ) (value : ν) :
    KeepsLast (pairs ++ [(key, value)]) (insert key value m) := by
  constructor
  · rw [insert_eq_alter, keys_alter, h.keys, any_eraseDups, List.map_append, List.map_singleton,
      eraseDups_concat]
  · intro x hx
    have hdistinct : (m.map (·.1)).Pairwise fun a b => ¬a == b := h.keys ▸ distinct_eraseDups _
    rcases mem_insert hdistinct hx with ⟨hkey, rfl⟩ | ⟨hx, hne⟩
    · exact ⟨key, BEq.symm hkey, pairs, [], rfl, by simp⟩
    · obtain ⟨k, hk, earlier, later, rfl, hlater⟩ := h.last x hx
      have hnew : ¬key == x.1 := fun hkey => hne (BEq.symm hkey)
      refine ⟨k, hk, earlier, later ++ [(key, value)], by simp, fun e he => ?_⟩
      rcases List.mem_append.1 he with he | he
      · exact hlater e he
      · rwa [List.mem_singleton.1 he]

theorem keepsLast_ofPairs (pairs : List (κ × ν)) : KeepsLast pairs (ofPairs pairs) := by
  induction pairs using List.reverseRecOn with
  | nil => exact ⟨rfl, fun x hx => absurd hx List.not_mem_nil⟩
  | append_singleton pairs e ih =>
    rw [ofPairs_concat]
    exact ih.insert e.1 e.2

end

/-! ### Values that stay -/

theorem insert_of_new {key : κ} {m : List (κ × ν)} (h : ∀ e ∈ m, ¬e.1 == key) (value : ν) :
    insert key value m = m ++ [(key, value)] := by
  induction m with
  | nil => rfl
  | cons e m ih =>
    obtain ⟨he, hm⟩ := List.forall_mem_cons.1 h
    rw [insert, if_neg he, ih hm, List.cons_append]

theorem ofPairs_eq_self {pairs : List (κ × ν)} (h : pairs.Pairwise fun a b => ¬a.1 == b.1) :
    ofPairs pairs = pairs := by
  induction pairs using List.reverseRecOn with
  | nil => rfl
  | append_singleton pairs e ih =>
    obtain ⟨hpairs, -, hlast⟩ := List.pairwise_append.1 h
    have hnew : ∀ x ∈ pairs, ¬x.1 == e.1 := fun x hx => hlast x hx e List.mem_cons_self
    rw [ofPairs_concat, ih hpairs, insert_of_new hnew]

theorem insert_map (f : ν → ν') (key : κ) (value : ν) (m : List (κ × ν)) :
    insert key (f value) (m.map fun e => (e.1, f e.2)) =
      (insert key value m).map fun e => (e.1, f e.2) := by
  induction m with
  | nil => rfl
  | cons e m ih =>
    rw [List.map_cons, insert, insert, ih]
    split <;> rfl

theorem ofPairs_map (f : ν → ν') (pairs : List (κ × ν)) :
    ofPairs (pairs.map fun e => (e.1, f e.2)) = (ofPairs pairs).map fun e => (e.1, f e.2) := by
  induction pairs using List.reverseRecOn with
  | nil => rfl
  | append_singleton pairs e ih =>
    rw [List.map_append, List.map_singleton, ofPairs_concat, ofPairs_concat, ih]
    exact insert_map f e.1 e.2 (ofPairs pairs)

end Ordered
end CodeAtlas
