import CodeAtlas.Wire.Field
import Mathlib.Data.Option.Basic

/-! What is read does not depend on what comes after it. So fields may be read in portions, and a
field that is cut off anywhere is not read at all. -/

namespace CodeAtlas.Wire

theorem readVarintWithin_append {budget n : Nat} {s rest : List UInt8}
    (h : readVarintWithin budget s = some (n, rest)) (more : List UInt8) :
    readVarintWithin budget (s ++ more) = some (n, rest ++ more) := by
  induction budget generalizing n s rest with
  | zero => cases h
  | succ budget ih =>
    cases s with
    | nil => cases h
    | cons b tail =>
      rw [List.cons_append]
      unfold readVarintWithin at h ⊢
      split at h
      · rename_i hlast
        rw [if_pos hlast]
        split at h
        · cases h
        · rename_i hfits
          rw [if_neg hfits]
          cases h
          rfl
      · rename_i hmore
        rw [if_neg hmore]
        obtain ⟨⟨high, r⟩, hr, he⟩ := Option.bind_eq_some_iff.1 h
        cases he
        rw [ih hr]
        rfl

theorem readVarint_append {n : Nat} {s rest : List UInt8} (h : readVarint s = some (n, rest))
    (more : List UInt8) : readVarint (s ++ more) = some (n, rest ++ more) :=
  readVarintWithin_append h more

theorem takeBytes_eq_some_iff {n : Nat} {s data rest : List UInt8} :
    takeBytes n s = some (data, rest) ↔ s = data ++ rest ∧ data.length = n := by
  unfold takeBytes
  constructor
  · intro h
    dsimp only at h
    split at h
    · rename_i hlength
      cases h
      exact ⟨(List.take_append_drop n s).symm, hlength⟩
    · cases h
  · rintro ⟨rfl, rfl⟩
    simp

theorem takeBytes_append {n : Nat} {s data rest : List UInt8}
    (h : takeBytes n s = some (data, rest))
    (more : List UInt8) : takeBytes n (s ++ more) = some (data, rest ++ more) := by
  obtain ⟨rfl, hlength⟩ := takeBytes_eq_some_iff.1 h
  exact takeBytes_eq_some_iff.2 ⟨List.append_assoc .., hlength⟩

theorem readKey_append {number : Nat} {form : Form} {s rest : List UInt8}
    (h : readKey s = some (number, form, rest)) (more : List UInt8) :
    readKey (s ++ more) = some (number, form, rest ++ more) := by
  unfold readKey at h ⊢
  obtain ⟨⟨key, r⟩, hr, h⟩ := Option.bind_eq_some_iff.1 h
  rw [readVarint_append hr more]
  obtain ⟨_, hguard, h⟩ := Option.bind_eq_some_iff.1 h
  obtain ⟨f, hform, h⟩ := Option.bind_eq_some_iff.1 h
  obtain ⟨_, hpositive, h⟩ := Option.bind_eq_some_iff.1 h
  cases h
  simp only [Option.bind_eq_bind, Option.bind_some, hguard, hform, hpositive]
  rfl

theorem readPlain_append {form : Form} {p : Payload} {s rest : List UInt8}
    (h : readPlain form s = some (p, rest)) (more : List UInt8) :
    readPlain form (s ++ more) = some (p, rest ++ more) := by
  cases form with
  | varint =>
    obtain ⟨⟨n, r⟩, hr, he⟩ := Option.map_eq_some_iff.1 h
    cases he
    simp only [readPlain, readVarint_append hr more, Option.map_some]
  | fixed64 =>
    obtain ⟨⟨data, r⟩, hr, he⟩ := Option.map_eq_some_iff.1 h
    cases he
    simp only [readPlain, takeBytes_append hr more, Option.map_some]
  | fixed32 =>
    obtain ⟨⟨data, r⟩, hr, he⟩ := Option.map_eq_some_iff.1 h
    cases he
    simp only [readPlain, takeBytes_append hr more, Option.map_some]
  | bytes =>
    obtain ⟨⟨n, r⟩, hr, he⟩ := Option.bind_eq_some_iff.1 h
    obtain ⟨⟨data, t⟩, ht, he⟩ := Option.map_eq_some_iff.1 he
    cases he
    simp only [readPlain, readVarint_append hr more, Option.bind_some, takeBytes_append ht more,
      Option.map_some]
  | groupStart => cases h
  | groupEnd => cases h

theorem groupStep_append {limit number : Nat} {outer opened : List Nat} {s rest : List UInt8}
    (h : groupStep limit number outer s = some (opened, rest)) (more : List UInt8) :
    groupStep limit number outer (s ++ more) = some (opened, rest ++ more) := by
  unfold groupStep at h ⊢
  cases hkey : readKey s with
  | none =>
    rw [hkey] at h
    cases h
  | some found =>
    obtain ⟨found, form, r⟩ := found
    rw [readKey_append hkey more]
    rw [hkey] at h
    cases form with
    | groupEnd =>
      obtain ⟨hsame, he⟩ := Option.ite_none_right_eq_some.1 h
      cases he
      exact if_pos hsame
    | groupStart =>
      obtain ⟨hdepth, he⟩ := Option.ite_none_right_eq_some.1 h
      cases he
      exact if_pos hdepth
    | _ =>
      obtain ⟨hdepth, he⟩ := Option.ite_none_right_eq_some.1 h
      obtain ⟨⟨p, t⟩, ht, he⟩ := Option.map_eq_some_iff.1 he
      cases he
      simp only [if_pos hdepth, readPlain_append ht more, Option.map_some]

theorem skipGroups_of_groupStep {limit number : Nat} {outer opened : List Nat} {s rest : List UInt8}
    (h : groupStep limit number outer s = some (opened, rest)) :
    skipGroups limit (number :: outer) s = skipGroups limit opened rest := by
  rw [skipGroups, h]

theorem skipGroups_append {limit : Nat} {opened : List Nat} {s rest : List UInt8}
    (h : skipGroups limit opened s = some rest) (more : List UInt8) :
    skipGroups limit opened (s ++ more) = some (rest ++ more) := by
  fun_induction skipGroups limit opened s with
  | case1 s =>
    cases h
    rw [skipGroups]
  | case2 => cases h
  | case3 s number outer opened r hstep ih =>
    rw [skipGroups_of_groupStep (groupStep_append hstep more)]
    exact ih h

theorem readField_append {limit : Nat} {f : Field} {s rest : List UInt8}
    (h : readField limit s = some (f, rest)) (more : List UInt8) :
    readField limit (s ++ more) = some (f, rest ++ more) := by
  unfold readField at h ⊢
  cases hkey : readKey s with
  | none =>
    rw [hkey] at h
    cases h
  | some found =>
    obtain ⟨number, form, r⟩ := found
    rw [readKey_append hkey more]
    rw [hkey] at h
    cases form with
    | groupStart =>
      obtain ⟨t, ht, he⟩ := Option.map_eq_some_iff.1 h
      cases he
      simp only [skipGroups_append ht more, Option.map_some]
    | _ =>
      obtain ⟨⟨p, t⟩, ht, he⟩ := Option.map_eq_some_iff.1 h
      cases he
      simp only [readPlain_append ht more, Option.map_some]

/-! ### Sequences of fields -/

@[simp] theorem readFields_nil (limit : Nat) : readFields limit [] = some [] := by
  rw [readFields]
  rfl

theorem readFields_of_readField {limit : Nat} {f : Field} {s rest : List UInt8}
    (h : readField limit s = some (f, rest)) :
    readFields limit s = (readFields limit rest).map (f :: ·) := by
  have hlength := readField_length h
  have hne : s.isEmpty = false := by
    cases s with
    | nil => cases hlength
    | cons b tail => rfl
  rw [readFields, hne, if_neg Bool.false_ne_true, h]

theorem readFields_eq_none {limit : Nat} {s : List UInt8} (hne : s ≠ [])
    (h : readField limit s = none) :
    readFields limit s = none := by
  rw [readFields, List.isEmpty_eq_false_iff.2 hne, if_neg Bool.false_ne_true, h]

theorem readFields_append {limit : Nat} {s : List UInt8} {fs : List Field}
    (h : readFields limit s = some fs)
    (more : List UInt8) : readFields limit (s ++ more) = (readFields limit more).map (fs ++ ·) := by
  fun_induction readFields limit s generalizing fs with
  | case1 s hempty =>
    cases h
    rw [List.isEmpty_iff.1 hempty, List.nil_append]
    exact Option.map_id'.symm
  | case2 => cases h
  | case3 s hne f rest hfield ih =>
    obtain ⟨gs, hgs, rfl⟩ := Option.map_eq_some_iff.1 h
    rw [readFields_of_readField (readField_append hfield more), ih hgs, Option.map_map]
    rfl

theorem readFields_append_eq_some {limit : Nat} {s t : List UInt8} {fs gs : List Field}
    (hs : readFields limit s = some fs) (ht : readFields limit t = some gs) :
    readFields limit (s ++ t) = some (fs ++ gs) := by rw [readFields_append hs, ht, Option.map_some]

theorem readFields_singleton {limit : Nat} {f : Field} {s : List UInt8}
    (h : readField limit s = some (f, [])) :
    readFields limit s = some [f] := by
  rw [readFields_of_readField h, readFields_nil]
  rfl

theorem readField_eq_none_of_cut {limit : Nat} {f : Field} {s cut : List UInt8}
    (h : readField limit s = some (f, [])) (hcut : cut <+: s) (hne : cut ≠ s) :
    readField limit cut = none := by
  obtain ⟨missing, rfl⟩ := hcut
  cases hread : readField limit cut with
  | none => rfl
  | some found =>
    obtain ⟨g, rest⟩ := found
    have hlong := readField_append hread missing
    rw [h] at hlong
    have hmissing : missing = [] :=
      (List.append_eq_nil_iff.1 (congrArg Prod.snd (Option.some.inj hlong)).symm).2
    rw [hmissing, List.append_nil] at hne
    exact absurd rfl hne

end CodeAtlas.Wire
