import CodeAtlas.Proofs.Wire.Prefix
import Mathlib.Algebra.Order.Ring.Nat

/-! The written forms of fields. A number may be spelled with more bytes than it needs, and a group
holds fields of any number between its two keys; whatever has such a form is read to its end. -/

namespace CodeAtlas.Wire

/-! ### Numbers -/

/-- Bytes of seven bits each, low bits first; all but the last have the top bit set. -/
inductive IsNumber : List UInt8 → Nat → Prop
  | last {b : UInt8} (h : b < 128) : IsNumber [b] b.toNat
  | more {b : UInt8} {s : List UInt8} {n : Nat} (h : 128 ≤ b) (hs : IsNumber s n) :
    IsNumber (b :: s) (b.toNat - 128 + 128 * n)

structure IsVarint (s : List UInt8) (n : Nat) : Prop where
  spelled : IsNumber s n
  short : s.length ≤ 10
  fits : n < UInt64.size

theorem IsNumber.readVarintWithin {s : List UInt8} {n : Nat} (h : IsNumber s n) {budget : Nat}
    (hshort : s.length ≤ budget + 1) (hfits : n < 2 * 128 ^ budget) :
    readVarintWithin (budget + 1) s = some (n, []) := by
  induction h generalizing budget with
  | @last b hb =>
    have hlast : ¬(budget = 0 ∧ 2 ≤ b) := by
      rintro ⟨rfl, hle⟩
      have := UInt8.le_iff_toNat_le.1 hle
      simp at this hfits
      omega
    rw [Wire.readVarintWithin, if_pos hb, if_neg hlast]
  | @more b s n hb hs ih =>
    have hpos : 0 < s.length := by cases hs <;> simp
    obtain ⟨rest, rfl⟩ : ∃ rest, budget = rest + 1 := Nat.exists_eq_succ_of_ne_zero (by
      rw [List.length_cons] at hshort
      omega)
    have hhigh : n < 2 * 128 ^ rest := by
      rw [pow_succ] at hfits
      omega
    rw [Wire.readVarintWithin, if_neg (UInt8.not_lt.2 hb), ih (Nat.le_of_succ_le_succ hshort) hhigh]
    rfl

theorem IsVarint.readVarint {s : List UInt8} {n : Nat} (h : IsVarint s n) :
    readVarint s = some (n, []) :=
  h.spelled.readVarintWithin h.short h.fits

inductive IsPacked : List UInt8 → List Int32 → Prop
  | nil : IsPacked [] []
  | cons {v s : List UInt8} {n : Nat} {xs : List Int32} (hv : IsVarint v n) (hs : IsPacked s xs) :
    IsPacked (v ++ s) (int32OfBits n :: xs)

theorem unpack_of_readVarint {s rest : List UInt8} {n : Nat} (h : readVarint s = some (n, rest)) :
    Payload.unpack s = (Payload.unpack rest).map (int32OfBits n :: ·) := by
  have hlength := readVarint_length h
  have hne : s.isEmpty = false := by
    cases s with
    | nil => cases hlength
    | cons b tail => rfl
  rw [Payload.unpack, hne, if_neg Bool.false_ne_true, h]

theorem IsPacked.unpack {s : List UInt8} {xs : List Int32} (h : IsPacked s xs) :
    Payload.unpack s = some xs := by
  induction h with
  | nil => rw [Payload.unpack, List.isEmpty_nil, if_pos rfl]
  | cons hv hs ih =>
    rw [unpack_of_readVarint (readVarint_append hv.readVarint _), List.nil_append, ih]
    rfl

/-! ### Fields -/

def Form.code : Form → Nat
  | varint => 0
  | fixed64 => 1
  | bytes => 2
  | groupStart => 3
  | groupEnd => 4
  | fixed32 => 5

theorem Form.ofCode?_code (form : Form) :
    Form.ofCode? form.code = some form := by cases form <;> rfl

theorem Form.code_lt (form : Form) : form.code < 8 := by cases form <;> decide

structure IsKey (s : List UInt8) (number : Nat) (form : Form) : Prop where
  spelled : IsVarint s (number * 8 + form.code)
  fits : number * 8 + form.code < UInt32.size
  positive : 0 < number

theorem IsKey.readKey {s : List UInt8} {number : Nat} {form : Form} (h : IsKey s number form) :
    readKey s = some (number, form, []) := by
  have hcode := form.code_lt
  have hform : (number * 8 + form.code) % 8 = form.code := by omega
  have hnumber : (number * 8 + form.code) / 8 = number := by omega
  simp only [Wire.readKey, h.spelled.readVarint, Option.bind_eq_bind, Option.bind_some, hform,
    hnumber, Form.ofCode?_code, guard, if_pos h.fits, if_pos h.positive]
  rfl

inductive IsPlain : Form → List UInt8 → Payload → Prop
  | varint {s : List UInt8} {n : Nat} (h : IsVarint s n) : IsPlain .varint s (.varint n)
  | fixed64 {s : List UInt8} (h : s.length = 8) : IsPlain .fixed64 s .fixed64
  | fixed32 {s : List UInt8} (h : s.length = 4) : IsPlain .fixed32 s .fixed32
  | bytes {s data : List UInt8} (h : IsVarint s data.length) :
    IsPlain .bytes (s ++ data) (.bytes data)

theorem IsPlain.readPlain {form : Form} {s : List UInt8} {p : Payload} (h : IsPlain form s p) :
    readPlain form s = some (p, []) := by
  cases h with
  | varint h => rw [Wire.readPlain, h.readVarint, Option.map_some]
  | fixed64 h =>
    have htake : takeBytes 8 s = some (s, []) :=
      takeBytes_eq_some_iff.2 ⟨(List.append_nil s).symm, h⟩
    rw [Wire.readPlain, htake, Option.map_some]
  | fixed32 h =>
    have htake : takeBytes 4 s = some (s, []) :=
      takeBytes_eq_some_iff.2 ⟨(List.append_nil s).symm, h⟩
    rw [Wire.readPlain, htake, Option.map_some]
  | @bytes s data h =>
    have htake : takeBytes data.length data = some (data, []) :=
      takeBytes_eq_some_iff.2 ⟨(List.append_nil data).symm, rfl⟩
    simp only [Wire.readPlain, readVarint_append h.readVarint data, Option.bind_some,
      List.nil_append, htake, Option.map_some]

theorem readField_of_isPlain {k s : List UInt8} {number : Nat} {form : Form} {p : Payload}
    (hk : IsKey k number form) (hs : IsPlain form s p) (limit : Nat) :
    readField limit (k ++ s) = some (⟨number, p⟩, []) := by
  have hkey : readKey (k ++ s) = some (number, form, s) := readKey_append hk.readKey s
  have hplain := hs.readPlain
  unfold readField
  rw [hkey]
  cases form with
  | groupStart => cases hs
  | _ => simp only [hplain, Option.map_some]

/-- Fields one after another, numbered as `admits` says, with less than `limit` groups around
any field. -/
inductive WellFormed : (Nat → Prop) → Nat → List UInt8 → Prop
  | nil {admits : Nat → Prop} {limit : Nat} : WellFormed admits limit []
  | plain {admits : Nat → Prop} {limit number : Nat} {form : Form} {k body s : List UInt8}
    {p : Payload} (hnumber : admits number) (hk : IsKey k number form) (hbody : IsPlain form body p)
    (hs : WellFormed admits (limit + 1) s) : WellFormed admits (limit + 1) (k ++ body ++ s)
  | group {admits : Nat → Prop} {limit number : Nat} {k body e s : List UInt8}
    (hnumber : admits number) (hk : IsKey k number .groupStart)
    (hbody : WellFormed (fun _ => True) limit body)
    (he : IsKey e number .groupEnd) (hs : WellFormed admits (limit + 1) s) :
    WellFormed admits (limit + 1) (k ++ body ++ e ++ s)

theorem groupStep_of_isPlain {limit number found : Nat} {outer : List Nat} {form : Form}
    {k body : List UInt8} {p : Payload} (hk : IsKey k found form) (hbody : IsPlain form body p)
    (hdepth : outer.length + 1 < limit) (rest : List UInt8) :
    groupStep limit number outer (k ++ body ++ rest) = some (number :: outer, rest) := by
  have hkey : readKey (k ++ (body ++ rest)) = some (found, form, body ++ rest) :=
    readKey_append hk.readKey _
  have hplain : readPlain form (body ++ rest) = some (p, rest) :=
    readPlain_append hbody.readPlain rest
  unfold groupStep
  rw [List.append_assoc, hkey]
  cases form with
  | groupStart => cases hbody
  | groupEnd => cases hbody
  | _ => simp only [if_pos hdepth, hplain, Option.map_some]

theorem groupStep_of_groupStart {limit number found : Nat} {outer : List Nat} {k : List UInt8}
    (hk : IsKey k found .groupStart) (hdepth : outer.length + 1 < limit) (rest : List UInt8) :
    groupStep limit number outer (k ++ rest) = some (found :: number :: outer, rest) := by
  have hkey : readKey (k ++ rest) = some (found, .groupStart, rest) :=
    readKey_append hk.readKey rest
  unfold groupStep
  rw [hkey]
  exact if_pos hdepth

theorem groupStep_of_groupEnd {limit number : Nat} {outer : List Nat} {e : List UInt8}
    (he : IsKey e number .groupEnd) (rest : List UInt8) :
    groupStep limit number outer (e ++ rest) = some (outer, rest) := by
  have hkey : readKey (e ++ rest) = some (number, .groupEnd, rest) := readKey_append he.readKey rest
  unfold groupStep
  rw [hkey]
  exact if_pos rfl

theorem WellFormed.skipGroups {admits : Nat → Prop} {depth : Nat} {s : List UInt8}
    (h : WellFormed admits depth s) {limit number : Nat} {outer : List Nat}
    (hdepth : outer.length + 1 + depth ≤ limit) (rest : List UInt8) :
    skipGroups limit (number :: outer) (s ++ rest) = skipGroups limit (number :: outer) rest := by
  induction h generalizing number outer rest with
  | nil => rfl
  | plain hnumber hk hbody hs ih =>
    rw [List.append_assoc, skipGroups_of_groupStep (groupStep_of_isPlain hk hbody (by omega) _),
      ih hdepth]
  | group hnumber hk hbody he hs ihbody ih =>
    -- the group is opened, its fields are skipped one level deeper, and it is closed again
    rw [List.append_assoc, List.append_assoc, List.append_assoc,
      skipGroups_of_groupStep (groupStep_of_groupStart hk (by omega) _),
      ihbody (by rw [List.length_cons]; omega),
      skipGroups_of_groupStep (groupStep_of_groupEnd he _), ih hdepth]

theorem readField_of_group {limit number : Nat} {k body e : List UInt8}
    (hk : IsKey k number .groupStart) (hbody : WellFormed (fun _ => True) limit body)
    (he : IsKey e number .groupEnd) :
    readField (limit + 1) (k ++ body ++ e) = some (⟨number, .group⟩, []) := by
  have hkey : readKey (k ++ (body ++ e)) = some (number, .groupStart, body ++ e) :=
    readKey_append hk.readKey _
  have hskip : Wire.skipGroups (limit + 1) [number] (body ++ e) = some [] := by
    have hclose : groupStep (limit + 1) number [] (e ++ []) = some ([], []) :=
      groupStep_of_groupEnd he []
    rw [List.append_nil] at hclose
    rw [hbody.skipGroups (by rw [List.length_nil]; omega), skipGroups_of_groupStep hclose,
      Wire.skipGroups]
  unfold readField
  rw [List.append_assoc, hkey]
  simp only [hskip, Option.map_some]

theorem WellFormed.readFields {admits : Nat → Prop} {limit : Nat} {s : List UInt8}
    (h : WellFormed admits limit s) :
    ∃ fs, readFields limit s = some fs ∧ ∀ f ∈ fs, admits f.number := by
  induction h with
  | nil => exact ⟨[], readFields_nil _, by simp⟩
  | @plain admits limit number form k body s p hnumber hk hbody hs ih =>
    obtain ⟨fs, hfs, hadmits⟩ := ih
    have hfield := readFields_singleton (readField_of_isPlain hk hbody (limit + 1))
    exact ⟨⟨number, p⟩ :: fs, readFields_append_eq_some hfield hfs,
      List.forall_mem_cons.2 ⟨hnumber, hadmits⟩⟩
  | @group admits limit number k body e s hnumber hk hbody he hs ihbody ih =>
    obtain ⟨fs, hfs, hadmits⟩ := ih
    have hfield := readFields_singleton (readField_of_group hk hbody he)
    exact ⟨⟨number, .group⟩ :: fs, readFields_append_eq_some hfield hfs,
      List.forall_mem_cons.2 ⟨hnumber, hadmits⟩⟩

end CodeAtlas.Wire
