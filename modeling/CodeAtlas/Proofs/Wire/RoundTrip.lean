import CodeAtlas.Index.Encode
import CodeAtlas.Proofs.Text.Bytes
import CodeAtlas.Proofs.Wire.Grammar

/-! What is written is read back: numbers of 64 bits, and fields whose numbers and lengths fit. -/

namespace CodeAtlas.Wire

/-! ### Numbers -/

theorem toNat_toUInt8 {n : Nat} (h : n < 256) : n.toUInt8.toNat = n := Nat.mod_eq_of_lt h

theorem isNumber_writeVarint (n : Nat) : IsNumber (writeVarint n) n := by
  fun_induction writeVarint n with
  | case1 n hlast =>
    have hbyte := toNat_toUInt8 (n := n) (by omega)
    have hnumber : IsNumber [n.toUInt8] n.toUInt8.toNat :=
      .last (UInt8.lt_iff_toNat_lt.2 (hbyte.symm ▸ hlast))
    rwa [hbyte] at hnumber
  | case2 n hmore ih =>
    have hbyte := toNat_toUInt8 (n := n % 128 + 128) (by omega)
    have hnumber := IsNumber.more (b := (n % 128 + 128).toUInt8)
      (UInt8.le_iff_toNat_le.2 (hbyte.symm ▸ Nat.le_add_left ..)) ih
    rw [hbyte] at hnumber
    have hvalue : n % 128 + 128 - 128 + 128 * (n / 128) = n := by omega
    rwa [hvalue] at hnumber

theorem length_writeVarint_le {budget n : Nat} (h : n < 2 * 128 ^ budget) :
    (writeVarint n).length ≤ budget + 1 := by
  induction budget generalizing n with
  | zero =>
    rw [writeVarint, if_pos (by simp at h; omega)]
    exact Nat.le_refl _
  | succ budget ih =>
    rw [writeVarint]
    split
    · exact Nat.le_add_left ..
    · have hhigh : n / 128 < 2 * 128 ^ budget := by
        rw [pow_succ] at h
        omega
      exact Nat.succ_le_succ (ih hhigh)

theorem isVarint_writeVarint {n : Nat} (h : n < UInt64.size) : IsVarint (writeVarint n) n :=
  ⟨isNumber_writeVarint n, length_writeVarint_le h, h⟩

theorem int32Bits_lt (x : Int32) : int32Bits x < UInt64.size := UInt64.toNat_lt _

theorem int32OfBits_int32Bits (x : Int32) : int32OfBits (int32Bits x) = x := by
  apply Int32.toBitVec_inj.1
  ext i hi
  have hwide : i < 64 := by omega
  simp [int32OfBits, int32Bits, BitVec.getLsbD_eq_getElem hwide, BitVec.getElem_signExtend, hi]

/-! ### Payloads -/

namespace Payload

@[simp] theorem string?_ofString (s : String) : (ofString s).string? = some s :=
  Text.fromUTF8?_toList_toUTF8 s

@[simp] theorem int32?_ofInt32 (x : Int32) : (ofInt32 x).int32? = some x :=
  congrArg some (int32OfBits_int32Bits x)

theorem isPacked_flatMap (xs : List Int32) :
    IsPacked (xs.flatMap fun x => writeVarint (int32Bits x)) xs := by
  induction xs with
  | nil => exact .nil
  | cons x xs ih =>
    have hpacked := IsPacked.cons (isVarint_writeVarint (int32Bits_lt x)) ih
    rwa [int32OfBits_int32Bits] at hpacked

@[simp] theorem int32s?_pack (xs : List Int32) : (pack xs).int32s? = some xs :=
  (isPacked_flatMap xs).unpack

end Payload

/-! ### Fields -/

def FitsKey (number : Nat) : Prop := 0 < number ∧ number * 8 + 7 < UInt32.size

instance (number : Nat) : Decidable (FitsKey number) := by unfold FitsKey; infer_instance

structure Field.Fits (f : Field) : Prop where
  key : FitsKey f.number
  varint : ∀ n, f.payload = .varint n → n < UInt64.size
  plain : f.payload ≠ .group

theorem fits_bytes {number : Nat} (h : FitsKey number) (data : List UInt8) :
    Field.Fits ⟨number, .bytes data⟩ :=
  ⟨h, by simp, by simp⟩

theorem fits_varint {number : Nat} (h : FitsKey number) {n : Nat} (hn : n < UInt64.size) :
    Field.Fits ⟨number, .varint n⟩ :=
  ⟨h, by simpa, by simp⟩

theorem isKey_writeKey {number : Nat} (h : FitsKey number) (form : Form) :
    IsKey (writeKey number form.code) number form := by
  have hcode := form.code_lt
  have hkey : number * 8 + form.code < UInt32.size := Nat.lt_of_le_of_lt (by omega) h.2
  exact ⟨isVarint_writeVarint (Nat.lt_trans hkey (by decide)), hkey, h.1⟩

theorem length_data_le (number : Nat) (data : List UInt8) :
    data.length ≤ (Field.write ⟨number, .bytes data⟩).length := by
  rw [Field.write, List.length_append]
  exact Nat.le_add_left ..

theorem readField_write {f : Field} (h : f.Fits) (hlength : f.write.length < UInt64.size)
    (limit : Nat) :
    readField limit f.write = some (f, []) := by
  obtain ⟨number, payload⟩ := f
  have hkey := isKey_writeKey h.key
  cases payload with
  | varint n =>
    exact readField_of_isPlain (hkey .varint)
      (.varint (isVarint_writeVarint (h.varint n rfl))) limit
  | bytes data =>
    have hdata : data.length < UInt64.size :=
      Nat.lt_of_le_of_lt (length_data_le number data) hlength
    have hfield := readField_of_isPlain (hkey .bytes) (.bytes (isVarint_writeVarint hdata)) limit
    rwa [← List.append_assoc] at hfield
  | fixed64 => exact readField_of_isPlain (hkey .fixed64) (.fixed64 rfl) limit
  | fixed32 => exact readField_of_isPlain (hkey .fixed32) (.fixed32 rfl) limit
  | group => exact absurd rfl h.plain

@[simp] theorem writeFields_nil : writeFields [] = [] := rfl

@[simp] theorem writeFields_cons (f : Field) (fs : List Field) :
    writeFields (f :: fs) = f.write ++ writeFields fs := rfl

@[simp] theorem writeFields_append (fs gs : List Field) :
    writeFields (fs ++ gs) = writeFields fs ++ writeFields gs :=
  List.flatMap_append

theorem readFields_writeFields {fs : List Field} (h : ∀ f ∈ fs, f.Fits)
    (hlength : (writeFields fs).length < UInt64.size) (limit : Nat) :
    readFields limit (writeFields fs) = some fs := by
  induction fs with
  | nil => exact readFields_nil limit
  | cons f fs ih =>
    obtain ⟨hf, hfs⟩ := List.forall_mem_cons.1 h
    rw [writeFields_cons, List.length_append] at hlength
    have hfield := readField_write hf (by omega) limit
    exact readFields_append_eq_some (readFields_singleton hfield) (ih hfs (by omega))

theorem readFields_of_cut {limit : Nat} {fs : List Field} {cut : List UInt8}
    (hfits : ∀ f ∈ fs, f.Fits) (hlength : (writeFields fs).length < UInt64.size)
    (hcut : cut <+: writeFields fs) :
    (∃ k ≤ fs.length, cut = writeFields (fs.take k)) ∨ readFields limit cut = none := by
  induction fs generalizing cut with
  | nil => exact .inl ⟨0, Nat.le_refl 0, List.prefix_nil.1 hcut⟩
  | cons f fs ih =>
    rw [writeFields_cons] at hcut hlength
    rw [List.length_append] at hlength
    have hread : readField limit f.write = some (f, []) :=
      readField_write (hfits f List.mem_cons_self) (by omega) limit
    rcases List.prefix_or_prefix_of_prefix hcut (List.prefix_append _ _) with hinside | ⟨tail, rfl⟩
    · by_cases hempty : cut = []
      · exact .inl ⟨0, Nat.zero_le _, hempty⟩
      by_cases hwhole : cut = f.write
      · exact .inl ⟨1, by simp, by simpa using hwhole⟩
      exact .inr (readFields_eq_none hempty (readField_eq_none_of_cut hread hinside hwhole))
    · -- The first field is whole, so the cut goes through the others.
      have hrest := ih (fun g hg => hfits g (List.mem_cons_of_mem f hg)) (by omega)
        ((List.prefix_append_right_inj _).1 hcut)
      rcases hrest with ⟨k, hk, rfl⟩ | hnone
      · exact .inl ⟨k + 1, Nat.succ_le_succ hk, by rw [List.take_succ_cons, writeFields_cons]⟩
      · exact .inr (by rw [readFields_append (readFields_singleton hread), hnone, Option.map_none])

end CodeAtlas.Wire
