import CodeAtlas.Proofs.Index.RoundTrip

/-! An encoding that is cut off is refused, unless it is cut between two fields of the index. -/

namespace CodeAtlas

open Wire

namespace Index

/-- The index with the first `k` of its fields: the metadata, then the documents, then the symbols
of other packages. -/
def firstFields (x : Index) (k : Nat) : Index where
  metadata := (x.metadata.toList.take k).head?
  documents := x.documents.take (k - x.metadata.toList.length)
  externalSymbols := x.externalSymbols.take (k - x.metadata.toList.length - x.documents.length)

theorem toList_head?_take {α : Type} (a : Option α) (k : Nat) :
    (a.toList.take k).head?.toList = a.toList.take k := by
  cases a with
  | none => simp
  | some a => cases k <;> simp

theorem fields_firstFields (x : Index) (k : Nat) : (x.firstFields k).fields = x.fields.take k := by
  simp only [fields, firstFields, toList_head?_take, List.map_take, List.take_append,
    List.length_append, List.length_map, Nat.sub_sub]

theorem decode?_firstFields {x : Index} (hx : x.encode.length < UInt64.size) (k : Nat) :
    decode? (writeFields (x.fields.take k)) = some (x.firstFields k) := by
  have hparts := writeFields_append (x.fields.take k) (x.fields.drop k)
  rw [List.take_append_drop] at hparts
  have hlength : (writeFields (x.fields.take k)).length ≤ x.encode.length := by
    rw [encode, hparts, List.length_append]
    omega
  have hread := (absorbs {} (x.firstFields k)).read (by rw [fields_firstFields]; omega) nestingLimit
  rwa [merge_default, fields_firstFields] at hread

/-- The part of an encoding in front of a cut can be read only if the cut is between two fields; it
is then the encoding of an index with the first fields only. -/
theorem decode?_prefix_eq_some_iff {x y : Index} {cut : List UInt8}
    (hx : x.encode.length < UInt64.size) (hcut : cut <+: x.encode) :
    decode? cut = some y ↔ ∃ k ≤ x.fields.length, cut = writeFields (x.fields.take k) ∧
      y = x.firstFields k := by
  constructor
  · intro hread
    rcases readFields_of_cut (absorbs {} x).fits hx hcut with ⟨k, hk, rfl⟩ | hnone
    · rw [decode?_firstFields hx, Option.some.injEq] at hread
      exact ⟨k, hk, rfl, hread.symm⟩
    · rw [decode?, readMessage, hnone] at hread
      cases hread
  · rintro ⟨k, -, rfl, rfl⟩
    exact decode?_firstFields hx k

theorem decode?_prefix_two_fields :
    let x : Index := { documents := [{ path := "a" }], externalSymbols := [{}] }
    x.encode = [18, 3, 10, 1, 97, 26, 0] ∧ decode? [18, 3, 10, 1, 97] =
      some { documents := [{ path := "a" }] } ∧
      decode? [18, 3, 10, 1] = none := by
  intro x
  have hencode : x.encode = [18, 3, 10, 1, 97, 26, 0] := by decide +kernel
  have hlength : x.encode.length < UInt64.size := by
    rw [hencode]
    decide
  have hfirst : [18, 3, 10, 1, 97] = writeFields (x.fields.take 1) := by decide +kernel
  refine ⟨hencode, (decode?_prefix_eq_some_iff hlength ?_).2 ⟨1, by decide, hfirst, rfl⟩, ?_⟩
  · rw [hencode]
    decide
  · rw [Option.eq_none_iff_forall_ne_some]
    intro y hy
    have hcut : [18, 3, 10, 1] <+: x.encode := by
      rw [hencode]
      decide
    obtain ⟨k, hk, hbytes, -⟩ := (decode?_prefix_eq_some_iff hlength hcut).1 hy
    have hcount : x.fields.length = 2 := rfl
    obtain rfl | rfl | rfl : k = 0 ∨ k = 1 ∨ k = 2 := by omega
    · cases hbytes
    · cases hbytes.trans hfirst.symm
    · cases hbytes.trans hencode

end Index

end CodeAtlas
