import CodeAtlas.Proofs.Symbol.Canonical

/-! Beginnings of symbol uris that end where a descriptor ends. -/

namespace CodeAtlas.SymbolText

theorem SpellsChain.exists_split {text : List Char} {ds : List Descriptor} (h : SpellsChain text ds)
    (j : Nat) :
    ∃ before after, text = before ++ after ∧ SpellsChain before (ds.take j) ∧
      SpellsChain after (ds.drop j) := by
  induction h generalizing j with
  | nil => exact ⟨[], [], rfl, by simpa using .nil, by simpa using .nil⟩
  | @cons text rest d ds hd hs ih =>
    cases j with
    | zero => exact ⟨[], text ++ rest, rfl, .nil, .cons hd hs⟩
    | succ j =>
      obtain ⟨before, after, rfl, hbefore, hafter⟩ := ih j
      exact ⟨text ++ before, after, (List.append_assoc _ _ _).symm, .cons hd hbefore, hafter⟩

theorem SpellsChain.append_inj {text text' rest rest' : List Char} {ds ds' : List Descriptor}
    (h : SpellsChain text ds) (h' : SpellsChain text' ds') (hlength : ds.length = ds'.length)
    (heq : text ++ rest = text' ++ rest') :
    text = text' ∧ rest = rest' := by
  induction h generalizing text' ds' with
  | nil =>
    obtain rfl := List.length_eq_zero_iff.1 hlength.symm
    cases h'
    exact ⟨rfl, heq⟩
  | @cons written more d ds hd hs ih =>
    cases h' with
    | nil => cases hlength
    | @cons written' more' d' ds' hd' hs' =>
      rw [List.append_assoc, List.append_assoc] at heq
      have hread : readDescriptor (written ++ (more ++ rest)) = .ok (d, more ++ rest) :=
        readDescriptor_of_spellsDescriptor hd
      rw [heq, readDescriptor_of_spellsDescriptor hd'] at hread
      obtain ⟨-, hmore⟩ := Prod.mk.inj (Except.ok.inj hread)
      obtain ⟨rfl, rfl⟩ := ih hs' (Nat.succ.inj hlength) hmore.symm
      rw [List.append_cancel_right heq]
      exact ⟨rfl, rfl⟩

/-- A beginning of a uri that consists of the header and `j` descriptors. -/
def EndsAfter (u : String) (j : Nat) (v : String) : Prop :=
  ∃ scheme package before after ds, SpellsHeader u.toList scheme package (before ++ after) ∧
    SpellsChain before ds ∧
    ds.length = j ∧ u.toList = v.toList ++ after

theorem EndsAfter.unique {u v w : String} {j : Nat} (h : EndsAfter u j v) (h' : EndsAfter u j w) :
    v = w := by
  obtain ⟨scheme, package, before, after, ds, hh, hd, rfl, heq⟩ := h
  obtain ⟨scheme', package', before', after', ds', hh', hd', hlength, heq'⟩ := h'
  obtain ⟨-, rfl⟩ := hd.append_inj hd' hlength.symm (hh.chain_unique hh')
  exact String.toList_inj.1 (List.append_cancel_right (heq.symm.trans heq'))

theorem SpellsHeader.exists_endsAfter {u scheme : String} {package : Package}
    {before after : List Char} {ds : List Descriptor}
    (h : SpellsHeader u.toList scheme package (before ++ after)) (hd : SpellsChain before ds) :
    ∃ v, EndsAfter u ds.length v ∧ v.toList = (SymbolParts.mk scheme package ds).header ++ before ∧
      u.toList = v.toList ++ after := by
  let v := String.ofList ((SymbolParts.mk scheme package ds).header ++ before)
  have hv : v.toList = (SymbolParts.mk scheme package ds).header ++ before := String.toList_ofList
  have hu : u.toList = v.toList ++ after := by
    rw [hv, List.append_assoc]
    exact h.eq_append ds
  exact ⟨v, ⟨scheme, package, before, after, ds, h, hd, rfl, hu⟩, hv, hu⟩

end CodeAtlas.SymbolText
