import CodeAtlas.Proofs.Symbol.Beginning
import Mathlib.Logic.Function.Iterate

/-! Enclosing symbols. Each has the descriptors of the symbol up to some point, in their canonical
spelling, and is the symbol that the uri itself spells up to that point where it quotes no
identifier. -/

namespace CodeAtlas

open SymbolText

namespace SymbolParts

def upTo (p : SymbolParts) (j : Nat) : SymbolParts := { p with descriptors := p.descriptors.take j }

variable {p : SymbolParts} {j : Nat}

theorem LegalGlobal.upTo (h : p.LegalGlobal) (hj : 0 < j) : (p.upTo j).LegalGlobal := by
  refine ⟨h.scheme_ne, h.scheme_not_local, h.manager, h.name, h.version, ?_, ?_⟩
  · rw [SymbolParts.upTo, Ne, List.take_eq_nil_iff, not_or]
    exact ⟨Nat.ne_of_gt hj, h.descriptors_ne⟩
  · exact fun d hd => h.descriptors d (List.mem_of_mem_take hd)

theorem isLocal_upTo (p : SymbolParts) (hj : 0 < j) : (p.upTo j).isLocal = p.isLocal := by
  rw [isLocal, upTo, List.head?_take, if_neg (Nat.ne_of_gt hj)]
  rfl

theorem LegalGlobal.isLocal_eq_false (h : p.LegalGlobal) : p.isLocal = false := by
  obtain ⟨d, ds, hds⟩ := List.exists_cons_of_ne_nil h.descriptors_ne
  have hkind : d.kind ≠ .localId := (h.descriptors d (hds ▸ List.mem_cons_self)).kind_ne
  simp [isLocal, hds, hkind]

theorem legalGlobal_of_isLocal_eq_false (h : p.Legal) (hlocal : p.isLocal = false) :
    p.LegalGlobal := by
  refine h.resolve_left ?_
  rintro ⟨-, -, id, -, hds⟩
  simp [isLocal, hds] at hlocal

theorem LegalGlobal.chars_upTo_prefix (h : p.LegalGlobal) (hj : 0 < j) :
    (p.upTo j).chars <+: p.chars := by
  have hsplit : p.descriptors.flatMap Descriptor.chars =
      (p.descriptors.take j).flatMap Descriptor.chars ++
        (p.descriptors.drop j).flatMap Descriptor.chars := by
    rw [← List.flatMap_append, List.take_append_drop]
  rw [chars_of_forall_legal (h.upTo hj).descriptors, chars_of_forall_legal h.descriptors, hsplit,
    ← List.append_assoc]
  exact List.prefix_append _ _

theorem LegalGlobal.exists_endsAfter (h : p.LegalGlobal) {u : String} (hu : Spells u.toList p)
    (hj : 0 < j) :
    ∃ v, EndsAfter u (min j p.descriptors.length) v ∧ Spells v.toList (p.upTo j) := by
  have hlocal : ¬localMark <+: u.toList := by
    rintro ⟨id, hid⟩
    rw [← hid, spells_local_iff] at hu
    have hparts := h.isLocal_eq_false
    rw [hu.2] at hparts
    cases hparts
  obtain ⟨chain, hh, -, hd⟩ := (spells_global_iff hlocal).1 hu
  obtain ⟨before, after, rfl, hbefore, -⟩ := hd.exists_split j
  obtain ⟨v, hends, hv, -⟩ := hh.exists_endsAfter hbefore
  refine ⟨v, List.length_take ▸ hends, ?_⟩
  rw [hv]
  have hheader := h.spellsHeader hbefore.head?_ne_space
  exact .global (h.not_localMark_prefix before) hheader (h.upTo hj).descriptors_ne hbefore

end SymbolParts

namespace Symbol

/-- The `k`-th enclosing symbol, for zero the symbol itself. -/
def ancestor? (s : Symbol) (k : Nat) : Option Symbol :=
  (fun found => found.bind parent?)^[k] (some s)

variable {u : String} {s : Symbol} {k : Nat}

theorem ancestor?_succ (s : Symbol) (k : Nat) :
    s.ancestor? (k + 1) = s.parent?.bind fun p => p.ancestor? k := by
  have hnone : (fun found : Option Symbol => found.bind parent?)^[k] none = none := by
    exact Function.iterate_fixed rfl k
  rw [ancestor?, Function.iterate_succ_apply, Option.bind_some]
  cases s.parent? with
  | none => exact hnone
  | some p => rfl

theorem parent?_eq_some_iff {p : Symbol} : s.parent? = some p ↔
    s.parts.isLocal = false ∧ 1 < s.parts.descriptors.length ∧
      p = ofParts (s.parts.upTo (s.parts.descriptors.length - 1)) := by
  rw [parent?, SymbolParts.upTo, List.dropLast_eq_take]
  cases s.parts.isLocal with
  | true => simp
  | false => simp [eq_comm, Nat.lt_iff_add_one_le]

theorem length_of_parent? {p : Symbol} (h : s.parent? = some p) :
    p.parts.descriptors.length = s.parts.descriptors.length - 1 ∧
      1 < s.parts.descriptors.length := by
  obtain ⟨-, hlong, rfl⟩ := parent?_eq_some_iff.1 h
  exact ⟨by simp [ofParts, SymbolParts.upTo], hlong⟩

theorem ancestor?_eq_none_of_le (h : s.parts.descriptors.length ≤ k) (hk : 0 < k) :
    s.ancestor? k = none := by
  induction k generalizing s with
  | zero => cases hk
  | succ k ih =>
    rw [ancestor?_succ]
    cases hparent : s.parent? with
    | none => rfl
    | some p =>
      obtain ⟨hlength, hlong⟩ := length_of_parent? hparent
      exact ih (by omega) (by omega)

theorem ancestor?_eq_some (hlocal : s.parts.isLocal = false) (hk : 0 < k)
    (h : k < s.parts.descriptors.length) :
    s.ancestor? k = some (ofParts (s.parts.upTo (s.parts.descriptors.length - k))) := by
  induction k generalizing s with
  | zero => cases hk
  | succ k ih =>
    have hparent := parent?_eq_some_iff.2 ⟨hlocal, by omega, rfl⟩
    rw [ancestor?_succ, hparent, Option.bind_some]
    obtain ⟨hlength, -⟩ := length_of_parent? hparent
    rcases Nat.eq_zero_or_pos k with rfl | hk
    · rfl
    · have hlocal' : (s.parts.upTo (s.parts.descriptors.length - 1)).isLocal = false :=
        (SymbolParts.isLocal_upTo s.parts (by omega)).trans hlocal
      rw [ih hlocal' hk (by omega), hlength]
      have hmin : min (s.parts.descriptors.length - 1 - k) (s.parts.descriptors.length - 1) =
          s.parts.descriptors.length - (k + 1) := by omega
      simp only [ofParts, SymbolParts.upTo, List.take_take, hmin]

theorem getElem?_go {fuel : Nat} (h : s.parts.descriptors.length ≤ fuel) (k : Nat) :
    (ancestors.go fuel s)[k]? = s.ancestor? (k + 1) := by
  induction fuel generalizing s k with
  | zero =>
    rw [ancestor?_eq_none_of_le (by omega) (Nat.succ_pos k), ancestors.go, List.getElem?_nil]
  | succ fuel ih =>
    rw [ancestors.go, ancestor?_succ]
    cases hparent : s.parent? with
    | none => rfl
    | some p =>
      obtain ⟨hlength, -⟩ := length_of_parent? hparent
      cases k with
      | zero => rfl
      | succ k => exact ih (by omega) k

theorem getElem?_ancestors (s : Symbol) (k : Nat) : s.ancestors[k]? = s.ancestor? (k + 1) :=
  getElem?_go (Nat.le_refl _) k

theorem length_ancestors (hlocal : s.parts.isLocal = false) (hne : s.parts.descriptors ≠ []) :
    s.ancestors.length + 1 = s.parts.descriptors.length := by
  have hpos := List.length_pos_iff.2 hne
  have hend : s.ancestors.length ≤ s.parts.descriptors.length - 1 := by
    rw [← List.getElem?_eq_none_iff, getElem?_ancestors]
    exact ancestor?_eq_none_of_le (by omega) (Nat.succ_pos _)
  have hall : s.parts.descriptors.length - 1 ≤ s.ancestors.length := by
    by_contra hshort
    have hnone : s.ancestors[s.ancestors.length]? = none := List.getElem?_eq_none (Nat.le_refl _)
    rw [getElem?_ancestors, ancestor?_eq_some hlocal (Nat.succ_pos _) (by omega)] at hnone
    cases hnone
  omega

/-- A symbol with `n` descriptors has `n - 1` enclosing ones, the `k`-th with the first `n - k` of
them. It is spelled at the beginning of the canonical uri, and as the uri itself spells it only if
no identifier is quoted there. Local symbols have none. -/
theorem ancestors_spelled (h : parse? u = .ok s) :
    (s.parts.isLocal = true → s.parent? = none ∧ s.ancestors = []) ∧
      (s.parts.isLocal = false →
        s.ancestors.length + 1 = s.parts.descriptors.length ∧
          (∀ k, s.ancestors[k]? = s.ancestor? (k + 1)) ∧
        ∀ k, 0 < k → k < s.parts.descriptors.length →
          ∃ a, s.ancestor? k = some a ∧ a.parts = s.parts.upTo (s.parts.descriptors.length - k) ∧
            parse? a.uri = .ok a ∧ a.uri.toList <+: s.canonicalUri.toList ∧ a.uri ≠ s.canonicalUri ∧
            ∃ v t, (∀ w, EndsAfter u (s.parts.descriptors.length - k) w ↔ w = v) ∧
              parse? v = .ok t ∧
              t.parts = a.parts ∧ (a == t ↔ ¬QuotesIdentifier v.toList)) := by
  obtain ⟨-, hspells⟩ := parse?_eq_ok_iff.1 h
  constructor
  · intro hlocal
    have hparent : s.parent? = none := by simp [parent?, hlocal]
    refine ⟨hparent, ?_⟩
    rw [← List.head?_eq_none_iff, List.head?_eq_getElem?, getElem?_ancestors, ancestor?_succ,
      hparent]
    rfl
  · intro hlocal
    have hglobal := SymbolParts.legalGlobal_of_isLocal_eq_false hspells.legal hlocal
    refine ⟨length_ancestors hlocal hglobal.descriptors_ne, getElem?_ancestors s,
      fun k hk hlt => ?_⟩
    have hj : 0 < s.parts.descriptors.length - k := by omega
    have hlegal : (s.parts.upTo (s.parts.descriptors.length - k)).Legal := .inr (hglobal.upTo hj)
    obtain ⟨v, hends, hv⟩ := hglobal.exists_endsAfter hspells hj
    rw [Nat.min_eq_left (Nat.sub_le _ _)] at hends
    have hread : parse? v = .ok ⟨v, s.parts.upTo (s.parts.descriptors.length - k)⟩ :=
      parse?_eq_ok_iff.2 ⟨rfl, hv⟩
    refine ⟨_, ancestor?_eq_some hlocal hk hlt, rfl, parse?_ofParts hlegal, ?_, ?_, v, _,
      fun w => ?_, hread, rfl, ?_⟩
    · rw [canonicalUri_toList, ofParts, SymbolParts.uri, String.toList_ofList]
      exact hglobal.chars_upTo_prefix hj
    · intro heq
      have hwhole := parse?_canonicalUri h
      rw [← heq, parse?_ofParts hlegal] at hwhole
      have hlength := congrArg (fun a : Symbol => a.parts.descriptors.length) (Except.ok.inj hwhole)
      simp only [ofParts, SymbolParts.upTo, List.length_take] at hlength
      omega
    · exact ⟨fun hw => hw.unique hends, fun hw => hw ▸ hends⟩
    · rw [beq_iff, ← canonicalUri_eq_iff_not_quotes hread]
      rfl

def quotedModule : String := String.ofList (functionParts.header ++ "\x60demo\x60/".toList)

theorem endsAfter_quotedModule : EndsAfter quotedFunction 1 quotedModule := by
  have hmodule : SpellsChain "\x60demo\x60/".toList [⟨"demo", .scope, none⟩] :=
    .cons spellsDescriptor_quotedModule .nil
  have hheader : SpellsHeader quotedFunction.toList functionParts.scheme functionParts.package
      ("\x60demo\x60/".toList ++ "f().".toList) := spellsHeader_quotedFunction
  refine ⟨_, _, _, _, _, hheader, hmodule, rfl, ?_⟩
  rw [quotedFunction, quotedModule, String.toList_ofList, String.toList_ofList, List.append_assoc]
  rfl

theorem quotesIdentifier_quotedModule : QuotesIdentifier quotedModule.toList := by
  have hquotes : QuotesName "\x60demo\x60/".toList ⟨"demo", .scope, none⟩ :=
    ⟨by decide, [], ['/'], by decide⟩
  rw [quotedModule, String.toList_ofList]
  have hhead : "\x60demo\x60/".toList.head? ≠ some ' ' := by decide
  exact .mk (functionParts_legalGlobal.not_localMark_prefix _)
    (functionParts_legalGlobal.spellsHeader hhead)
    (.mk .nil spellsDescriptor_quotedModule .nil hquotes)

theorem ancestors_spelled_quotedFunction :
    parse? quotedFunction = .ok ⟨quotedFunction, functionParts⟩ ∧
      (Symbol.mk quotedFunction functionParts).ancestors.length = 1 ∧
      ∃ a t, (Symbol.mk quotedFunction functionParts).ancestor? 1 = some a ∧
        parse? quotedModule = .ok t ∧
        t.parts = a.parts ∧ ¬a == t := by
  have hlocal : (Symbol.mk quotedFunction functionParts).parts.isLocal = false := by decide
  have hdescriptors : (Symbol.mk quotedFunction functionParts).parts.descriptors.length = 2 := rfl
  obtain ⟨-, hglobal⟩ := ancestors_spelled parse?_quotedFunction
  obtain ⟨hlength, -, hancestor⟩ := hglobal hlocal
  obtain ⟨a, ha, -, -, -, -, v, t, hends, hread, hparts, hsame⟩ :=
    hancestor 1 (by decide) (by decide)
  obtain rfl := (hends quotedModule).1 endsAfter_quotedModule
  refine ⟨parse?_quotedFunction, by omega, a, t, ha, hread, hparts, fun heq => ?_⟩
  exact hsame.1 heq quotesIdentifier_quotedModule

end Symbol
end CodeAtlas
