import CodeAtlas.Proofs.Symbol.Grammar
import CodeAtlas.Symbol.Parser

/-! Reading accepts exactly the grammar of symbol uris: every step of the reader takes a text that
spells what it answers with, and any text that spells something is read as just that. -/

namespace CodeAtlas.SymbolText

/-! ### Texts between marks -/

theorem head?_doubled (mark : Char) (s : List Char) : (doubled mark s).head? = s.head? := by
  cases s with
  | nil => rfl
  | cons c s => by_cases h : c = mark <;> simp [h]

theorem readClosed_cons_of_ne {mark c : Char} (h : c ≠ mark) (t : List Char) :
    readClosed mark (c :: t) = (readClosed mark t).map fun (s, r) => (c :: s, r) := by
  cases t <;> simp [readClosed, h]

theorem readClosed_doubled {mark : Char} {rest : List Char} (h : rest.head? ≠ some mark)
    (s : List Char) : readClosed mark (doubled mark s ++ mark :: rest) = some (s, rest) := by
  induction s with
  | nil =>
    cases rest with
    | nil => simp [readClosed]
    | cons d rest =>
      have hd : d ≠ mark := by simpa using h
      simp [readClosed, hd]
  | cons c s ih =>
    by_cases hc : c = mark
    · subst hc
      simp [readClosed, ih]
    · simp [hc, readClosed_cons_of_ne, ih]

theorem eq_doubled_of_readClosed {mark : Char} {t s rest : List Char}
    (h : readClosed mark t = some (s, rest)) :
    t = doubled mark s ++ mark :: rest ∧ rest.head? ≠ some mark := by
  -- case4 is a doubled mark, case5 the mark that closes and case6 any other character
  fun_induction readClosed mark t generalizing s rest with
  | case1 => simp at h
  | case2 => simp_all
  | case3 => simp at h
  | case4 tail ih =>
    obtain ⟨⟨v, r⟩, hr, he⟩ := Option.map_eq_some_iff.1 h
    obtain ⟨rfl, rfl⟩ := Prod.mk.inj he
    obtain ⟨rfl, hhead⟩ := ih hr
    exact ⟨by simp, hhead⟩
  | case5 d tail hd =>
    obtain ⟨rfl, rfl⟩ := Prod.mk.inj (Option.some.inj h)
    exact ⟨by simp, by simpa using hd⟩
  | case6 c d tail hc ih =>
    obtain ⟨⟨v, r⟩, hr, he⟩ := Option.map_eq_some_iff.1 h
    obtain ⟨rfl, rfl⟩ := Prod.mk.inj he
    obtain ⟨ht, hhead⟩ := ih hr
    exact ⟨by simp [hc, ht], hhead⟩

/-! ### Names -/

def EndsName (c : Char) : Prop := isIdentifierChar c = false ∧ c ≠ backtick

theorem takeWhile_identifier {s : List Char} (rest : List Char) {c : Char}
    (hs : ∀ a ∈ s, isIdentifierChar a) (hc : isIdentifierChar c = false) :
    (s ++ c :: rest).takeWhile isIdentifierChar = s := by
  rw [List.takeWhile_append_of_pos hs, List.takeWhile_cons_of_neg (by simp [hc]), List.append_nil]

theorem dropWhile_identifier {s : List Char} (rest : List Char) {c : Char}
    (hs : ∀ a ∈ s, isIdentifierChar a) (hc : isIdentifierChar c = false) :
    (s ++ c :: rest).dropWhile isIdentifierChar = c :: rest := by
  rw [List.dropWhile_append_of_pos hs, List.dropWhile_cons_of_neg (by simp [hc])]

theorem isIdentifierChar_of_mem_takeWhile {s : List Char} :
    ∀ a ∈ s.takeWhile isIdentifierChar, isIdentifierChar a :=
  List.all_eq_true.1 List.all_takeWhile

theorem readName_of_spellsName {text rest : List Char} {name : String} {c : Char}
    (h : SpellsName text name) (hc : EndsName c) :
    readName (text ++ c :: rest) = .ok (name, c :: rest) := by
  cases h with
  | bare hs =>
    obtain ⟨hne, hs⟩ := isIdentifier_iff.1 hs
    obtain ⟨a, s, rfl⟩ := List.exists_cons_of_ne_nil hne
    -- a backtick is not an identifier character, so the reader takes the bare branch
    have ha : a ≠ backtick := by
      rintro rfl
      exact absurd (hs backtick List.mem_cons_self) (by decide)
    have ht := takeWhile_identifier rest hs hc.1
    have hd := dropWhile_identifier rest hs hc.1
    rw [List.cons_append] at ht hd ⊢
    simp [readName, ha, ht, hd]
  | quoted hs =>
    have hhead : (c :: rest).head? ≠ some backtick := by simpa using hc.2
    simp [readName, quotedName, readClosed_doubled hhead, hs]

theorem spellsName_of_readName {s rest : List Char} {name : String}
    (h : readName s = .ok (name, rest)) : ∃ text, s = text ++ rest ∧ SpellsName text name := by
  unfold readName at h
  split at h
  · cases h
  · rename_i c tail
    split at h
    · rename_i hc
      split at h
      · cases h
      · rename_i value after hq
        split at h
        · cases h
        · rename_i hv
          obtain ⟨rfl, rfl⟩ := Prod.mk.inj (Except.ok.inj h)
          obtain ⟨rfl, _⟩ := eq_doubled_of_readClosed hq
          exact ⟨quotedName value, by simp [quotedName, hc], .quoted (by simpa using hv)⟩
    · simp only at h
      split at h
      · cases h
      · rename_i hv
        obtain ⟨rfl, rfl⟩ := Prod.mk.inj (Except.ok.inj h)
        refine ⟨_, List.takeWhile_append_dropWhile.symm, .bare (isIdentifier_iff.2 ⟨?_, ?_⟩)⟩
        · simpa using hv
        · exact isIdentifierChar_of_mem_takeWhile

theorem SpellsName.exists_cons {text : List Char} {name : String} (h : SpellsName text name) :
    ∃ c t, text = c :: t ∧ c ≠ '(' ∧ c ≠ '[' ∧ c ≠ ' ' := by
  cases h with
  | bare hs =>
    obtain ⟨hne, hs⟩ := isIdentifier_iff.1 hs
    obtain ⟨a, s, rfl⟩ := List.exists_cons_of_ne_nil hne
    have ha : isIdentifierChar a := hs a List.mem_cons_self
    refine ⟨a, s, rfl, ?_, ?_, ?_⟩ <;> rintro rfl <;> exact absurd ha (by decide)
  | quoted hs => exact ⟨backtick, _, rfl, by decide, by decide, by decide⟩

/-! ### Descriptors -/

theorem readBracketed_eq_ok_iff {kind : DescriptorKind} {close : Char} (hc : EndsName close)
    {s rest : List Char} {d : Descriptor} :
    readBracketed kind close s = .ok (d, rest) ↔
      ∃ text name, SpellsName text name ∧ s = text ++ close :: rest ∧ d = ⟨name, kind, none⟩ := by
  constructor
  · intro h
    obtain ⟨⟨name, afterName⟩, hn, h⟩ := bind_eq_ok_iff.1 h
    obtain ⟨afterClose, he, h⟩ := bind_eq_ok_iff.1 h
    obtain ⟨rfl, rfl⟩ := Prod.mk.inj (Except.ok.inj h)
    obtain ⟨text, rfl, hname⟩ := spellsName_of_readName hn
    have hclose := expect_eq_ok_iff.1 he
    exact ⟨text, name, hname, by rw [hclose], rfl⟩
  · rintro ⟨text, name, hname, rfl, rfl⟩
    refine bind_eq_ok_iff.2 ⟨_, readName_of_spellsName hname hc, ?_⟩
    exact bind_eq_ok_iff.2 ⟨_, expect_eq_ok_iff.2 rfl, rfl⟩

theorem readMethod_eq_ok_iff {name : String} {s rest : List Char} {d : Descriptor} :
    readMethod name s = .ok (d, rest) ↔
      ∃ tag : Option String, (∀ t ∈ tag, isIdentifier t.toList) ∧
        s = (tag.getD "").toList ++ ')' :: '.' :: rest ∧ d = ⟨name, .method, tag⟩ := by
  constructor
  · intro h
    obtain ⟨afterTag, hc, h⟩ := bind_eq_ok_iff.1 h
    obtain ⟨afterDot, he, h⟩ := bind_eq_ok_iff.1 h
    obtain ⟨hd, hrest⟩ := Prod.mk.inj (Except.ok.inj h)
    subst hrest
    have hs : s = s.takeWhile isIdentifierChar ++ ')' :: '.' :: afterDot := by
      rw [← expect_eq_ok_iff.1 he, ← expect_eq_ok_iff.1 hc, List.takeWhile_append_dropWhile]
    -- an empty run means that there is no disambiguator
    by_cases hempty : s.takeWhile isIdentifierChar = []
    · rw [hempty] at hs
      exact ⟨none, by simp, by simpa using hs, by simp [← hd, hempty]⟩
    · refine ⟨some (String.ofList (s.takeWhile isIdentifierChar)), ?_, by simpa using hs,
        by simp [← hd, hempty]⟩
      intro t ht
      rw [← Option.mem_some.1 ht, String.toList_ofList]
      exact isIdentifier_iff.2 ⟨hempty, isIdentifierChar_of_mem_takeWhile⟩
  · rintro ⟨tag, htag, rfl, rfl⟩
    have hchars : ∀ a ∈ (tag.getD "").toList, isIdentifierChar a := by
      cases tag with
      | none => simp
      | some t => exact (isIdentifier_iff.1 (htag t rfl)).2
    have hclose : isIdentifierChar ')' = false := by decide
    unfold readMethod
    rw [takeWhile_identifier _ hchars hclose, dropWhile_identifier _ hchars hclose]
    refine bind_eq_ok_iff.2 ⟨_, expect_eq_ok_iff.2 rfl, ?_⟩
    refine bind_eq_ok_iff.2 ⟨_, expect_eq_ok_iff.2 rfl, ?_⟩
    cases tag with
    | none => rfl
    | some t =>
      have hne := (isIdentifier_iff.1 (htag t rfl)).1
      simp [pure, Except.pure, hne]

theorem spellsDescriptor_of_suffixKind? {text : List Char} {name : String} {c : Char}
    {kind : DescriptorKind} (h : SpellsName text name) (hc : suffixKind? c = some kind) :
    SpellsDescriptor (text ++ [c]) ⟨name, kind, none⟩ := by
  rcases suffixKind?_eq_some_iff.1 hc with
    ⟨rfl, rfl⟩ | ⟨rfl, rfl⟩ | ⟨rfl, rfl⟩ | ⟨rfl, rfl⟩ | ⟨rfl, rfl⟩
  · exact .scope h
  · exact .type h
  · exact .term h
  · exact .metadata h
  · exact .macroDef h

theorem endsName_of_suffixKind? {c : Char} {kind : DescriptorKind} (h : suffixKind? c = some kind) :
    EndsName c ∧ c ≠ '(' := by
  rcases suffixKind?_eq_some_iff.1 h with ⟨rfl, _⟩ | ⟨rfl, _⟩ | ⟨rfl, _⟩ | ⟨rfl, _⟩ | ⟨rfl, _⟩ <;>
    exact ⟨⟨by decide, by decide⟩, by decide⟩

theorem spellsDescriptor_of_readSuffixed {s rest : List Char} {d : Descriptor}
    (h : readSuffixed s = .ok (d, rest)) : ∃ text, s = text ++ rest ∧ SpellsDescriptor text d := by
  obtain ⟨⟨name, tail⟩, hn, hsuffix⟩ := bind_eq_ok_iff.1 h
  obtain ⟨text, rfl, hname⟩ := spellsName_of_readName hn
  cases tail with
  | nil => cases hsuffix
  | cons c more =>
    simp only at hsuffix
    split at hsuffix
    · rename_i hc
      obtain ⟨tag, htag, rfl, rfl⟩ := readMethod_eq_ok_iff.1 hsuffix
      exact ⟨_, by simp [hc], .method hname htag⟩
    · split at hsuffix
      · rename_i kind hkind
        obtain ⟨rfl, rfl⟩ := Prod.mk.inj (Except.ok.inj hsuffix)
        exact ⟨text ++ [c], by simp, spellsDescriptor_of_suffixKind? hname hkind⟩
      · cases hsuffix

theorem readSuffixed_of_suffixKind? {text rest : List Char} {name : String} {c : Char}
    {kind : DescriptorKind} (h : SpellsName text name) (hc : suffixKind? c = some kind) :
    readSuffixed (text ++ c :: rest) = .ok (⟨name, kind, none⟩, rest) := by
  obtain ⟨hends, hparen⟩ := endsName_of_suffixKind? hc
  refine bind_eq_ok_iff.2 ⟨_, readName_of_spellsName h hends, ?_⟩
  simp [hparen, hc, pure, Except.pure]

theorem readDescriptor_of_spellsName {text : List Char} {name : String} (h : SpellsName text name)
    (rest : List Char) : readDescriptor (text ++ rest) = readSuffixed (text ++ rest) := by
  obtain ⟨c, t, rfl, hround, hsquare, _⟩ := h.exists_cons
  simp [readDescriptor, hround, hsquare]

theorem spellsDescriptor_of_readDescriptor {s rest : List Char} {d : Descriptor}
    (h : readDescriptor s = .ok (d, rest)) :
    ∃ text, s = text ++ rest ∧ SpellsDescriptor text d := by
  have hround : EndsName ')' := ⟨by decide, by decide⟩
  have hsquare : EndsName ']' := ⟨by decide, by decide⟩
  unfold readDescriptor at h
  split at h
  · obtain ⟨text, name, hname, rfl, rfl⟩ := (readBracketed_eq_ok_iff hround).1 h
    exact ⟨_, by simp, .parameter hname⟩
  · obtain ⟨text, name, hname, rfl, rfl⟩ := (readBracketed_eq_ok_iff hsquare).1 h
    exact ⟨_, by simp, .typeParameter hname⟩
  · exact spellsDescriptor_of_readSuffixed h

theorem readDescriptor_of_spellsDescriptor {text rest : List Char} {d : Descriptor}
    (h : SpellsDescriptor text d) : readDescriptor (text ++ rest) = .ok (d, rest) := by
  have hopen : EndsName '(' := ⟨by decide, by decide⟩
  have hround : EndsName ')' := ⟨by decide, by decide⟩
  have hsquare : EndsName ']' := ⟨by decide, by decide⟩
  cases h with
  | scope h | type h | term h | metadata h | macroDef h =>
    rw [List.append_assoc, readDescriptor_of_spellsName h]
    exact readSuffixed_of_suffixKind? h rfl
  | method h ht =>
    rw [List.append_assoc, readDescriptor_of_spellsName h]
    refine bind_eq_ok_iff.2 ⟨_, readName_of_spellsName h hopen, ?_⟩
    exact readMethod_eq_ok_iff.2 ⟨_, ht, by simp, rfl⟩
  | parameter h =>
    exact (readBracketed_eq_ok_iff hround).2 ⟨_, _, h, by simp, rfl⟩
  | typeParameter h =>
    exact (readBracketed_eq_ok_iff hsquare).2 ⟨_, _, h, by simp, rfl⟩

theorem readDescriptor_eq_ok_iff {s rest : List Char} {d : Descriptor} :
    readDescriptor s = .ok (d, rest) ↔ ∃ text, s = text ++ rest ∧ SpellsDescriptor text d := by
  constructor
  · exact spellsDescriptor_of_readDescriptor
  · rintro ⟨text, rfl, h⟩
    exact readDescriptor_of_spellsDescriptor h

theorem readDescriptors_eq_ok_iff {s : List Char} {ds : List Descriptor} :
    readDescriptors s = .ok ds ↔ SpellsChain s ds := by
  constructor
  · intro h
    -- one case for each round of the loop
    fun_induction readDescriptors s generalizing ds with
    | case1 s hs =>
      obtain rfl := List.isEmpty_iff.1 hs
      obtain rfl := Except.ok.inj h
      exact .nil
    | case2 => cases h
    | case3 s hs d rest hd ih =>
      obtain ⟨more, hm, h⟩ := bind_eq_ok_iff.1 h
      obtain rfl := Except.ok.inj h
      obtain ⟨text, rfl, htext⟩ := readDescriptor_eq_ok_iff.1 hd
      exact .cons htext (ih hm)
  · intro h
    induction h with
    | nil => exact readDescriptors_nil
    | cons hd _ ih =>
      rw [readDescriptors_of_readDescriptor (readDescriptor_eq_ok_iff.2 ⟨_, rfl, hd⟩), ih]
      rfl

/-! ### Symbols -/

theorem field?_eq_some_iff {s rest : List Char} {value : String} :
    field? s = some (value, rest) ↔ SpellsField s value rest := by
  constructor
  · intro h
    unfold field? at h
    split at h
    · cases h
    · rename_i v r hread
      obtain ⟨rfl, hhead⟩ := eq_doubled_of_readClosed hread
      split at h
      · cases h
      · rename_i hv
        obtain ⟨rfl, rfl⟩ := Prod.mk.inj (Option.some.inj h)
        exact .mk (by simpa using hv) hhead
  · rintro ⟨hs, hr⟩
    simp [field?, readClosed_doubled hr, hs]

theorem requireField_eq_ok_iff {uri : String} {f : HeaderField} {s rest : List Char}
    {value : String} :
    SymbolParts.requireField uri f s = .ok (value, rest) ↔ SpellsField s value rest := by
  rw [← field?_eq_some_iff, SymbolParts.requireField]
  cases field? s <;> simp

theorem SpellsDescriptor.ne_nil {text : List Char} {d : Descriptor} (h : SpellsDescriptor text d) :
    text ≠ [] := by
  cases h <;> simp

theorem SpellsChain.eq_nil_iff {text : List Char} {ds : List Descriptor} (h : SpellsChain text ds) :
    text = [] ↔ ds = [] := by
  cases h with
  | nil => simp
  | cons hd hs => simp [hd.ne_nil]

theorem ofGlobal?_eq_ok_iff {uri : String} {p : SymbolParts} :
    SymbolParts.ofGlobal? uri = .ok p ↔
      ∃ chain, SpellsHeader uri.toList p.scheme p.package chain ∧ p.descriptors ≠ [] ∧
        SpellsChain chain p.descriptors := by
  constructor
  · intro h
    obtain ⟨⟨scheme, r₁⟩, h₁, h⟩ := bind_eq_ok_iff.1 h
    obtain ⟨⟨manager, r₂⟩, h₂, h⟩ := bind_eq_ok_iff.1 h
    obtain ⟨⟨name, r₃⟩, h₃, h⟩ := bind_eq_ok_iff.1 h
    obtain ⟨⟨version, r₄⟩, h₄, h⟩ := bind_eq_ok_iff.1 h
    rw [requireField_eq_ok_iff] at h₁ h₂ h₃ h₄
    simp only at h
    split at h
    · cases h
    · rename_i hrest
      split at h
      · rename_i ds hds
        obtain rfl := Except.ok.inj h
        have hchain := readDescriptors_eq_ok_iff.1 hds
        have hne : ds ≠ [] := by simpa [hchain.eq_nil_iff] using hrest
        exact ⟨r₄, .mk h₁ h₂ h₃ h₄, hne, hchain⟩
      · cases h
  · obtain ⟨scheme, package, ds⟩ := p
    rintro ⟨chain, ⟨h₁, h₂, h₃, h₄⟩, hne, hchain⟩
    have hrest : chain.isEmpty = false := by
      simpa [hchain.eq_nil_iff] using hne
    refine bind_eq_ok_iff.2 ⟨_, requireField_eq_ok_iff.2 h₁, ?_⟩
    refine bind_eq_ok_iff.2 ⟨_, requireField_eq_ok_iff.2 h₂, ?_⟩
    refine bind_eq_ok_iff.2 ⟨_, requireField_eq_ok_iff.2 h₃, ?_⟩
    refine bind_eq_ok_iff.2 ⟨_, requireField_eq_ok_iff.2 h₄, ?_⟩
    simp [hrest, readDescriptors_eq_ok_iff.2 hchain, pure, Except.pure]

theorem SpellsField.ne_nil {text rest : List Char} {value : String}
    (h : SpellsField text value rest) : text ≠ [] := by
  cases h
  simp

theorem Spells.ne_nil {text : List Char} {p : SymbolParts} (h : Spells text p) : text ≠ [] := by
  cases h with
  | localId h => exact List.append_ne_nil_of_left_ne_nil (by decide) _
  | global _ hh _ _ =>
    obtain ⟨h₁, _, _, _⟩ := hh
    exact h₁.ne_nil

theorem spells_local_iff {id : List Char} {p : SymbolParts} :
    Spells (localMark ++ id) p ↔
      isIdentifier id ∧ p = ⟨"local", ⟨"", "", ""⟩, [⟨String.ofList id, .localId, none⟩]⟩ := by
  constructor
  · intro h
    generalize ht : localMark ++ id = text at h
    cases h with
    | localId h =>
      obtain rfl := List.append_cancel_left ht
      exact ⟨h, rfl⟩
    | global hl => exact absurd (List.prefix_append localMark id) (ht ▸ hl)
  · rintro ⟨h, rfl⟩
    exact .localId h

theorem spells_global_iff {text : List Char} {p : SymbolParts} (hl : ¬localMark <+: text) :
    Spells text p ↔ ∃ chain, SpellsHeader text p.scheme p.package chain ∧ p.descriptors ≠ [] ∧
      SpellsChain chain p.descriptors := by
  constructor
  · intro h
    cases h with
    | localId => exact absurd (List.prefix_append localMark _) hl
    | global _ hh hne hd => exact ⟨_, hh, hne, hd⟩
  · rintro ⟨chain, hh, hne, hd⟩
    exact .global hl hh hne hd

theorem ofUri?_eq_ok_iff {uri : String} {p : SymbolParts} :
    SymbolParts.ofUri? uri = .ok p ↔ Spells uri.toList p := by
  by_cases hempty : uri.isEmpty
  · have hnot : ¬Spells uri.toList p := fun h => h.ne_nil (by simpa using hempty)
    simp [SymbolParts.ofUri?, hempty, hnot]
  by_cases hl : localMark <+: uri.toList
  · obtain ⟨id, hid⟩ := hl
    have hpre : localMark.isPrefixOf uri.toList := List.isPrefixOf_iff_prefix.2 ⟨id, hid⟩
    have hdrop : uri.toList.drop localMark.length = id := by rw [← hid, List.drop_left]
    unfold SymbolParts.ofUri?
    rw [if_neg hempty, if_pos hpre, hdrop, ← hid, spells_local_iff]
    by_cases h : isIdentifier id
    · simpa [h] using eq_comm
    · simp [h]
  · have hpre : ¬localMark.isPrefixOf uri.toList := fun h => hl (List.isPrefixOf_iff_prefix.1 h)
    unfold SymbolParts.ofUri?
    rw [if_neg hempty, if_neg hpre, spells_global_iff hl, ofGlobal?_eq_ok_iff]

/-- One round of the loop over descriptors, from the text before it to the text after it. -/
def DescriptorRound (rest s : List Char) : Prop := ∃ d, readDescriptor s = .ok (d, rest)

theorem descriptorRound_wellFounded : WellFounded DescriptorRound :=
  Subrelation.wf (fun ⟨_, h⟩ => readDescriptor_length h) (measure List.length).wf

end CodeAtlas.SymbolText

namespace CodeAtlas.Symbol
open SymbolText

theorem parse?_eq_ok_iff {u : String} {s : Symbol} :
    parse? u = .ok s ↔ s.uri = u ∧ Spells u.toList s.parts := by
  rw [← ofUri?_eq_ok_iff]
  constructor
  · intro h
    obtain ⟨p, hp, h⟩ := bind_eq_ok_iff.1 h
    obtain rfl := Except.ok.inj h
    exact ⟨rfl, hp⟩
  · rintro ⟨rfl, hp⟩
    exact bind_eq_ok_iff.2 ⟨_, hp, rfl⟩

theorem spells_unique {text : List Char} {p q : SymbolParts} (hp : Spells text p)
    (hq : Spells text q) : p = q := by
  have hu : (String.ofList text).toList = text := String.toList_ofList
  rw [← hu, ← ofUri?_eq_ok_iff] at hp hq
  exact Except.ok.inj (hp.symm.trans hq)

/-- Reading answers for exactly the texts of the grammar, with the only parts that they spell, and
its loop over descriptors ends. -/
theorem parse?_exact (u : String) :
    ((∃ s, parse? u = .ok s) ↔ ∃ p, Spells u.toList p) ∧
      (∀ s, parse? u = .ok s ↔ s.uri = u ∧ Spells u.toList s.parts) ∧
      (∀ p q, Spells u.toList p → Spells u.toList q → p = q) ∧ WellFounded DescriptorRound := by
  refine ⟨⟨?_, ?_⟩, fun s => parse?_eq_ok_iff, fun p q => spells_unique,
    descriptorRound_wellFounded⟩
  · rintro ⟨s, hs⟩
    exact ⟨s.parts, (parse?_eq_ok_iff.1 hs).2⟩
  · rintro ⟨p, hp⟩
    exact ⟨⟨u, p⟩, parse?_eq_ok_iff.2 ⟨rfl, hp⟩⟩

end CodeAtlas.Symbol
