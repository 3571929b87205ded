import CodeAtlas.Proofs.Symbol.Reading

/-! The parts that some uri spells, and the printer on them. Exactly the legal parts are read back
from the uri that is printed for them, so no two legal parts share a uri. -/

namespace CodeAtlas
open SymbolText

/-- Only local symbols have a local descriptor, and only methods have a disambiguator. -/
structure Descriptor.Legal (d : Descriptor) : Prop where
  kind_ne : d.kind ≠ .localId
  name_ne : d.name ≠ ""
  tag : ∀ t ∈ d.disambiguator, d.kind = .method ∧ isIdentifier t.toList

/-- A header field behind another one. A space in front of it would be read as the end of a doubled
space. -/
structure LegalField (s : String) : Prop where
  ne_empty : s ≠ ""
  no_space : s.toList.head? ≠ some ' '

namespace SymbolParts

def LegalLocal (p : SymbolParts) : Prop :=
  p.scheme = "local" ∧ p.package = ⟨"", "", ""⟩ ∧
    ∃ id : String, isIdentifier id.toList ∧ p.descriptors = [⟨id, .localId, none⟩]

structure LegalGlobal (p : SymbolParts) : Prop where
  scheme_ne : p.scheme ≠ ""
  scheme_not_local : p.scheme ≠ "local" ∧ ¬localMark <+: p.scheme.toList
  manager : LegalField p.package.manager
  name : LegalField p.package.name
  version : LegalField p.package.version
  descriptors_ne : p.descriptors ≠ []
  descriptors : ∀ d ∈ p.descriptors, d.Legal

def Legal (p : SymbolParts) : Prop := p.LegalLocal ∨ p.LegalGlobal

end SymbolParts

namespace SymbolText

/-! ### Descriptors -/

theorem spellsName_name {s : String} (h : s ≠ "") : SpellsName (name s.toList) s := by
  have hs : s.toList ≠ [] := by simpa using h
  rw [name]
  split
  · rename_i hid
    simpa using SpellsName.bare hid
  · simpa using SpellsName.quoted hs

theorem SpellsName.ne_empty {text : List Char} {n : String} (h : SpellsName text n) : n ≠ "" := by
  cases h with
  | bare hs => simpa using (isIdentifier_iff.1 hs).1
  | quoted hs => simpa using hs

theorem spellsDescriptor_chars {d : Descriptor} (h : d.Legal) : SpellsDescriptor d.chars d := by
  obtain ⟨n, kind, tag⟩ := d
  have hn := spellsName_name h.name_ne
  by_cases hm : kind = .method
  · subst hm
    simpa [Descriptor.chars] using SpellsDescriptor.method hn fun t ht => (h.tag t ht).2
  · obtain rfl : tag = none := by
      cases tag with
      | none => rfl
      | some t => exact absurd (h.tag t rfl).1 hm
    cases kind with
    | scope => exact .scope hn
    | type => exact .type hn
    | term => exact .term hn
    | metadata => exact .metadata hn
    | macroDef => exact .macroDef hn
    | method => exact absurd rfl hm
    | parameter => exact .parameter hn
    | typeParameter => exact .typeParameter hn
    | localId => exact absurd rfl h.kind_ne

theorem SpellsDescriptor.legal {text : List Char} {d : Descriptor} (h : SpellsDescriptor text d) :
    d.Legal := by
  cases h with
  | method h ht => exact ⟨by simp, h.ne_empty, fun t hm => ⟨rfl, ht t hm⟩⟩
  | scope h | type h | term h | metadata h | macroDef h | parameter h | typeParameter h =>
    exact ⟨by simp, h.ne_empty, by simp⟩

theorem SpellsDescriptor.head?_ne_space {text : List Char} {d : Descriptor}
    (h : SpellsDescriptor text d) (rest : List Char) : (text ++ rest).head? ≠ some ' ' := by
  cases h with
  | parameter h | typeParameter h => simp
  | scope h | type h | term h | metadata h | macroDef h | method h =>
    obtain ⟨c, t, rfl, _, _, hspace⟩ := h.exists_cons
    simpa using hspace

theorem spellsChain_chars {ds : List Descriptor} (h : ∀ d ∈ ds, d.Legal) :
    SpellsChain (ds.flatMap Descriptor.chars) ds := by
  induction ds with
  | nil => exact .nil
  | cons d ds ih =>
    rw [List.flatMap_cons]
    exact .cons (spellsDescriptor_chars (h d List.mem_cons_self))
      (ih fun d hd => h d (List.mem_cons_of_mem _ hd))

theorem SpellsChain.legal {text : List Char} {ds : List Descriptor} (h : SpellsChain text ds) :
    ∀ d ∈ ds, d.Legal := by
  induction h with
  | nil => simp
  | cons hd _ ih =>
    intro d hmem
    rcases List.mem_cons.1 hmem with rfl | hmem
    · exact hd.legal
    · exact ih d hmem

theorem SpellsChain.head?_ne_space {text : List Char} {ds : List Descriptor}
    (h : SpellsChain text ds) : text.head? ≠ some ' ' := by
  cases h with
  | nil => simp
  | cons hd _ => exact hd.head?_ne_space _

/-! ### Header fields -/

theorem head?_field_append {s : String} (h : s ≠ "") (rest : List Char) :
    (field s.toList ++ rest).head? = s.toList.head? := by
  have hs : s.toList ≠ [] := by simpa using h
  obtain ⟨c, t, hct⟩ := List.exists_cons_of_ne_nil hs
  have hhead := head?_doubled ' ' s.toList
  rw [hct] at hhead ⊢
  simp [field, List.head?_append, hhead]

theorem head?_field_ne_space {s : String} (h : LegalField s) (rest : List Char) :
    (field s.toList ++ rest).head? ≠ some ' ' := by
  rw [head?_field_append h.ne_empty]
  exact h.no_space

theorem spellsField_field {s : String} (hs : s ≠ "") {rest : List Char}
    (hr : rest.head? ≠ some ' ') : SpellsField (field s.toList ++ rest) s rest := by
  have h : SpellsField (doubled ' ' s.toList ++ ' ' :: rest) (String.ofList s.toList) rest :=
    .mk (by simpa using hs) hr
  simpa [field] using h

theorem SpellsField.eq_field {text rest : List Char} {s : String} (h : SpellsField text s rest) :
    text = field s.toList ++ rest ∧ s ≠ "" ∧ rest.head? ≠ some ' ' := by
  obtain ⟨hs, hr⟩ := h
  exact ⟨by simp [field], by simpa using hs, hr⟩

theorem SpellsField.legalField {text after rest : List Char} {s t : String}
    (h : SpellsField text s after) (h' : SpellsField after t rest) : LegalField t := by
  obtain ⟨rfl, ht, _⟩ := h'.eq_field
  have hhead := h.eq_field.2.2
  rw [head?_field_append ht] at hhead
  exact ⟨ht, hhead⟩

theorem prefix_doubled_iff {word : List Char} (hw : ' ' ∉ word) (s rest : List Char) :
    word ++ [' '] <+: doubled ' ' s ++ ' ' :: rest ↔ s = word ∨ word ++ [' '] <+: s := by
  induction word generalizing s with
  | nil =>
    cases s with
    | nil => simp
    | cons c s => by_cases hc : c = ' ' <;> simp [hc, eq_comm]
  | cons a word ih =>
    have ha : a ≠ ' ' := by rintro rfl; exact hw List.mem_cons_self
    have hword : ' ' ∉ word := fun h => hw (List.mem_cons_of_mem _ h)
    cases s with
    | nil => simp [ha]
    | cons c s =>
      by_cases hc : c = ' '
      · -- the doubled space stands where the word has a letter
        subst hc
        simp [ha, Ne.symm ha]
      · simp [hc, List.cons_prefix_cons, ih hword, and_or_left, eq_comm]

theorem localMark_prefix_field_iff (s : String) (rest : List Char) :
    localMark <+: field s.toList ++ rest ↔ s = "local" ∨ localMark <+: s.toList := by
  have hmark : localMark = "local".toList ++ [' '] := rfl
  have hfield : field s.toList ++ rest = doubled ' ' s.toList ++ ' ' :: rest := by simp [field]
  rw [hfield, hmark, prefix_doubled_iff (by decide), String.toList_inj]

end SymbolText

/-! ### Symbols -/

namespace SymbolParts

theorem chars_of_forall_legal {p : SymbolParts} (h : ∀ d ∈ p.descriptors, d.Legal) :
    p.chars = p.header ++ p.descriptors.flatMap Descriptor.chars := by
  unfold chars
  split
  · -- only a local descriptor is printed without a header
    rename_i heq
    rw [heq] at h
    exact absurd rfl (h _ List.mem_cons_self).kind_ne
  · rfl

theorem LegalLocal.spells {p : SymbolParts} (h : p.LegalLocal) : Spells p.chars p := by
  obtain ⟨scheme, package, ds⟩ := p
  obtain ⟨rfl, rfl, id, hid, rfl⟩ := h
  simpa [chars] using Spells.localId hid

theorem LegalGlobal.spellsHeader {p : SymbolParts} (h : p.LegalGlobal) {rest : List Char}
    (hr : rest.head? ≠ some ' ') : SpellsHeader (p.header ++ rest) p.scheme p.package rest := by
  simp only [header, List.append_assoc]
  refine .mk (spellsField_field h.scheme_ne ?_) (spellsField_field h.manager.ne_empty ?_)
    (spellsField_field h.name.ne_empty ?_) (spellsField_field h.version.ne_empty hr)
  · exact head?_field_ne_space h.manager _
  · exact head?_field_ne_space h.name _
  · exact head?_field_ne_space h.version rest

theorem LegalGlobal.not_localMark_prefix {p : SymbolParts} (h : p.LegalGlobal) (rest : List Char) :
    ¬localMark <+: p.header ++ rest := by
  simp only [header, List.append_assoc]
  rw [localMark_prefix_field_iff]
  exact not_or.2 h.scheme_not_local

theorem LegalGlobal.spells {p : SymbolParts} (h : p.LegalGlobal) : Spells p.chars p := by
  have hchain := spellsChain_chars h.descriptors
  rw [chars_of_forall_legal h.descriptors]
  exact .global (h.not_localMark_prefix _) (h.spellsHeader hchain.head?_ne_space) h.descriptors_ne
    hchain

theorem Legal.spells {p : SymbolParts} (h : p.Legal) : Spells p.chars p :=
  h.elim LegalLocal.spells LegalGlobal.spells

end SymbolParts

theorem SymbolText.Spells.legal {text : List Char} {p : SymbolParts} (h : Spells text p) :
    p.Legal := by
  cases h with
  | localId h => exact .inl ⟨rfl, rfl, _, by simpa using h, rfl⟩
  | global hl hh hne hd =>
    obtain ⟨h₁, h₂, h₃, h₄⟩ := hh
    obtain ⟨htext, hscheme, _⟩ := h₁.eq_field
    rw [htext, localMark_prefix_field_iff] at hl
    exact .inr ⟨hscheme, not_or.1 hl, h₁.legalField h₂, h₂.legalField h₃, h₃.legalField h₄, hne,
      hd.legal⟩

namespace Symbol

theorem parse?_ofParts {p : SymbolParts} (h : p.Legal) :
    parse? (ofParts p).uri = .ok (ofParts p) := by
  refine parse?_eq_ok_iff.2 ⟨rfl, ?_⟩
  simpa [ofParts, SymbolParts.uri] using h.spells

theorem exists_parse?_ofParts_iff (p : SymbolParts) :
    (∃ s, parse? (ofParts p).uri = .ok s ∧ s.parts = p) ↔ p.Legal := by
  constructor
  · rintro ⟨s, hs, rfl⟩
    exact (parse?_eq_ok_iff.1 hs).2.legal
  · intro h
    exact ⟨ofParts p, parse?_ofParts h, rfl⟩

/-- Printing and reading are inverse on the legal parts and nowhere else. -/
theorem parse?_ofParts_exact (p : SymbolParts) :
    ((∃ s, parse? (ofParts p).uri = .ok s ∧ s.parts = p) ↔ p.Legal) ∧
      ∀ q : SymbolParts, p.Legal → q.Legal → (ofParts p).uri = (ofParts q).uri → p = q := by
  refine ⟨exists_parse?_ofParts_iff p, fun q hp hq huri => ?_⟩
  obtain ⟨s, hs, rfl⟩ := (exists_parse?_ofParts_iff p).2 hp
  obtain ⟨t, ht, rfl⟩ := (exists_parse?_ofParts_iff q).2 hq
  rw [huri] at hs
  rw [Except.ok.inj (hs.symm.trans ht)]

end Symbol

def demoParts (d : Descriptor) : SymbolParts :=
  ⟨"scip-python", ⟨"python", "demo", "1"⟩, [⟨"demo", .scope, none⟩, d]⟩

theorem demoParts_legal {d : Descriptor} (h : d.Legal) : (demoParts d).Legal := by
  have hscheme_ne : "scip-python" ≠ "" := by decide
  have hscheme : "scip-python" ≠ "local" ∧
      ¬SymbolText.localMark <+: "scip-python".toList := by decide
  have hmanager : LegalField "python" := ⟨by decide, by decide⟩
  have hname : LegalField "demo" := ⟨by decide, by decide⟩
  have hversion : LegalField "1" := ⟨by decide, by decide⟩
  refine .inr ⟨hscheme_ne, hscheme, hmanager, hname, hversion, List.cons_ne_nil _ _, ?_⟩
  intro d' hd'
  rcases List.mem_cons.1 hd' with rfl | hd'
  · exact ⟨by decide, by decide, by simp⟩
  · rwa [List.mem_singleton.1 hd']

def functionParts : SymbolParts :=
  ⟨"scip-python", ⟨"python", "demo", "1"⟩, [⟨"demo", .scope, none⟩, ⟨"f", .method, none⟩]⟩

theorem functionParts_legal : functionParts.Legal :=
  demoParts_legal ⟨by decide, by decide, by simp⟩

end CodeAtlas
