import CodeAtlas.Proofs.Symbol.Legality
import Mathlib.Data.String.Basic

/-! The canonical spelling of a symbol. It is left over from every other spelling when the
backticks around identifiers are taken out, so that it is the only one of its length and all others
are longer. -/

namespace CodeAtlas

namespace SymbolText

/-! ### Names -/

theorem sublist_doubled (mark : Char) (s : List Char) : s.Sublist (doubled mark s) := by
  induction s with
  | nil => exact .slnil
  | cons c s ih =>
    by_cases hc : c = mark
    · subst hc
      rw [doubled_cons_self]
      exact (ih.cons c).cons_cons c
    · rw [doubled_cons_of_ne hc]
      exact ih.cons_cons c

theorem backtick_notMem_of_isIdentifier {s : List Char} (h : isIdentifier s) : backtick ∉ s :=
  fun hmem => absurd ((isIdentifier_iff.1 h).2 backtick hmem) (by decide)

theorem SpellsName.eq_name_or {text : List Char} {n : String} (h : SpellsName text n) :
    text = name n.toList ∨ isIdentifier n.toList ∧ text = quotedName n.toList := by
  cases h with
  | bare hs =>
    left
    rw [String.toList_ofList, name, if_pos hs]
  | @quoted s hs =>
    rw [String.toList_ofList, name]
    by_cases hid : isIdentifier s
    · exact .inr ⟨hid, rfl⟩
    · exact .inl (if_neg hid).symm

theorem SpellsName.name_sublist {text : List Char} {n : String} (h : SpellsName text n) :
    (name n.toList).Sublist text := by
  rcases h.eq_name_or with rfl | ⟨hid, rfl⟩
  · exact List.Sublist.refl _
  · rw [name, if_pos hid, quotedName]
    exact ((sublist_doubled backtick _).trans (List.sublist_append_left _ _)).cons backtick

/-! ### Descriptors -/

/-- The name of a descriptor stands in backticks although it is an identifier. -/
def QuotesName (text : List Char) (d : Descriptor) : Prop :=
  isIdentifier d.name.toList ∧ quotedName d.name.toList <:+: text

theorem SpellsDescriptor.exists_frame {text : List Char} {d : Descriptor}
    (h : SpellsDescriptor text d) :
    ∃ left written right, text = left ++ written ++ right ∧ SpellsName written d.name ∧
      d.chars = left ++ name d.name.toList ++ right ∧ backtick ∉ left ∧ backtick ∉ right := by
  cases h with
  | @scope t n h => exact ⟨[], t, ['/'], rfl, h, rfl, by decide, by decide⟩
  | @type t n h => exact ⟨[], t, ['#'], rfl, h, rfl, by decide, by decide⟩
  | @term t n h => exact ⟨[], t, ['.'], rfl, h, rfl, by decide, by decide⟩
  | @metadata t n h => exact ⟨[], t, [':'], rfl, h, rfl, by decide, by decide⟩
  | @macroDef t n h => exact ⟨[], t, ['!'], rfl, h, rfl, by decide, by decide⟩
  | @method t n tag h ht =>
    have htag : backtick ∉ (tag.getD "").toList := by
      cases tag with
      | none => simp
      | some d => exact backtick_notMem_of_isIdentifier (ht d rfl)
    have hright : backtick ∉ '(' :: ((tag.getD "").toList ++ [')', '.']) := by
      have hmarks : backtick ≠ '(' ∧ backtick ∉ [')', '.'] := by decide
      rw [List.mem_cons, List.mem_append, not_or, not_or]
      exact ⟨hmarks.1, htag, hmarks.2⟩
    exact ⟨[], t, _, rfl, h, by simp [Descriptor.chars], by decide, hright⟩
  | @parameter t n h => exact ⟨['('], t, [')'], rfl, h, rfl, by decide, by decide⟩
  | @typeParameter t n h => exact ⟨['['], t, [']'], rfl, h, rfl, by decide, by decide⟩

theorem SpellsDescriptor.chars_sublist {text : List Char} {d : Descriptor}
    (h : SpellsDescriptor text d) :
    d.chars.Sublist text := by
  obtain ⟨left, written, right, rfl, hname, hchars, -, -⟩ := h.exists_frame
  rw [hchars]
  exact ((List.Sublist.refl left).append hname.name_sublist).append (List.Sublist.refl right)

theorem SpellsDescriptor.eq_chars_or {text : List Char} {d : Descriptor}
    (h : SpellsDescriptor text d) :
    text = d.chars ∨ QuotesName text d := by
  obtain ⟨left, written, right, rfl, hname, hchars, -, -⟩ := h.exists_frame
  rcases hname.eq_name_or with rfl | ⟨hid, rfl⟩
  · exact .inl hchars.symm
  · exact .inr ⟨hid, left, right, rfl⟩

theorem SpellsDescriptor.chars_length_lt {text : List Char} {d : Descriptor}
    (h : SpellsDescriptor text d)
    (hq : QuotesName text d) : d.chars.length < text.length := by
  obtain ⟨left, written, right, -, -, hchars, hleft, hright⟩ := h.exists_frame
  obtain ⟨hid, hquoted⟩ := hq
  have hclean : backtick ∉ d.chars := by
    rw [hchars, name, if_pos hid]
    simp [hleft, hright, backtick_notMem_of_isIdentifier hid]
  have hquote : backtick ∈ text :=
    hquoted.subset (List.mem_cons_self : backtick ∈ quotedName d.name.toList)
  refine lt_of_le_of_ne h.chars_sublist.length_le fun heq => hclean ?_
  rwa [h.chars_sublist.eq_of_length heq]

/-! ### Chains -/

theorem SpellsChain.append {text text' : List Char} {ds ds' : List Descriptor}
    (h : SpellsChain text ds)
    (h' : SpellsChain text' ds') : SpellsChain (text ++ text') (ds ++ ds') := by
  induction h with
  | nil => exact h'
  | cons hd _ ih =>
    rw [List.append_assoc]
    exact .cons hd ih

theorem SpellsChain.chars_sublist {text : List Char} {ds : List Descriptor}
    (h : SpellsChain text ds) :
    (ds.flatMap Descriptor.chars).Sublist text := by
  induction h with
  | nil => exact .slnil
  | cons hd _ ih =>
    rw [List.flatMap_cons]
    exact hd.chars_sublist.append ih

inductive QuotesInChain : List Char → Prop where
  | mk {before written after : List Char} {ds ds' : List Descriptor} {d : Descriptor}
      (hb : SpellsChain before ds) (hd : SpellsDescriptor written d) (ha : SpellsChain after ds')
      (hq : QuotesName written d) : QuotesInChain (before ++ (written ++ after))

theorem SpellsChain.eq_chars_or {text : List Char} {ds : List Descriptor}
    (h : SpellsChain text ds) :
    text = ds.flatMap Descriptor.chars ∨ QuotesInChain text := by
  induction h with
  | nil => exact .inl rfl
  | @cons text rest d ds hd hs ih =>
    rcases hd.eq_chars_or with heq | hq
    · rcases ih with hrest | hrest
      · left
        rw [List.flatMap_cons, ← heq, ← hrest]
      · obtain ⟨hb, hd', ha, hq⟩ := hrest
        right
        rw [← List.append_assoc]
        exact .mk (.cons hd hb) hd' ha hq
    · exact .inr (.mk .nil hd hs hq)

/-- A uri that quotes a name which is an identifier. -/
inductive QuotesIdentifier : List Char → Prop where
  | mk {text chain : List Char} {scheme : String} {package : Package} (hl : ¬localMark <+: text)
      (hh : SpellsHeader text scheme package chain) (hq : QuotesInChain chain) :
        QuotesIdentifier text

/-! ### Symbols -/

theorem SpellsHeader.eq_append {text chain : List Char} {scheme : String} {package : Package}
    (h : SpellsHeader text scheme package chain) (ds : List Descriptor) :
    text = (SymbolParts.mk scheme package ds).header ++ chain := by
  obtain ⟨h₁, h₂, h₃, h₄⟩ := h
  obtain ⟨rfl, -, -⟩ := h₁.eq_field
  obtain ⟨rfl, -, -⟩ := h₂.eq_field
  obtain ⟨rfl, -, -⟩ := h₃.eq_field
  obtain ⟨rfl, -, -⟩ := h₄.eq_field
  simp [SymbolParts.header]

theorem SpellsField.unique {text rest rest' : List Char} {s s' : String}
    (h : SpellsField text s rest)
    (h' : SpellsField text s' rest') : s = s' ∧ rest = rest' := by
  rw [← field?_eq_some_iff] at h h'
  exact Prod.mk.inj (Option.some.inj (h.symm.trans h'))

theorem SpellsHeader.chain_unique {text chain chain' : List Char} {scheme scheme' : String}
    {package package' : Package} (h : SpellsHeader text scheme package chain)
    (h' : SpellsHeader text scheme' package' chain') : chain = chain' := by
  obtain ⟨h₁, h₂, h₃, h₄⟩ := h
  obtain ⟨h₁', h₂', h₃', h₄'⟩ := h'
  obtain ⟨-, rfl⟩ := h₁.unique h₁'
  obtain ⟨-, rfl⟩ := h₂.unique h₂'
  obtain ⟨-, rfl⟩ := h₃.unique h₃'
  exact (h₄.unique h₄').2

theorem Spells.chars_sublist {text : List Char} {p : SymbolParts} (h : Spells text p) :
    p.chars.Sublist text := by
  cases h with
  | localId h => simp [SymbolParts.chars]
  | @global _ _ _ _ ds hl hh hne hd =>
    rw [SymbolParts.chars_of_forall_legal hd.legal, hh.eq_append ds]
    exact (List.Sublist.refl _).append hd.chars_sublist

theorem Spells.eq_chars_or {text : List Char} {p : SymbolParts} (h : Spells text p) :
    text = p.chars ∨ QuotesIdentifier text := by
  cases h with
  | localId h => exact .inl (by simp [SymbolParts.chars])
  | @global _ _ _ _ ds hl hh hne hd =>
    rcases hd.eq_chars_or with hchain | hq
    · left
      rw [SymbolParts.chars_of_forall_legal hd.legal, ← hchain]
      exact hh.eq_append ds
    · exact .inr (.mk hl hh hq)

theorem QuotesInChain.chars_length_lt {text : List Char} {ds : List Descriptor}
    (hq : QuotesInChain text)
    (h : SpellsChain text ds) : (ds.flatMap Descriptor.chars).length < text.length := by
  obtain ⟨hb, hd, ha, hq⟩ := hq
  have hchain := hb.append (SpellsChain.cons hd ha)
  obtain rfl :=
    Except.ok.inj ((readDescriptors_eq_ok_iff.2 h).symm.trans (readDescriptors_eq_ok_iff.2 hchain))
  -- all descriptors are at most as long as they are spelled here, and one of them is shorter
  have hbefore := hb.chars_sublist.length_le
  have hwritten := hd.chars_length_lt hq
  have hafter := ha.chars_sublist.length_le
  simp only [List.flatMap_append, List.flatMap_cons, List.length_append]
  omega

theorem QuotesIdentifier.chars_length_lt {text : List Char} {p : SymbolParts}
    (hq : QuotesIdentifier text)
    (h : Spells text p) : p.chars.length < text.length := by
  obtain ⟨hl, hh, hq⟩ := hq
  obtain ⟨chain, hh', -, hd⟩ := (spells_global_iff hl).1 h
  obtain rfl := hh.chain_unique hh'
  rw [SymbolParts.chars_of_forall_legal hd.legal, hh'.eq_append p.descriptors, List.length_append,
    List.length_append]
  exact Nat.add_lt_add_left (hq.chars_length_lt hd) _

theorem Spells.chars_eq_iff {text : List Char} {p : SymbolParts} (h : Spells text p) :
    p.chars = text ↔ ¬QuotesIdentifier text := by
  constructor
  · intro heq hq
    exact absurd (congrArg List.length heq) (Nat.ne_of_lt (hq.chars_length_lt h))
  · intro hnot
    exact (h.eq_chars_or.resolve_right hnot).symm

end SymbolText

open SymbolText

theorem utf8ByteSize_lt_of_sublist {s t : String} (h : s.toList.Sublist t.toList) (hne : s ≠ t) :
    s.utf8ByteSize < t.utf8ByteSize := by
  have hstrict : ∀ {cs cs' : List Char}, cs.Sublist cs' → cs ≠ cs' →
      String.utf8Len cs < String.utf8Len cs' := by
    intro cs cs' h
    induction h with
    | slnil => exact fun hne => absurd rfl hne
    | cons c h ih =>
      intro _
      have hle := String.utf8Len_le_of_sublist h
      have hpos := c.utf8Size_pos
      rw [String.utf8Len_cons]
      omega
    | cons_cons c h ih =>
      intro hne
      have hlt := ih fun heq => hne (congrArg (c :: ·) heq)
      rw [String.utf8Len_cons, String.utf8Len_cons]
      omega
  have hlt := hstrict h fun heq => hne (String.toList_inj.1 heq)
  rwa [← String.utf8ByteSize_ofList, ← String.utf8ByteSize_ofList, String.ofList_toList,
    String.ofList_toList] at hlt

namespace Symbol
variable {u v : String} {s t : Symbol}

theorem canonicalUri_toList (s : Symbol) :
    s.canonicalUri.toList = s.parts.chars := String.toList_ofList

theorem parse?_canonicalUri (h : parse? u = .ok s) :
    parse? s.canonicalUri = .ok (ofParts s.parts) :=
  parse?_ofParts (parse?_eq_ok_iff.1 h).2.legal

theorem canonicalUri_eq_canonicalUri_iff (h : parse? u = .ok s) (h' : parse? v = .ok t) :
    t.canonicalUri = s.canonicalUri ↔ t.parts = s.parts := by
  constructor
  · intro heq
    have hparsed := parse?_canonicalUri h'
    rw [heq, parse?_canonicalUri h] at hparsed
    exact (congrArg Symbol.parts (Except.ok.inj hparsed)).symm
  · exact congrArg SymbolParts.uri

theorem canonicalUri_sublist (h : parse? u = .ok s) : s.canonicalUri.toList.Sublist u.toList := by
  rw [canonicalUri_toList]
  exact (parse?_eq_ok_iff.1 h).2.chars_sublist

theorem canonicalUri_eq_iff_not_quotes (h : parse? u = .ok s) :
    s.canonicalUri = u ↔ ¬QuotesIdentifier u.toList := by
  rw [← String.toList_inj, canonicalUri_toList]
  exact (parse?_eq_ok_iff.1 h).2.chars_eq_iff

/-- The canonical uri is read as the parts that it was written for and is its own canonical uri. It
is the same for two uris just where their parts are. Every other uri of these parts takes more
bytes: nothing but backticks is left out, and nothing at all where the uri quotes no identifier. -/
theorem canonicalUri_normalForm (h : parse? u = .ok s) :
    (∃ t, parse? s.canonicalUri = .ok t ∧ t.parts = s.parts ∧ t.canonicalUri = s.canonicalUri) ∧
      (∀ v t, parse? v = .ok t → (t.canonicalUri = s.canonicalUri ↔ t.parts = s.parts)) ∧
      (∀ v t, parse? v = .ok t → t.parts = s.parts → v ≠ s.canonicalUri →
        s.canonicalUri.utf8ByteSize < v.utf8ByteSize) ∧
      s.canonicalUri.toList.Sublist u.toList ∧
      (s.canonicalUri = u ↔ ¬QuotesIdentifier u.toList) := by
  refine ⟨⟨ofParts s.parts, parse?_canonicalUri h, rfl, rfl⟩, fun v t h' => ?_,
    fun v t h' hparts hne => ?_,
    canonicalUri_sublist h, canonicalUri_eq_iff_not_quotes h⟩
  · exact canonicalUri_eq_canonicalUri_iff h h'
  · have heq := (canonicalUri_eq_canonicalUri_iff h h').2 hparts
    rw [← heq] at hne ⊢
    exact utf8ByteSize_lt_of_sublist (canonicalUri_sublist h') hne.symm

def quotedChain : List Char := "\x60demo\x60/f().".toList

def quotedFunction : String := String.ofList (functionParts.header ++ quotedChain)

theorem spellsDescriptor_quotedModule :
    SpellsDescriptor "\x60demo\x60/".toList ⟨"demo", .scope, none⟩ :=
  .scope (.quoted (by decide : "demo".toList ≠ []))

theorem spellsDescriptor_function : SpellsDescriptor "f().".toList ⟨"f", .method, none⟩ := by
  have htag : ∀ d ∈ (none : Option String), isIdentifier d.toList := by simp
  exact .method (.bare (by decide : isIdentifier "f".toList)) htag

theorem functionParts_legalGlobal : functionParts.LegalGlobal :=
  functionParts_legal.resolve_left fun h => absurd h.1 (by decide)

theorem spellsHeader_quotedFunction :
    SpellsHeader quotedFunction.toList functionParts.scheme functionParts.package quotedChain := by
  rw [quotedFunction, String.toList_ofList]
  exact functionParts_legalGlobal.spellsHeader (by decide)

theorem not_localMark_prefix_quotedFunction : ¬localMark <+: quotedFunction.toList := by
  rw [quotedFunction, String.toList_ofList]
  exact functionParts_legalGlobal.not_localMark_prefix quotedChain

theorem parse?_quotedFunction : parse? quotedFunction = .ok ⟨quotedFunction, functionParts⟩ := by
  refine parse?_eq_ok_iff.2 ⟨rfl, ?_⟩
  have hchain : SpellsChain quotedChain functionParts.descriptors :=
    .cons spellsDescriptor_quotedModule (.cons spellsDescriptor_function .nil)
  exact .global not_localMark_prefix_quotedFunction spellsHeader_quotedFunction
    (List.cons_ne_nil _ _) hchain

theorem quotesIdentifier_quotedFunction : QuotesIdentifier quotedFunction.toList := by
  have hafter : SpellsChain "f().".toList [⟨"f", .method, none⟩] :=
    .cons spellsDescriptor_function .nil
  have hquotes : QuotesName "\x60demo\x60/".toList ⟨"demo", .scope, none⟩ :=
    ⟨by decide, [], ['/'], by decide⟩
  exact .mk not_localMark_prefix_quotedFunction spellsHeader_quotedFunction
    (.mk .nil spellsDescriptor_quotedModule hafter hquotes)

theorem canonicalUri_quotedFunction :
    parse? quotedFunction = .ok ⟨quotedFunction, functionParts⟩ ∧
      functionParts.uri ≠ quotedFunction ∧
      (∃ t, parse? functionParts.uri = .ok t ∧ t.parts = functionParts ∧
        t.canonicalUri = functionParts.uri) ∧
      functionParts.uri.utf8ByteSize < quotedFunction.utf8ByteSize := by
  obtain ⟨hread, -, hshortest, -, heq⟩ := canonicalUri_normalForm parse?_quotedFunction
  have hne : functionParts.uri ≠ quotedFunction := fun h => heq.1 h quotesIdentifier_quotedFunction
  exact ⟨parse?_quotedFunction, hne, hread,
    hshortest quotedFunction _ parse?_quotedFunction rfl hne.symm⟩

end Symbol
end CodeAtlas
