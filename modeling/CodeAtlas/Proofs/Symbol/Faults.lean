import CodeAtlas.Proofs.Symbol.Beginning

/-! Texts that are no symbol uris. The error tells the first thing that is missing; where the header
is there, its position lies behind the last descriptor that could be read, in a rest that starts
with none. -/

namespace CodeAtlas.SymbolText

/-! ### Header fields -/

theorem readClosed_eq_none_iff {mark : Char} {t : List Char} :
    readClosed mark t = none ↔ ∃ s, t = doubled mark s := by
  constructor
  · intro h
    -- case4 is a doubled mark, case5 the mark that closes and case6 any other character
    fun_induction readClosed mark t with
    | case1 => exact ⟨[], rfl⟩
    | case2 => cases h
    | case3 c hc => exact ⟨[c], by simp [hc]⟩
    | case4 tail ih =>
      obtain ⟨s, rfl⟩ := ih (Option.map_eq_none_iff.1 h)
      exact ⟨mark :: s, (doubled_cons_self mark s).symm⟩
    | case5 => cases h
    | case6 c d tail hc ih =>
      obtain ⟨s, hs⟩ := ih (Option.map_eq_none_iff.1 h)
      exact ⟨c :: s, by rw [doubled_cons_of_ne hc, hs]⟩
  · rintro ⟨s, rfl⟩
    induction s with
    | nil => rfl
    | cons c s ih =>
      by_cases hc : c = mark
      · subst hc
        rw [doubled_cons_self]
        simp [readClosed, ih]
      · rw [doubled_cons_of_ne hc, readClosed_cons_of_ne hc, ih, Option.map_none]

/-- A text in front of which no header field stands: the field is empty, or its end is missing. -/
inductive LacksField : List Char → Prop where
  | empty {rest : List Char} (h : rest.head? ≠ some ' ') : LacksField (' ' :: rest)
  | unterminated (s : List Char) : LacksField (doubled ' ' s)

theorem field?_eq_none_iff {t : List Char} : field? t = none ↔ LacksField t := by
  constructor
  · intro h
    unfold field? at h
    split at h
    · rename_i hread
      obtain ⟨s, rfl⟩ := readClosed_eq_none_iff.1 hread
      exact .unterminated s
    · rename_i value rest hread
      obtain ⟨rfl, hhead⟩ := eq_doubled_of_readClosed hread
      split at h
      · rename_i hvalue
        obtain rfl := List.isEmpty_iff.1 hvalue
        exact .empty hhead
      · cases h
  · intro h
    cases h with
    | empty hhead =>
      have hread := readClosed_doubled hhead []
      rw [doubled_nil, List.nil_append] at hread
      simp [field?, hread]
    | unterminated s => simp [field?, readClosed_eq_none_iff.2 ⟨s, rfl⟩]

inductive FirstLacking : List Char → HeaderField → Prop where
  | scheme {text} (h : LacksField text) : FirstLacking text .scheme
  | manager {text scheme after} (h₁ : SpellsField text scheme after) (h : LacksField after) :
      FirstLacking text .manager
  | name {text scheme manager afterScheme after} (h₁ : SpellsField text scheme afterScheme)
      (h₂ : SpellsField afterScheme manager after) (h : LacksField after) : FirstLacking text .name
  | version {text scheme manager name afterScheme afterManager after}
      (h₁ : SpellsField text scheme afterScheme)
      (h₂ : SpellsField afterScheme manager afterManager) (h₃ : SpellsField afterManager name after)
      (h : LacksField after) : FirstLacking text .version

theorem lacksField_or_exists_spellsField (t : List Char) :
    LacksField t ∨ ∃ value after, SpellsField t value after := by
  cases hread : field? t with
  | none => exact .inl (field?_eq_none_iff.1 hread)
  | some found =>
    obtain ⟨value, after⟩ := found
    exact .inr ⟨value, after, field?_eq_some_iff.1 hread⟩

theorem exists_spellsHeader_or_firstLacking (t : List Char) :
    (∃ scheme package chain, SpellsHeader t scheme package chain) ∨ ∃ f, FirstLacking t f := by
  rcases lacksField_or_exists_spellsField t with h | ⟨scheme, _, h₁⟩
  · exact .inr ⟨_, .scheme h⟩
  rcases lacksField_or_exists_spellsField _ with h | ⟨manager, _, h₂⟩
  · exact .inr ⟨_, .manager h₁ h⟩
  rcases lacksField_or_exists_spellsField _ with h | ⟨name, _, h₃⟩
  · exact .inr ⟨_, .name h₁ h₂ h⟩
  rcases lacksField_or_exists_spellsField _ with h | ⟨version, _, h₄⟩
  · exact .inr ⟨_, .version h₁ h₂ h₃ h⟩
  exact .inl ⟨scheme, ⟨manager, name, version⟩, _, .mk h₁ h₂ h₃ h₄⟩

theorem requireField_eq_error_iff {uri : String} {f : HeaderField} {s : List Char}
    {e : SymbolError} :
    SymbolParts.requireField uri f s = .error e ↔ LacksField s ∧ e = .missingField uri f := by
  rw [← field?_eq_none_iff, SymbolParts.requireField]
  cases field? s <;> simp [eq_comm]

theorem SpellsHeader.ne_empty {u scheme : String} {package : Package} {chain : List Char}
    (h : SpellsHeader u.toList scheme package chain) : u ≠ "" := by
  obtain ⟨h, -, -, -⟩ := h
  simpa using h.ne_nil

/-! ### What is left of a text -/

theorem expect_suffix {wanted : Char} {s left : List Char} {fault : DescriptorFault}
    (h : expect wanted s = .error (fault, left)) : left <:+ s := by
  cases s with
  | nil =>
    cases h
    exact List.suffix_rfl
  | cons c s =>
    rw [expect] at h
    split at h
    · cases h
    · obtain ⟨-, rfl⟩ := Prod.mk.inj (Except.error.inj h)
      exact List.suffix_cons c s

theorem readName_suffix {s left : List Char} {fault : DescriptorFault}
    (h : readName s = .error (fault, left)) :
    left <:+ s := by
  unfold readName at h
  split at h
  · cases h
    exact List.suffix_rfl
  · rename_i c tail
    split at h
    · split at h
      · cases h
        exact List.nil_suffix
      · rename_i value rest hread
        obtain ⟨rfl, -⟩ := eq_doubled_of_readClosed hread
        split at h
        · cases h
          exact ⟨c :: (doubled backtick value ++ [backtick]), by simp⟩
        · cases h
    · simp only at h
      split at h
      · cases h
        exact List.suffix_rfl
      · cases h

theorem readBracketed_suffix {kind : DescriptorKind} {close : Char} {s left : List Char}
    {fault : DescriptorFault}
    (h : readBracketed kind close s = .error (fault, left)) : left <:+ s := by
  rcases bind_eq_error_iff.1 h with hname | ⟨⟨name, rest⟩, hname, hclose⟩
  · exact readName_suffix hname
  · obtain ⟨text, rfl, -⟩ := spellsName_of_readName hname
    rcases bind_eq_error_iff.1 hclose with hclose | ⟨_, _, hdone⟩
    · exact (expect_suffix hclose).trans (List.suffix_append text rest)
    · cases hdone

theorem readMethod_suffix {name : String} {s left : List Char} {fault : DescriptorFault}
    (h : readMethod name s = .error (fault, left)) : left <:+ s := by
  have htag : s.dropWhile isIdentifierChar <:+ s := List.dropWhile_suffix _
  rcases bind_eq_error_iff.1 h with hclose | ⟨rest, hclose, hdot⟩
  · exact (expect_suffix hclose).trans htag
  · rw [expect_eq_ok_iff.1 hclose] at htag
    rcases bind_eq_error_iff.1 hdot with hdot | ⟨_, _, hdone⟩
    · exact (expect_suffix hdot).trans ((List.suffix_cons ')' rest).trans htag)
    · cases hdone

theorem readSuffixed_suffix {s left : List Char} {fault : DescriptorFault}
    (h : readSuffixed s = .error (fault, left)) : left <:+ s := by
  rcases bind_eq_error_iff.1 h with hname | ⟨⟨name, rest⟩, hname, hsuffix⟩
  · exact readName_suffix hname
  · obtain ⟨text, rfl, -⟩ := spellsName_of_readName hname
    cases rest with
    | nil =>
      cases hsuffix
      exact List.nil_suffix
    | cons c rest =>
      have hrest : rest <:+ text ++ c :: rest :=
        (List.suffix_cons c rest).trans (List.suffix_append text _)
      simp only at hsuffix
      split at hsuffix
      · exact (readMethod_suffix hsuffix).trans hrest
      · split at hsuffix
        · cases hsuffix
        · cases hsuffix
          exact hrest

theorem readDescriptor_suffix {s left : List Char} {fault : DescriptorFault}
    (h : readDescriptor s = .error (fault, left)) : left <:+ s := by
  unfold readDescriptor at h
  split at h
  · exact (readBracketed_suffix h).trans (List.suffix_cons _ _)
  · exact (readBracketed_suffix h).trans (List.suffix_cons _ _)
  · exact readSuffixed_suffix h

/-! ### Chains -/

theorem exists_readDescriptor_eq_error_iff {s : List Char} :
    (∃ x, readDescriptor s = .error x) ↔ ∀ text d, SpellsDescriptor text d → ¬text <+: s := by
  constructor
  · rintro ⟨x, hx⟩ text d hd ⟨rest, rfl⟩
    rw [readDescriptor_of_spellsDescriptor hd] at hx
    cases hx
  · intro h
    cases hread : readDescriptor s with
    | error x => exact ⟨x, rfl⟩
    | ok found =>
      obtain ⟨d, rest⟩ := found
      obtain ⟨text, rfl, hd⟩ := readDescriptor_eq_ok_iff.1 hread
      exact absurd (List.prefix_append text rest) (h text d hd)

theorem readDescriptors_append {text rest : List Char} {ds : List Descriptor}
    (h : SpellsChain text ds) :
    readDescriptors (text ++ rest) = (readDescriptors rest).map (ds ++ ·) := by
  induction h with
  | nil =>
    rw [List.nil_append]
    cases readDescriptors rest <;> rfl
  | cons hd _ ih =>
    rw [List.append_assoc,
      readDescriptors_of_readDescriptor (readDescriptor_of_spellsDescriptor hd), ih]
    cases readDescriptors rest <;> rfl

theorem readDescriptors_of_error {s : List Char} {x : Stuck} (hne : s ≠ [])
    (h : readDescriptor s = .error x) :
    readDescriptors s = .error x := by
  rw [readDescriptors, if_neg (by simpa using hne)]
  split
  · rename_i hfault
    rw [Except.error.inj (hfault.symm.trans h)]
  · rename_i hfound
    cases h.symm.trans hfound

theorem readDescriptors_eq_error_iff {s : List Char} {x : Stuck} : readDescriptors s = .error x ↔
    ∃ text rest ds, s = text ++ rest ∧ SpellsChain text ds ∧ rest ≠ [] ∧
      readDescriptor rest = .error x := by
  constructor
  · intro h
    fun_induction readDescriptors s with
    | case1 => cases h
    | case2 s hs fault hfault =>
      cases h
      exact ⟨[], s, [], rfl, .nil, by simpa using hs, hfault⟩
    | case3 s hs d rest hd ih =>
      rcases bind_eq_error_iff.1 h with h | ⟨_, _, h⟩
      · obtain ⟨written, rfl, hwritten⟩ := readDescriptor_eq_ok_iff.1 hd
        obtain ⟨text, rest, ds, rfl, hds, hrest⟩ := ih h
        exact ⟨written ++ text, rest, d :: ds, (List.append_assoc _ _ _).symm,
          .cons hwritten hds, hrest⟩
      · cases h
  · rintro ⟨text, rest, ds, rfl, hds, hne, h⟩
    rw [readDescriptors_append hds, readDescriptors_of_error hne h]
    rfl

/-! ### Positions -/

theorem bytes_eq (s : List Char) : bytes s = String.utf8Len s := by
  have hfrom : ∀ n, s.foldl (fun n c => n + c.utf8Size) n = n + String.utf8Len s := by
    induction s with
    | nil => exact fun n => rfl
    | cons c s ih =>
      intro n
      rw [List.foldl_cons, ih, String.utf8Len_cons]
      omega
  rw [bytes, hfrom, Nat.zero_add]

theorem utf8ByteSize_eq_bytes (u : String) : u.utf8ByteSize = bytes u.toList := by
  rw [bytes_eq, ← String.utf8ByteSize_ofList, String.ofList_toList]

theorem bytes_append (s t : List Char) : bytes (s ++ t) = bytes s + bytes t := by
  rw [bytes_eq, bytes_eq, bytes_eq, String.utf8Len_append]

theorem isValid_of_toList_eq_append {u : String} {before after : List Char}
    (h : u.toList = before ++ after) :
    String.Pos.Raw.IsValid u ⟨bytes before⟩ := by
  rw [String.Pos.Raw.isValid_iff_exists_append]
  refine ⟨String.ofList before, String.ofList after, ?_, ?_⟩
  · rw [← String.ofList_append, ← h, String.ofList_toList]
  · rw [bytes_eq, ← String.utf8ByteSize_ofList]
    rfl

/-- The header of the uri and any number of its descriptors stand before `rest`, which starts with
no other one. -/
structure StopsAt (u v rest : String) : Prop where
  split : u = v ++ rest
  spelled : ∃ j, EndsAfter u j v
  rest_ne : rest ≠ ""
  stuck : ∀ text d, SpellsDescriptor text d → ¬text <+: rest.toList

theorem stopsAt_of_readDescriptors {u scheme : String} {package : Package} {chain : List Char}
    {x : Stuck} (hh : SpellsHeader u.toList scheme package chain)
    (h : readDescriptors chain = .error x) :
    ∃ v rest, StopsAt u v rest ∧ x.2 <:+ rest.toList := by
  obtain ⟨text, rest, ds, rfl, hds, hne, hread⟩ := readDescriptors_eq_error_iff.1 h
  obtain ⟨v, hends, -, hu⟩ := hh.exists_endsAfter hds
  have hrest : (String.ofList rest).toList = rest := String.toList_ofList
  have hsplit : u = v ++ String.ofList rest := by
    rw [← String.toList_inj, String.toList_append, hrest]
    exact hu
  refine ⟨v, String.ofList rest, ⟨hsplit, ⟨_, hends⟩, by simpa using hne, ?_⟩, ?_⟩
  · rw [hrest]
    exact exists_readDescriptor_eq_error_iff.1 ⟨x, hread⟩
  · rw [hrest]
    exact readDescriptor_suffix hread

theorem StopsAt.exists_readDescriptors {u v rest : String} (h : StopsAt u v rest) :
    ∃ scheme package chain x, SpellsHeader u.toList scheme package chain ∧
      readDescriptors chain = .error x := by
  obtain ⟨j, scheme, package, before, after, ds, hh, hds, -, hu⟩ := h.spelled
  obtain rfl : rest.toList = after := by
    refine List.append_cancel_left ((?_ : v.toList ++ rest.toList = u.toList).trans hu)
    rw [← String.toList_append, ← h.split]
  obtain ⟨x, hx⟩ := exists_readDescriptor_eq_error_iff.2 h.stuck
  have hne : rest.toList ≠ [] := by simpa using h.rest_ne
  exact ⟨scheme, package, _, x, hh,
    readDescriptors_eq_error_iff.2 ⟨before, _, ds, rfl, hds, hne, hx⟩⟩

end CodeAtlas.SymbolText

namespace CodeAtlas
open SymbolText

namespace SymbolParts
variable {u : String} {e : SymbolError}

theorem ofGlobal?_of_spellsHeader {scheme : String} {package : Package} {chain : List Char}
    (h : SpellsHeader u.toList scheme package chain) :
    ofGlobal? u = if chain.isEmpty then .error (.noDescriptors u)
      else match readDescriptors chain with
        | .ok ds => .ok ⟨scheme, package, ds⟩
        | .error (fault, left) => .error (.malformed u (bytes u.toList - bytes left) fault) := by
  obtain ⟨h₁, h₂, h₃, h₄⟩ := h
  unfold ofGlobal?
  rw [requireField_eq_ok_iff.2 h₁]
  simp only [bind, Except.bind, requireField_eq_ok_iff.2 h₂, requireField_eq_ok_iff.2 h₃,
    requireField_eq_ok_iff.2 h₄]
  rfl

inductive GlobalFault (u : String) : SymbolError → Prop where
  | missingField {f : HeaderField} (h : FirstLacking u.toList f) : GlobalFault u (.missingField u f)
  | noDescriptors {scheme package} (h : SpellsHeader u.toList scheme package []) :
      GlobalFault u (.noDescriptors u)
  | malformed {scheme package chain} {fault : DescriptorFault} {left : List Char}
      (h : SpellsHeader u.toList scheme package chain)
      (hread : readDescriptors chain = .error (fault, left)) :
      GlobalFault u (.malformed u (bytes u.toList - bytes left) fault)

theorem ofGlobal?_of_firstLacking {f : HeaderField} (h : FirstLacking u.toList f) :
    ofGlobal? u = .error (.missingField u f) := by
  cases h with
  | scheme h =>
    exact bind_eq_error_iff.2 (.inl (requireField_eq_error_iff.2 ⟨h, rfl⟩))
  | manager h₁ h =>
    refine bind_eq_error_iff.2 (.inr ⟨_, requireField_eq_ok_iff.2 h₁, ?_⟩)
    exact bind_eq_error_iff.2 (.inl (requireField_eq_error_iff.2 ⟨h, rfl⟩))
  | name h₁ h₂ h =>
    refine bind_eq_error_iff.2 (.inr ⟨_, requireField_eq_ok_iff.2 h₁, ?_⟩)
    refine bind_eq_error_iff.2 (.inr ⟨_, requireField_eq_ok_iff.2 h₂, ?_⟩)
    exact bind_eq_error_iff.2 (.inl (requireField_eq_error_iff.2 ⟨h, rfl⟩))
  | version h₁ h₂ h₃ h =>
    refine bind_eq_error_iff.2 (.inr ⟨_, requireField_eq_ok_iff.2 h₁, ?_⟩)
    refine bind_eq_error_iff.2 (.inr ⟨_, requireField_eq_ok_iff.2 h₂, ?_⟩)
    refine bind_eq_error_iff.2 (.inr ⟨_, requireField_eq_ok_iff.2 h₃, ?_⟩)
    exact bind_eq_error_iff.2 (.inl (requireField_eq_error_iff.2 ⟨h, rfl⟩))

theorem ofGlobal?_eq_error_iff : ofGlobal? u = .error e ↔ GlobalFault u e := by
  constructor
  · intro h
    rcases exists_spellsHeader_or_firstLacking u.toList with
      ⟨scheme, package, chain, hheader⟩ | ⟨f, hlacking⟩
    · rw [ofGlobal?_of_spellsHeader hheader] at h
      split at h
      · rename_i hempty
        obtain rfl := List.isEmpty_iff.1 hempty
        cases h
        exact .noDescriptors hheader
      · split at h
        · cases h
        · rename_i hread
          cases h
          exact .malformed hheader hread
    · rw [ofGlobal?_of_firstLacking hlacking] at h
      cases h
      exact .missingField hlacking
  · intro h
    cases h with
    | missingField h => exact ofGlobal?_of_firstLacking h
    | noDescriptors h =>
      rw [ofGlobal?_of_spellsHeader h]
      rfl
    | @malformed scheme package chain fault left h hread =>
      have hne : chain ≠ [] := by
        rintro rfl
        rw [readDescriptors_nil] at hread
        cases hread
      rw [ofGlobal?_of_spellsHeader h, if_neg (by simpa using hne), hread]

end SymbolParts

namespace Symbol
variable {u : String} {e : SymbolError}

theorem ofUri?_of_localMark {id : List Char} (hid : u.toList = localMark ++ id) :
    SymbolParts.ofUri? u = if isIdentifier id then .ok
      ⟨"local", ⟨"", "", ""⟩, [⟨String.ofList id, .localId, none⟩]⟩
      else .error (.invalidLocal u) := by
  have hne : ¬u.isEmpty := by
    rintro hempty
    rw [String.isEmpty_iff.1 hempty] at hid
    cases hid
  have hmark : localMark.isPrefixOf u.toList := List.isPrefixOf_iff_prefix.2 ⟨id, hid.symm⟩
  have hdrop : u.toList.drop localMark.length = id := by rw [hid, List.drop_left]
  rw [SymbolParts.ofUri?, if_neg hne, if_pos hmark, hdrop]

theorem ofUri?_of_not_localMark (hne : u ≠ "") (hlocal : ¬localMark <+: u.toList) :
    SymbolParts.ofUri? u = SymbolParts.ofGlobal? u := by
  have hmark : ¬localMark.isPrefixOf u.toList := fun h => hlocal (List.isPrefixOf_iff_prefix.1 h)
  rw [SymbolParts.ofUri?, if_neg (by simpa using hne), if_neg hmark]

inductive Fault (u : String) : SymbolError → Prop where
  | empty (h : u = "") : Fault u .empty
  | invalidLocal {id : List Char} (hid : u.toList = localMark ++ id) (h : ¬isIdentifier id) :
      Fault u (.invalidLocal u)
  | ofGlobal {e : SymbolError} (hne : u ≠ "") (hlocal : ¬localMark <+: u.toList)
      (h : SymbolParts.GlobalFault u e) : Fault u e

theorem ofUri?_eq_error_iff : SymbolParts.ofUri? u = .error e ↔ Fault u e := by
  constructor
  · intro h
    rcases eq_or_ne u "" with rfl | hne
    · cases h
      exact .empty rfl
    by_cases hlocal : localMark <+: u.toList
    · obtain ⟨id, hid⟩ := hlocal
      rw [ofUri?_of_localMark hid.symm] at h
      split at h
      · cases h
      · rename_i hident
        cases h
        exact .invalidLocal hid.symm hident
    · rw [ofUri?_of_not_localMark hne hlocal] at h
      exact .ofGlobal hne hlocal (SymbolParts.ofGlobal?_eq_error_iff.1 h)
  · intro h
    cases h with
    | empty h =>
      subst h
      rfl
    | invalidLocal hid h => rw [ofUri?_of_localMark hid, if_neg h]
    | ofGlobal hne hlocal h =>
      rw [ofUri?_of_not_localMark hne hlocal]
      exact SymbolParts.ofGlobal?_eq_error_iff.2 h

theorem parse?_eq_error_iff : parse? u = .error e ↔ Fault u e := by
  rw [← ofUri?_eq_error_iff, parse?, bind_eq_error_iff]
  exact or_iff_left nofun

theorem parse?_eq_empty_iff : parse? u = .error .empty ↔ u = "" := by
  rw [parse?_eq_error_iff]
  constructor
  · intro h
    cases h with
    | empty h => exact h
    | ofGlobal _ _ h => cases h
  · exact .empty

theorem parse?_eq_invalidLocal_iff : parse? u = .error (.invalidLocal u) ↔
    ∃ id, u.toList = localMark ++ id ∧ ¬isIdentifier id := by
  rw [parse?_eq_error_iff]
  constructor
  · intro h
    cases h with
    | invalidLocal hid h => exact ⟨_, hid, h⟩
    | ofGlobal _ _ h => cases h
  · rintro ⟨id, hid, h⟩
    exact .invalidLocal hid h

theorem parse?_eq_missingField_iff {f : HeaderField} : parse? u = .error (.missingField u f) ↔
    u ≠ "" ∧ ¬localMark <+: u.toList ∧ FirstLacking u.toList f := by
  rw [parse?_eq_error_iff]
  constructor
  · intro h
    cases h with
    | ofGlobal hne hlocal h =>
      cases h with
      | missingField h => exact ⟨hne, hlocal, h⟩
  · rintro ⟨hne, hlocal, h⟩
    exact .ofGlobal hne hlocal (.missingField h)

theorem parse?_eq_noDescriptors_iff : parse? u = .error (.noDescriptors u) ↔
    ¬localMark <+: u.toList ∧ ∃ scheme package, SpellsHeader u.toList scheme package [] := by
  rw [parse?_eq_error_iff]
  constructor
  · intro h
    cases h with
    | ofGlobal _ hlocal h =>
      cases h with
      | noDescriptors h => exact ⟨hlocal, _, _, h⟩
  · rintro ⟨hlocal, scheme, package, h⟩
    exact .ofGlobal h.ne_empty hlocal (.noDescriptors h)

theorem exists_parse?_eq_malformed_iff : (∃ p fault, parse? u = .error (.malformed u p fault)) ↔
    ¬localMark <+: u.toList ∧ ∃ v rest, StopsAt u v rest := by
  simp only [parse?_eq_error_iff]
  constructor
  · rintro ⟨p, fault, h⟩
    cases h with
    | ofGlobal _ hlocal h =>
      cases h with
      | malformed h hread =>
        obtain ⟨v, rest, hstops, -⟩ := stopsAt_of_readDescriptors h hread
        exact ⟨hlocal, v, rest, hstops⟩
  · rintro ⟨hlocal, v, rest, hstops⟩
    obtain ⟨scheme, package, chain, ⟨fault, left⟩, h, hread⟩ := hstops.exists_readDescriptors
    exact ⟨_, fault, .ofGlobal h.ne_empty hlocal (.malformed h hread)⟩

theorem exists_stopsAt {p : Nat} {fault : DescriptorFault}
    (h : parse? u = .error (.malformed u p fault)) :
    ∃ v rest, StopsAt u v rest ∧ v.utf8ByteSize ≤ p ∧ p ≤ u.utf8ByteSize ∧
      String.Pos.Raw.IsValid u ⟨v.utf8ByteSize⟩ ∧ String.Pos.Raw.IsValid u ⟨p⟩ := by
  rw [parse?_eq_error_iff] at h
  cases h with
  | ofGlobal _ _ h =>
    cases h with
    | @malformed scheme package chain fault left h hread =>
      obtain ⟨v, rest, hstops, within, hwithin⟩ := stopsAt_of_readDescriptors h hread
      have hu : u.toList = v.toList ++ (within ++ left) := by
        rw [hwithin, ← String.toList_append, ← hstops.split]
      have hposition : bytes u.toList - bytes left = bytes (v.toList ++ within) := by
        rw [hu, ← List.append_assoc, bytes_append, Nat.add_sub_cancel]
      refine ⟨v, rest, hstops, ?_, ?_, ?_, ?_⟩
      · rw [hposition, utf8ByteSize_eq_bytes, bytes_append]
        exact Nat.le_add_right _ _
      · rw [utf8ByteSize_eq_bytes]
        exact Nat.sub_le _ _
      · rw [utf8ByteSize_eq_bytes]
        exact isValid_of_toList_eq_append hu
      · rw [hposition]
        exact isValid_of_toList_eq_append (hu.trans (List.append_assoc _ _ _).symm)

/-- Each error tells how far a text is legal that is no uri. -/
theorem parse?_faults (u : String) :
    (parse? u = .error .empty ↔ u = "") ∧
      (parse? u = .error (.invalidLocal u) ↔ ∃ id, u.toList = localMark ++ id ∧ ¬isIdentifier id) ∧
      (∀ f, parse? u = .error (.missingField u f) ↔
        u ≠ "" ∧ ¬localMark <+: u.toList ∧ FirstLacking u.toList f) ∧
      (parse? u = .error (.noDescriptors u) ↔
        ¬localMark <+: u.toList ∧ ∃ scheme package, SpellsHeader u.toList scheme package []) ∧
      ((∃ p fault, parse? u = .error (.malformed u p fault)) ↔
        ¬localMark <+: u.toList ∧ ∃ v rest, StopsAt u v rest) ∧
      (∀ p fault, parse? u = .error (.malformed u p fault) →
        ∃ v rest, StopsAt u v rest ∧ v.utf8ByteSize ≤ p ∧ p ≤ u.utf8ByteSize ∧
          String.Pos.Raw.IsValid u ⟨v.utf8ByteSize⟩ ∧ String.Pos.Raw.IsValid u ⟨p⟩) ∧
      ∀ e, parse? u = .error e → e = .empty ∨ e = .invalidLocal u ∨ (∃ f, e = .missingField u f) ∨
        e = .noDescriptors u ∨ ∃ p fault, e = .malformed u p fault := by
  refine ⟨parse?_eq_empty_iff, parse?_eq_invalidLocal_iff, fun f => parse?_eq_missingField_iff,
    parse?_eq_noDescriptors_iff, exists_parse?_eq_malformed_iff,
    fun p fault => exists_stopsAt, fun e h => ?_⟩
  rw [parse?_eq_error_iff] at h
  cases h with
  | empty => exact .inl rfl
  | invalidLocal => exact .inr (.inl rfl)
  | ofGlobal _ _ h =>
    cases h with
    | missingField => exact .inr (.inr (.inl ⟨_, rfl⟩))
    | noDescriptors => exact .inr (.inr (.inr (.inl rfl)))
    | malformed => exact .inr (.inr (.inr (.inr ⟨_, _, rfl⟩)))

end Symbol
end CodeAtlas
