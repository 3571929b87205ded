import CodeAtlas.Outcome
import CodeAtlas.Symbol.Error
import CodeAtlas.Symbol.Printer

/-! Reads symbol uris. Each step answers with what it read and the text after it, or with a fault
and the text not yet looked at, from which the byte position of the fault follows. -/

namespace CodeAtlas

namespace SymbolText

abbrev Stuck := DescriptorFault × List Char

/-- A text up to its closing mark, two marks standing for one, and what follows; `none` if the text
ends first. -/
def readClosed (mark : Char) : List Char → Option (List Char × List Char)
  | [] => none
  | [c] => if c = mark then some ([], []) else none
  | c :: d :: rest =>
    if c = mark then
      if d = mark then (readClosed mark rest).map fun (s, r) => (mark :: s, r)
      else some ([], d :: rest)
    else (readClosed mark (d :: rest)).map fun (s, r) => (c :: s, r)

def field? (s : List Char) : Option (String × List Char) :=
  match readClosed ' ' s with
  | none => none
  | some (value, rest) => if value.isEmpty then none else some (String.ofList value, rest)

def expect (wanted : Char) : List Char → Except Stuck (List Char)
  | [] => .error (.expected wanted none, [])
  | c :: rest => if c = wanted then .ok rest else .error (.expected wanted (some c), rest)

def readName (s : List Char) : Except Stuck (String × List Char) :=
  match s with
  | [] => .error (.noName, s)
  | c :: rest =>
    if c = backtick then
      match readClosed backtick rest with
      | none => .error (.unterminatedName, [])
      | some (value, rest) =>
        if value.isEmpty then .error (.emptyName, rest) else .ok (String.ofList value, rest)
    else
      let value := s.takeWhile isIdentifierChar
      if value.isEmpty then .error (.noName, s)
      else .ok (String.ofList value, s.dropWhile isIdentifierChar)

def readBracketed (kind : DescriptorKind) (close : Char) (s : List Char) :
    Except Stuck (Descriptor × List Char) := do
  let (name, rest) ← readName s
  let rest ← expect close rest
  return (⟨name, kind, none⟩, rest)

def readMethod (name : String) (s : List Char) : Except Stuck (Descriptor × List Char) := do
  let disambiguator := s.takeWhile isIdentifierChar
  let rest ← expect ')' (s.dropWhile isIdentifierChar)
  let rest ← expect '.' rest
  return (⟨name, .method, if disambiguator.isEmpty then none
    else some (String.ofList disambiguator)⟩,
    rest)

def suffixKind? (c : Char) : Option DescriptorKind :=
  if c = '/' then some .scope
  else if c = '#' then some .type
  else if c = '.' then some .term
  else if c = ':' then some .metadata
  else if c = '!' then some .macroDef
  else none

theorem suffixKind?_eq_some_iff {c : Char} {kind : DescriptorKind} :
    suffixKind? c = some kind ↔ c = '/' ∧ kind = .scope ∨ c = '#' ∧ kind = .type ∨
      c = '.' ∧ kind = .term ∨ c = ':' ∧ kind = .metadata ∨ c = '!' ∧ kind = .macroDef := by
  constructor
  · intro h
    unfold suffixKind? at h
    repeat' split at h
    all_goals simp_all
  · rintro (⟨rfl, rfl⟩ | ⟨rfl, rfl⟩ | ⟨rfl, rfl⟩ | ⟨rfl, rfl⟩ | ⟨rfl, rfl⟩) <;> rfl

def readSuffixed (s : List Char) : Except Stuck (Descriptor × List Char) := do
  let (name, rest) ← readName s
  match rest with
  | [] => .error (.noSuffix, [])
  | c :: rest =>
    if c = '(' then readMethod name rest
    else match suffixKind? c with
      | some kind => return (⟨name, kind, none⟩, rest)
      | none => .error (.unknownSuffix c, rest)

def readDescriptor (s : List Char) : Except Stuck (Descriptor × List Char) :=
  match s with
  | '(' :: rest => readBracketed .parameter ')' rest
  | '[' :: rest => readBracketed .typeParameter ']' rest
  | _ => readSuffixed s

theorem readClosed_length {mark : Char} {s value rest : List Char}
    (h : readClosed mark s = some (value, rest)) : rest.length < s.length := by
  fun_induction readClosed mark s generalizing value rest with
  | case1 => simp at h
  | case2 => simp_all
  | case3 => simp at h
  | case4 tail ih =>
    obtain ⟨⟨v, r⟩, hr, he⟩ := Option.map_eq_some_iff.1 h
    have := ih hr
    simp_all only [Prod.mk.injEq, List.length_cons]
    omega
  | case5 =>
    simp only [Option.some.injEq, Prod.mk.injEq] at h
    simp [← h.2]
  | case6 c d tail _ ih =>
    obtain ⟨⟨v, r⟩, hr, he⟩ := Option.map_eq_some_iff.1 h
    have := ih hr
    simp_all only [Prod.mk.injEq, List.length_cons]
    omega

theorem readName_length {s rest : List Char} {name : String}
    (h : readName s = .ok (name, rest)) : rest.length < s.length := by
  unfold readName at h
  split at h
  · simp at h
  · rename_i c tail
    split at h
    · split at h
      · simp at h
      · rename_i hq
        split at h
        · simp at h
        · have := readClosed_length hq
          simp only [Except.ok.injEq, Prod.mk.injEq] at h
          obtain ⟨_, rfl⟩ := h
          simp only [List.length_cons]
          omega
    · simp only at h
      split at h
      · simp at h
      · rename_i hv
        simp only [Except.ok.injEq, Prod.mk.injEq] at h
        obtain ⟨_, rfl⟩ := h
        have hsplit := congrArg List.length
          (List.takeWhile_append_dropWhile (p := isIdentifierChar) (l := c :: tail))
        have : 0 < ((c :: tail).takeWhile isIdentifierChar).length := by
          rw [List.length_pos_iff]; simpa using hv
        rw [List.length_append] at hsplit
        omega

theorem expect_eq_ok_iff {wanted : Char} {s rest : List Char} :
    expect wanted s = .ok rest ↔ s = wanted :: rest := by
  cases s with
  | nil => simp [expect]
  | cons c s => by_cases h : c = wanted <;> simp [expect, h]

theorem expect_length {wanted : Char} {s rest : List Char} (h : expect wanted s = .ok rest) :
    rest.length < s.length := by
  simp [expect_eq_ok_iff.1 h]

theorem readBracketed_length {kind : DescriptorKind} {close : Char} {s rest : List Char}
    {d : Descriptor} (h : readBracketed kind close s = .ok (d, rest)) : rest.length < s.length := by
  obtain ⟨⟨name, afterName⟩, hn, h⟩ := bind_eq_ok_iff.1 h
  obtain ⟨_, he, h⟩ := bind_eq_ok_iff.1 h
  obtain ⟨_, rfl⟩ := Prod.mk.inj (Except.ok.inj h)
  exact Nat.lt_trans (expect_length he) (readName_length hn)

theorem readMethod_length {name : String} {s rest : List Char} {d : Descriptor}
    (h : readMethod name s = .ok (d, rest)) : rest.length < s.length := by
  obtain ⟨_, hc, h⟩ := bind_eq_ok_iff.1 h
  obtain ⟨_, he, h⟩ := bind_eq_ok_iff.1 h
  obtain ⟨_, rfl⟩ := Prod.mk.inj (Except.ok.inj h)
  have htag := (List.dropWhile_sublist isIdentifierChar (l := s)).length_le
  exact Nat.lt_of_lt_of_le (Nat.lt_trans (expect_length he) (expect_length hc)) htag

theorem readSuffixed_length {s rest : List Char} {d : Descriptor}
    (h : readSuffixed s = .ok (d, rest)) : rest.length < s.length := by
  obtain ⟨⟨name, tail⟩, hn, h⟩ := bind_eq_ok_iff.1 h
  have hlen := readName_length hn
  match tail with
  | [] => cases h
  | c :: more =>
    have hmore : more.length < (c :: more).length := Nat.lt_succ_self _
    simp only at h
    split at h
    · exact Nat.lt_trans (readMethod_length h) (Nat.lt_trans hmore hlen)
    · split at h
      · obtain ⟨_, rfl⟩ := Prod.mk.inj (Except.ok.inj h)
        exact Nat.lt_trans hmore hlen
      · cases h

theorem readDescriptor_length {s rest : List Char} {d : Descriptor}
    (h : readDescriptor s = .ok (d, rest)) : rest.length < s.length := by
  unfold readDescriptor at h
  split at h
  · exact Nat.lt_succ_of_lt (readBracketed_length h)
  · exact Nat.lt_succ_of_lt (readBracketed_length h)
  · exact readSuffixed_length h

def readDescriptors (s : List Char) : Except Stuck (List Descriptor) :=
  if s.isEmpty then .ok []
  else match _h : readDescriptor s with
    | .error fault => .error fault
    | .ok (d, rest) => do
      let more ← readDescriptors rest
      return d :: more
termination_by s.length
decreasing_by exact readDescriptor_length _h

@[simp] theorem readDescriptors_nil : readDescriptors [] = .ok [] := by
  simp [readDescriptors]

theorem readDescriptors_of_readDescriptor {s rest : List Char} {d : Descriptor}
    (h : readDescriptor s = .ok (d, rest)) :
    readDescriptors s = (readDescriptors rest).map (d :: ·) := by
  have hs : s ≠ [] := by
    rintro rfl
    exact absurd (readDescriptor_length h) (Nat.not_lt_zero _)
  rw [readDescriptors, if_neg (by simpa using hs)]
  split
  · rename_i hd
    cases h.symm.trans hd
  · rename_i d' rest' hd
    obtain ⟨rfl, rfl⟩ := Prod.mk.inj (Except.ok.inj (h.symm.trans hd))
    rfl

def bytes (s : List Char) : Nat := s.foldl (fun n c => n + c.utf8Size) 0

end SymbolText

open SymbolText

namespace SymbolParts

def requireField (uri : String) (f : HeaderField) (s : List Char) :
    Except SymbolError (String × List Char) :=
  match field? s with
  | some r => .ok r
  | none => .error (.missingField uri f)

def ofGlobal? (uri : String) : Except SymbolError SymbolParts := do
  let (scheme, rest) ← requireField uri .scheme uri.toList
  let (manager, rest) ← requireField uri .manager rest
  let (name, rest) ← requireField uri .name rest
  let (version, rest) ← requireField uri .version rest
  if rest.isEmpty then .error (.noDescriptors uri)
  else match readDescriptors rest with
    | .ok descriptors => return ⟨scheme, ⟨manager, name, version⟩, descriptors⟩
    | .error (fault, left) => .error (.malformed uri (bytes uri.toList - bytes left) fault)

def ofUri? (uri : String) : Except SymbolError SymbolParts :=
  if uri.isEmpty then .error .empty
  else if localMark.isPrefixOf uri.toList then
    let id := uri.toList.drop localMark.length
    if isIdentifier id then .ok ⟨"local", ⟨"", "", ""⟩, [⟨String.ofList id, .localId, none⟩]⟩
    else .error (.invalidLocal uri)
  else ofGlobal? uri

end SymbolParts

namespace Symbol

/-- The symbol with the given uri. The uri is kept as written, though another may spell the same
parts. -/
def parse? (uri : String) : Except SymbolError Symbol := do
  return ⟨uri, ← SymbolParts.ofUri? uri⟩

theorem uri_of_parse? {uri : String} {s : Symbol} (h : parse? uri = .ok s) : s.uri = uri := by
  obtain ⟨parts, _, hs⟩ := bind_eq_ok_iff.1 h
  cases hs
  rfl

end Symbol

end CodeAtlas
