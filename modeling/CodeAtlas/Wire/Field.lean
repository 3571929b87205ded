import CodeAtlas.Wire.Varint

/-! Messages as sequences of numbered fields. Groups, which no message of ours declares, are skipped
whole, within a limit on how deep they nest. -/

namespace CodeAtlas.Wire

inductive Payload where
  | varint (value : Nat)
  | fixed64
  | bytes (data : List UInt8)
  | group
  | fixed32
  deriving Repr, DecidableEq

structure Field where
  number : Nat
  payload : Payload
  deriving Repr, DecidableEq

inductive Form where
  | varint | fixed64 | bytes | groupStart | groupEnd | fixed32
  deriving Repr, DecidableEq

def Form.ofCode? : Nat → Option Form
  | 0 => some .varint
  | 1 => some .fixed64
  | 2 => some .bytes
  | 3 => some .groupStart
  | 4 => some .groupEnd
  | 5 => some .fixed32
  | _ => none

/-- A key of at most 32 bits with a field number above zero. -/
def readKey (s : List UInt8) : Option (Nat × Form × List UInt8) := do
  let (key, rest) ← readVarint s
  guard (key < UInt32.size)
  let form ← Form.ofCode? (key % 8)
  guard (0 < key / 8)
  return (key / 8, form, rest)

def takeBytes (n : Nat) (s : List UInt8) : Option (List UInt8 × List UInt8) :=
  let data := s.take n
  if data.length = n then some (data, s.drop n) else none

def readPlain (form : Form) (s : List UInt8) : Option (Payload × List UInt8) :=
  match form with
  | .varint => (readVarint s).map fun (n, rest) => (.varint n, rest)
  | .fixed64 => (takeBytes 8 s).map fun (_, rest) => (.fixed64, rest)
  | .fixed32 => (takeBytes 4 s).map fun (_, rest) => (.fixed32, rest)
  | .bytes => (readVarint s).bind fun (n, rest) =>
      (takeBytes n rest).map fun (data, rest) => (.bytes data, rest)
  | .groupStart | .groupEnd => none

theorem takeBytes_length {n : Nat} {s data rest : List UInt8}
    (h : takeBytes n s = some (data, rest)) : rest.length ≤ s.length := by
  unfold takeBytes at h
  simp only at h
  split at h
  · simp only [Option.some.injEq, Prod.mk.injEq] at h
    simp [← h.2]
  · simp at h

theorem readPlain_length {form : Form} {p : Payload} {s rest : List UInt8}
    (h : readPlain form s = some (p, rest)) : rest.length ≤ s.length := by
  cases form with
  | varint =>
    obtain ⟨⟨n, r⟩, hr, he⟩ := Option.map_eq_some_iff.1 h
    simp only [Prod.mk.injEq] at he
    have := readVarint_length hr
    rw [← he.2]
    omega
  | fixed64 =>
    obtain ⟨⟨n, r⟩, hr, he⟩ := Option.map_eq_some_iff.1 h
    simp only [Prod.mk.injEq] at he
    exact he.2 ▸ takeBytes_length hr
  | fixed32 =>
    obtain ⟨⟨n, r⟩, hr, he⟩ := Option.map_eq_some_iff.1 h
    simp only [Prod.mk.injEq] at he
    exact he.2 ▸ takeBytes_length hr
  | bytes =>
    obtain ⟨⟨n, r⟩, hr, he⟩ := Option.bind_eq_some_iff.1 h
    obtain ⟨⟨d, t⟩, ht, he⟩ := Option.map_eq_some_iff.1 he
    simp only [Prod.mk.injEq] at he
    have h₁ := readVarint_length hr
    have h₂ := takeBytes_length ht
    rw [← he.2]
    omega
  | groupStart => simp [readPlain] at h
  | groupEnd => simp [readPlain] at h

theorem readKey_length {number : Nat} {form : Form} {s rest : List UInt8}
    (h : readKey s = some (number, form, rest)) : rest.length < s.length := by
  unfold readKey at h
  obtain ⟨⟨key, r⟩, hr, h⟩ := Option.bind_eq_some_iff.1 h
  obtain ⟨_, _, h⟩ := Option.bind_eq_some_iff.1 h
  obtain ⟨_, _, h⟩ := Option.bind_eq_some_iff.1 h
  obtain ⟨_, _, h⟩ := Option.bind_eq_some_iff.1 h
  simp only [pure, Option.some.injEq, Prod.mk.injEq] at h
  exact h.2.2 ▸ readVarint_length hr

/-- One step inside the group `number` and the groups `outer` around it: the groups still open after
it and the bytes that follow. A field inside `limit` or more groups is refused. -/
def groupStep (limit number : Nat) (outer : List Nat) (s : List UInt8) :
    Option (List Nat × List UInt8) :=
  match readKey s with
  | none => none
  | some (found, .groupEnd, rest) => if found = number then some (outer, rest) else none
  | some (found, .groupStart, rest) =>
    if outer.length + 1 < limit then some (found :: number :: outer, rest) else none
  | some (_, form, rest) =>
    if outer.length + 1 < limit then
      (readPlain form rest).map fun (_, rest) => (number :: outer, rest)
    else none

theorem groupStep_length {limit number : Nat} {outer opened : List Nat} {s rest : List UInt8}
    (h : groupStep limit number outer s = some (opened, rest)) : rest.length < s.length := by
  unfold groupStep at h
  split at h
  · simp at h
  all_goals
    rename_i hk
    have := readKey_length hk
    split at h
    · first
      | simp only [Option.some.injEq, Prod.mk.injEq] at h
        exact h.2 ▸ this
      | obtain ⟨⟨p, r⟩, hp, he⟩ := Option.map_eq_some_iff.1 h
        simp only [Prod.mk.injEq] at he
        have := readPlain_length hp
        rw [← he.2]
        omega
    · simp at h

def skipGroups (limit : Nat) (opened : List Nat) (s : List UInt8) : Option (List UInt8) :=
  match opened with
  | [] => some s
  | number :: outer =>
    match _h : groupStep limit number outer s with
    | none => none
    | some (opened, rest) => skipGroups limit opened rest
termination_by s.length
decreasing_by exact groupStep_length _h

theorem skipGroups_length {limit : Nat} {opened : List Nat} {s rest : List UInt8}
    (h : skipGroups limit opened s = some rest) : rest.length ≤ s.length := by
  fun_induction skipGroups limit opened s with
  | case1 => simp_all
  | case2 => simp at h
  | case3 _ _ _ _ _ hs ih =>
    have := ih h
    have := groupStep_length hs
    omega

def readField (limit : Nat) (s : List UInt8) : Option (Field × List UInt8) :=
  match readKey s with
  | none => none
  | some (number, .groupStart, rest) =>
    (skipGroups limit [number] rest).map fun rest => (⟨number, .group⟩, rest)
  | some (number, form, rest) =>
    (readPlain form rest).map fun (payload, rest) => (⟨number, payload⟩, rest)

theorem readField_length {limit : Nat} {f : Field} {s rest : List UInt8}
    (h : readField limit s = some (f, rest)) : rest.length < s.length := by
  unfold readField at h
  split at h
  · simp at h
  · rename_i hk
    obtain ⟨r, hr, he⟩ := Option.map_eq_some_iff.1 h
    simp only [Prod.mk.injEq] at he
    have h₁ := readKey_length hk
    have h₂ := skipGroups_length hr
    rw [← he.2]
    omega
  · rename_i hk
    obtain ⟨⟨p, r⟩, hr, he⟩ := Option.map_eq_some_iff.1 h
    simp only [Prod.mk.injEq] at he
    have h₁ := readKey_length hk
    have h₂ := readPlain_length hr
    rw [← he.2]
    omega

def readFields (limit : Nat) (s : List UInt8) : Option (List Field) :=
  if s.isEmpty then some []
  else match _h : readField limit s with
    | none => none
    | some (f, rest) => (readFields limit rest).map (f :: ·)
termination_by s.length
decreasing_by exact readField_length _h

def writeKey (number form : Nat) : List UInt8 := writeVarint (number * 8 + form)

/-- A field in its written form; only numbers and byte strings are ever written. -/
def Field.write (f : Field) : List UInt8 :=
  match f.payload with
  | .varint n => writeKey f.number 0 ++ writeVarint n
  | .bytes data => writeKey f.number 2 ++ writeVarint data.length ++ data
  | .fixed64 => writeKey f.number 1 ++ List.replicate 8 0
  | .fixed32 => writeKey f.number 5 ++ List.replicate 4 0
  | .group => writeKey f.number 3 ++ writeKey f.number 4

def writeFields (fs : List Field) : List UInt8 := fs.flatMap Field.write

def readMessage {α : Type} (limit : Nat) (absorb : α → Field → Option α) (start : α)
    (s : List UInt8) : Option α :=
  (readFields limit s).bind fun fs => fs.foldlM absorb start

namespace Payload

def int32? : Payload → Option Int32
  | varint n => some (int32OfBits n)
  | _ => none

def bool? : Payload → Option Bool
  | varint n => some (n ≠ 0)
  | _ => none

def bytes? : Payload → Option (List UInt8)
  | bytes data => some data
  | _ => none

def string? : Payload → Option String
  | bytes data => String.fromUTF8? ⟨data.toArray⟩
  | _ => none

def unpack (s : List UInt8) : Option (List Int32) :=
  if s.isEmpty then some []
  else match _h : readVarint s with
    | none => none
    | some (n, rest) => (unpack rest).map (int32OfBits n :: ·)
termination_by s.length
decreasing_by exact readVarint_length _h

def int32s? : Payload → Option (List Int32)
  | varint n => some [int32OfBits n]
  | bytes data => unpack data
  | _ => none

def ofString (s : String) : Payload := .bytes s.toUTF8.toList

def ofInt32 (x : Int32) : Payload := .varint (int32Bits x)

def pack (xs : List Int32) : Payload := .bytes (xs.flatMap fun x => writeVarint (int32Bits x))

end Payload

end CodeAtlas.Wire
