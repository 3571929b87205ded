/-! Base-128 numbers of at most 64 bits: seven bits a byte, low bits first, the top bit set on every
byte but the last. -/

namespace CodeAtlas.Wire

/-- Reads a number of at most `budget` bytes; the tenth may only carry the one bit that is left. -/
def readVarintWithin : Nat → List UInt8 → Option (Nat × List UInt8)
  | 0, _ => none
  | _ + 1, [] => none
  | budget + 1, b :: rest =>
    if b < 128 then
      if budget = 0 ∧ 2 ≤ b then none else some (b.toNat, rest)
    else do
      let (high, rest) ← readVarintWithin budget rest
      return (b.toNat - 128 + 128 * high, rest)

def readVarint (s : List UInt8) : Option (Nat × List UInt8) := readVarintWithin 10 s

def writeVarint (n : Nat) : List UInt8 :=
  if n < 128 then [n.toUInt8] else (n % 128 + 128).toUInt8 :: writeVarint (n / 128)

/-- A signed 32-bit number is written as its 64-bit two's complement. -/
def int32Bits (x : Int32) : Nat := x.toInt64.toUInt64.toNat

def int32OfBits (n : Nat) : Int32 := n.toUInt32.toInt32

theorem readVarintWithin_length {budget n : Nat} {s rest : List UInt8}
    (h : readVarintWithin budget s = some (n, rest)) : rest.length < s.length := by
  induction budget generalizing n s rest with
  | zero => simp [readVarintWithin] at h
  | succ budget ih =>
    cases s with
    | nil => simp [readVarintWithin] at h
    | cons b tail =>
      unfold readVarintWithin at h
      split at h
      · split at h
        · simp at h
        · simp only [Option.some.injEq, Prod.mk.injEq] at h
          simp [h.2]
      · obtain ⟨⟨high, r⟩, hr, he⟩ := Option.bind_eq_some_iff.1 h
        simp only [pure, Option.some.injEq, Prod.mk.injEq] at he
        have := ih hr
        rw [← he.2, List.length_cons]
        omega

theorem readVarint_length {n : Nat} {s rest : List UInt8} (h : readVarint s = some (n, rest)) :
    rest.length < s.length :=
  readVarintWithin_length h

end CodeAtlas.Wire
