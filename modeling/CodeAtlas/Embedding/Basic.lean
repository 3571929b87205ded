import CodeAtlas.Files.Basic
import CodeAtlas.Symbol.Basic

/-! Embeddings of symbols: vectors built from source text or from documentation. -/

namespace CodeAtlas

/-- What a vector was built from. -/
inductive EmbeddingKind where
  | code
  | doc (summary context : String)
  deriving Repr, DecidableEq

/-- A symbol has at most one embedding in each slot. -/
inductive EmbeddingSlot where
  | code | doc
  deriving Repr, DecidableEq

def EmbeddingSlot.label : EmbeddingSlot → String
  | .code => "code"
  | .doc => "doc"

def EmbeddingKind.slot : EmbeddingKind → EmbeddingSlot
  | .code => .code
  | .doc _ _ => .doc

/-- Where a store keeps an embedding: the slot and the dotted path of the symbol, which stays the
same when the version of its package changes. -/
structure EmbeddingKey where
  slot : EmbeddingSlot
  path : String
  deriving Repr, DecidableEq

namespace EmbeddingKey

def text (k : EmbeddingKey) : String := k.path ++ " (" ++ k.slot.label ++ ")"

def before (a b : EmbeddingKey) : Bool :=
  match a.slot, b.slot with
  | .code, .doc => true
  | .doc, .code => false
  | _, _ => a.path < b.path

theorem before_iff {a b : EmbeddingKey} :
    a.before b ↔ a.slot = .code ∧ b.slot = .doc ∨ a.slot = b.slot ∧ a.path < b.path := by
  obtain ⟨slot, path⟩ := a
  obtain ⟨slot', path'⟩ := b
  cases slot <;> cases slot' <;> simp [before]

theorem before_irrefl (a : EmbeddingKey) : a.before a = false := by
  refine Bool.eq_false_iff.2 fun h => ?_
  rcases before_iff.1 h with ⟨hcode, hdoc⟩ | ⟨-, hlt⟩
  · rw [hcode] at hdoc
    cases hdoc
  · exact String.lt_irrefl a.path hlt

theorem before_trans {a b c : EmbeddingKey} (hab : a.before b) (hbc : b.before c) : a.before c := by
  rw [before_iff] at hab hbc ⊢
  rcases hab with ⟨ha, hb⟩ | ⟨hab, hlt⟩
  · rcases hbc with ⟨hb', -⟩ | ⟨hbc, -⟩
    · rw [hb] at hb'
      cases hb'
    · exact .inl ⟨ha, hbc.symm.trans hb⟩
  · rcases hbc with ⟨hb, hc⟩ | ⟨hbc, hlt'⟩
    · exact .inl ⟨hab.trans hb, hc⟩
    · exact .inr ⟨hab.trans hbc, String.lt_trans hlt hlt'⟩

theorem eq_or_before_or_before (a b : EmbeddingKey) : a = b ∨ a.before b ∨ b.before a := by
  obtain ⟨slot, path⟩ := a
  obtain ⟨slot', path'⟩ := b
  rw [before_iff, before_iff]
  by_cases hlt : path < path'
  · cases slot <;> cases slot' <;> simp [hlt]
  · by_cases hgt : path' < path
    · cases slot <;> cases slot' <;> simp [hgt]
    · have hpath : path = path' := String.le_antisymm (String.not_lt.1 hgt) (String.not_lt.1 hlt)
      cases slot <;> cases slot' <;> simp [hpath]

end EmbeddingKey

structure Embedding (κ : Type) where
  symbol : Symbol
  document : String
  vector : List κ
  kind : EmbeddingKind
  deriving Repr

namespace Embedding

variable {κ : Type}

def slot (e : Embedding κ) : EmbeddingSlot := e.kind.slot

def key (e : Embedding κ) : EmbeddingKey := ⟨e.slot, e.symbol.dotpath⟩

end Embedding

inductive RecordFault where
  /-- The text is not JSON. -/
  | malformed
  /-- The JSON is something else. -/
  | mismatch
  deriving Repr, DecidableEq

def RecordFault.message : RecordFault → String
  | .malformed => "invalid JSON"
  | .mismatch => "not a list of embeddings"

inductive EmbeddingError where
  | provider (reason : String)
  | duplicateKey (key : EmbeddingKey)
  | missingKey (key : EmbeddingKey)
  | dimensionMismatch (expected actual : Nat)
  | file (path : String) (cause : FileError)
  | records (fault : RecordFault)
  deriving Repr, DecidableEq

def EmbeddingError.message : EmbeddingError → String
  | .provider reason => "Embedding provider failed: " ++ reason
  | .duplicateKey key => "Embedding already stored for " ++ key.text
  | .missingKey key => "No embedding stored for " ++ key.text
  | .dimensionMismatch expected actual =>
    "Dimension mismatch: expected " ++ toString expected ++ ", got " ++ toString actual
  | .file path cause => "Failed to access vector store " ++ path ++ ": " ++ cause.message
  | .records fault => "Failed to (de)serialize vector store: " ++ fault.message

end CodeAtlas
