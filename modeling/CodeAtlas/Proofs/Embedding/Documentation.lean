import CodeAtlas.Proofs.Embedding.Upkeep

/-! Documentation read back after it has been written. The symbol and the text are those of the last
call. So are the summary and the context, unless the text was there before: then the entry keeps the
ones it had. -/

namespace CodeAtlas

variable {κ σ : Type}

namespace VectorStore
variable {s : VectorStore κ} {p : EmbeddingProvider (StateM σ) κ} {symbol : Symbol}
  {document : String} {st : σ} {update : EmbeddingUpdate}

def documentation? (s : VectorStore κ) (symbol : Symbol) : Option (Embedding κ) :=
  s.get? ⟨.doc, symbol.dotpath⟩

/-! ### One text -/

def keptKind (s : VectorStore κ) (symbol : Symbol) (document : String) (kind : EmbeddingKind) :
    EmbeddingKind :=
  match s.get? ⟨kind.slot, symbol.dotpath⟩ with
  | some e => if e.document = document then e.kind else kind
  | none => kind

theorem keptKind_of_text?_ne {kind : EmbeddingKind}
    (h : s.text? ⟨kind.slot, symbol.dotpath⟩ ≠ some document) :
    s.keptKind symbol document kind = kind := by
  unfold keptKind
  split
  · rename_i e he
    have hdocument : e.document ≠ document := by
      rintro rfl
      exact h (by rw [text?, he, Option.map_some])
    rw [if_neg hdocument]
  · rfl

theorem keptKind_of_get? {kind : EmbeddingKind} {e : Embedding κ}
    (h : s.get? ⟨kind.slot, symbol.dotpath⟩ = some e) :
    s.keptKind symbol e.document kind = e.kind := by
  rw [keptKind, h]
  exact if_pos rfl

theorem processWith_get? {kind : EmbeddingKind} (hs : s.Keyed)
    (h : ((s.processWith p symbol document kind).run st).1.1 = .ok update) :
    ∃ e, ((s.processWith p symbol document kind).run st).1.2.get? ⟨kind.slot, symbol.dotpath⟩ =
      some e ∧
      e.symbol == symbol ∧ e.document = document ∧ e.kind = s.keptKind symbol document kind := by
  rcases refresh_cases hs symbol document kind.slot with ⟨hother, -⟩ | ⟨e, he, rfl, -⟩
  · rw [processWith_eq_none p kind hother] at h ⊢
    change (s.concludeWith symbol document kind (p.vector document st).1).1 = .ok update at h
    change ∃ e, (s.concludeWith symbol document kind (p.vector document st).1).2.get? _ = some e ∧ _
    cases houtcome : (p.vector document st).1 with
    | error cause =>
      rw [houtcome] at h
      cases h
    | ok vector =>
      exact ⟨⟨symbol, document, vector, kind⟩, (get?_put s _ _).trans (if_pos rfl), BEq.rfl, rfl,
        (keptKind_of_text?_ne hother).symm⟩
  · rw [processWith_eq_some p kind hs he]
    have hkey : (e.renamed symbol).key = ⟨kind.slot, symbol.dotpath⟩ := renamed_key (hs.key_eq he)
    refine ⟨e.renamed symbol, (get?_put s _ _).trans (if_pos hkey.symm), renamed_symbol e symbol,
      renamed_document e symbol, ?_⟩
    rw [renamed_kind, keptKind_of_get? he]

/-! ### Summary and context -/

theorem keptKind_eq_iff {kind : EmbeddingKind} :
    s.keptKind symbol document kind = kind ↔
      ∀ old, s.get? ⟨kind.slot, symbol.dotpath⟩ = some old → old.document = document →
        old.kind = kind := by
  unfold keptKind
  split
  · rename_i e he
    rw [he]
    by_cases hdocument : e.document = document <;> simp [hdocument]
  · rename_i he
    rw [he]
    simp

/-- Documentation that has been accepted is read back with its symbol and its text. The summary and
the context are the ones given if and only if the text is new to the symbol or stood there with
them; otherwise the old ones stay. -/
theorem documentation?_processDocumentation_iff {summary context : String} (hs : s.Keyed)
    (h : ((s.processDocumentation p symbol document summary context).run st).1.1 = .ok update) :
    ∃ e, ((s.processDocumentation p symbol document summary context).run st).1.2.documentation?
      symbol = some e ∧
      e.symbol == symbol ∧ e.document = document ∧
      (e.kind = .doc summary context ↔ ∀ old, s.documentation? symbol = some old →
        old.document = document →
        old.kind = .doc summary context) ∧
      ∀ old, s.documentation? symbol = some old → old.document = document → e.kind = old.kind := by
  change ((s.processWith p symbol document (.doc summary context)).run st).1.1 = .ok update at h
  obtain ⟨e, he, hsymbol, hdocument, hkind⟩ := processWith_get? hs h
  refine ⟨e, he, hsymbol, hdocument, ?_, fun old hold htext => ?_⟩
  · rw [hkind]
    exact keptKind_eq_iff
  · subst htext
    rw [hkind]
    exact keptKind_of_get? hold

def documentedStore : VectorStore Nat :=
  ({} : VectorStore Nat).put ⟨lossySymbol "1", "text", [4], .doc "summary" "context"⟩

theorem documentedStore_keyed : documentedStore.Keyed := keyed_empty.put _

def documented (version document summary : String) :
    Except EmbeddingError EmbeddingUpdate × VectorStore Nat :=
  ((documentedStore.processDocumentation lossyProvider (lossySymbol version) document summary
    "context").run 0).1

theorem documentation?_documented :
    (documented "2" "other" "new").1 = .ok .superseded ∧
      ∃ e, (documented "2" "other" "new").2.documentation? (lossySymbol "2") = some e ∧
        e.symbol == lossySymbol "2" ∧ e.document = "other" ∧ e.kind = .doc "new" "context" := by
  have hok : (documented "2" "other" "new").1 = .ok .superseded := by decide +kernel
  obtain ⟨e, he, hsymbol, hdocument, hkind, -⟩ :=
    documentation?_processDocumentation_iff documentedStore_keyed hok
  refine ⟨hok, e, he, hsymbol, hdocument, hkind.2 fun old hold htext => ?_⟩
  have hstored : (documentedStore.documentation? (lossySymbol "2")).map (·.document) =
      some "text" := by
    decide +kernel
  rw [hold, Option.map_some, htext] at hstored
  exact absurd (Option.some.inj hstored) (by decide)

/-- A text written again with another summary is answered without an error, and the old summary is
read back. -/
theorem exists_documentation?_stale :
    ∃ (s : VectorStore Nat) (p : EmbeddingProvider (StateM Nat) Nat) (symbol : Symbol)
      (document summary context : String) (kind : EmbeddingKind),
      s.Keyed ∧
      ((s.processDocumentation p symbol document summary context).run 0).1.1 = .ok .unchanged ∧
      (((s.processDocumentation p symbol document summary context).run 0).1.2.documentation?
        symbol).map
        (·.kind) = some kind ∧
      kind ≠ .doc summary context :=
  ⟨documentedStore, lossyProvider, lossySymbol "1", "text", "new", "context",
    .doc "summary" "context",
    documentedStore_keyed, by decide +kernel, by decide +kernel, by decide⟩

end VectorStore
end CodeAtlas
