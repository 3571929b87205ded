import CodeAtlas.Proofs.Embedding.Batch
import CodeAtlas.Proofs.Embedding.Upkeep

/-! What a failed batch leaves behind. The items whose texts are stored get their entries before the
provider is asked, and that is all that has happened when it fails: no key, text or vector is
another one. -/

namespace CodeAtlas.VectorStore

variable {κ σ : Type} {s left : VectorStore κ}

/-! ### Whose an entry is -/

def claimants (items : List (Symbol × String)) (key : EmbeddingKey) (document : String) :
    List Symbol :=
  (items.filter fun x => key = ⟨.code, x.1.dotpath⟩ ∧ x.2 = document).map (·.1)

section
variable {items : List (Symbol × String)} {key : EmbeddingKey} {document : String}

theorem mem_claimants_iff {symbol : Symbol} :
    symbol ∈ claimants items key document ↔ (symbol, document) ∈ items ∧
      key = ⟨.code, symbol.dotpath⟩ := by
  simp only [claimants, List.mem_map, List.mem_filter, decide_eq_true_eq]
  constructor
  · rintro ⟨x, ⟨hx, hkey, rfl⟩, rfl⟩
    exact ⟨hx, hkey⟩
  · rintro ⟨hx, hkey⟩
    exact ⟨(symbol, document), ⟨hx, hkey, rfl⟩, rfl⟩

theorem claimants_cons_of_claims {symbol : Symbol} (hkey : key = ⟨.code, symbol.dotpath⟩) :
    claimants ((symbol, document) :: items) key document =
      symbol :: claimants items key document := by
  rw [claimants, List.filter_cons_of_pos (by simpa using hkey), List.map_cons, claimants]

theorem claimants_cons_of_not {x : Symbol × String}
    (h : ¬(key = ⟨.code, x.1.dotpath⟩ ∧ x.2 = document)) :
    claimants (x :: items) key document = claimants items key document := by
  rw [claimants, List.filter_cons_of_neg (by simpa using h), claimants]

end

theorem foldl_renamed (symbols : List Symbol) (e : Embedding κ) :
    (symbols.foldl Embedding.renamed e).document = e.document ∧
      (symbols.foldl Embedding.renamed e).vector = e.vector ∧
      (symbols.foldl Embedding.renamed e).kind = e.kind := by
  induction symbols generalizing e with
  | nil => exact ⟨rfl, rfl, rfl⟩
  | cons symbol symbols ih =>
    obtain ⟨hdocument, hvector, hkind⟩ := ih (e.renamed symbol)
    exact ⟨hdocument.trans (renamed_document e symbol), hvector.trans (renamed_vector e symbol),
      hkind.trans (renamed_kind e symbol)⟩

theorem foldl_renamed_symbol {symbols : List Symbol} {symbol : Symbol}
    (h : symbols.getLast? = some symbol)
    (e : Embedding κ) : (symbols.foldl Embedding.renamed e).symbol == symbol := by
  obtain ⟨earlier, rfl⟩ := List.getLast?_eq_some_iff.1 h
  rw [List.foldl_append]
  exact renamed_symbol _ symbol

/-! ### Refreshing -/

theorem get?_refreshAll (hs : s.Keyed) (items : List (Symbol × String)) (k : EmbeddingKey) :
    (s.refreshAll items).2.get? k =
      (s.get? k).map fun e => (claimants items k e.document).foldl Embedding.renamed e := by
  induction items generalizing s with
  | nil => exact Option.map_id'.symm
  | cons item items ih =>
    obtain ⟨symbol, source⟩ := item
    rcases refresh_cases hs symbol source .code with ⟨hother, -⟩ | ⟨e, he, rfl, -⟩
    · rw [refreshAll_cons_none hother, ih hs]
      cases hk : s.get? k with
      | none => rfl
      | some e =>
        have hnot : ¬(k = ⟨.code, symbol.dotpath⟩ ∧ source = e.document) := by
          rintro ⟨rfl, rfl⟩
          exact hother (by rw [text?, hk, Option.map_some])
        rw [Option.map_some, Option.map_some, claimants_cons_of_not hnot]
    · have hkey : (e.renamed symbol).key = ⟨.code, symbol.dotpath⟩ := renamed_key (hs.key_eq he)
      rw [refreshAll_cons_some hs he, ih (hs.put _), get?_put, hkey]
      by_cases hk : k = ⟨.code, symbol.dotpath⟩
      · rw [if_pos hk, hk, he, Option.map_some, Option.map_some, renamed_document,
          claimants_cons_of_claims rfl, List.foldl_cons]
      · rw [if_neg hk]
        refine Option.map_congr fun e' _ => ?_
        rw [claimants_cons_of_not fun hclaims => hk hclaims.1]

theorem keys_refreshAll (hs : s.Keyed) (items : List (Symbol × String)) :
    (s.refreshAll items).2.entries.map (·.1) = s.entries.map (·.1) := by
  have hboth : (s.refreshAll items).2.Keyed ∧ (s.refreshAll items).2.entries.map (·.1) =
      s.entries.map (·.1) := by
    refine refreshAll_preserves (P := fun t => t.Keyed ∧ t.entries.map (·.1) = s.entries.map (·.1))
      (fun _ h => h.1) ?_ ⟨hs, rfl⟩ items
    rintro t symbol e ⟨ht, hkeys⟩ he
    have hkey : (e.renamed symbol).key = ⟨.code, symbol.dotpath⟩ := renamed_key (ht.key_eq he)
    exact ⟨ht.put _, (keys_put ht.ascending (by rw [hkey, he])).trans hkeys⟩
  exact hboth.2

/-! ### A failed batch -/

variable {p : EmbeddingProvider (StateM σ) κ} {items : List (Symbol × String)} {st : σ}
  {cause : EmbeddingError}

theorem eq_refreshAll_of_error (hs : s.Keyed)
    (h : ((s.processBatch p items).run st).1 = (.error cause, left)) :
    left = (s.refreshAll items).2 := by
  obtain ⟨updates, -, hcases⟩ := processBatch_cases p hs items st
  rw [h] at hcases
  rcases hcases with ⟨vectors, -, hsupplied⟩ | ⟨cause', hfailed⟩
  · obtain ⟨answer, hanswer⟩ :=
      exists_supplyAll_ok (s.refreshAll items).2 (items.zip updates) vectors
    rw [← hsupplied] at hanswer
    cases hanswer
  · exact congrArg Prod.snd hfailed

/-- After a failed batch the keys are those of before, in order, and under each of them is the same
text, vector and kind. An entry is the same in all, unless items have its own text for its key: then
it has the symbol of the last of them. -/
theorem processBatch_error_leaves (hs : s.Keyed)
    (h : ((s.processBatch p items).run st).1 = (.error cause, left)) :
    left.Keyed ∧ left.entries.map (·.1) = s.entries.map (·.1) ∧
      ∀ k e, s.get? k = some e → ∃ e', left.get? k = some e' ∧
        e'.document = e.document ∧ e'.vector = e.vector ∧ e'.kind = e.kind ∧
        (claimants items k e.document = [] → e' = e) ∧
        ∀ symbol ∈ (claimants items k e.document).getLast?, e'.symbol == symbol := by
  obtain rfl := eq_refreshAll_of_error hs h
  refine ⟨hs.refreshAll items, keys_refreshAll hs items, fun k e he => ?_⟩
  obtain ⟨hdocument, hvector, hkind⟩ := foldl_renamed (claimants items k e.document) e
  have hafter := get?_refreshAll hs items k
  rw [he, Option.map_some] at hafter
  refine ⟨_, hafter, hdocument, hvector, hkind, fun hnone => ?_,
    fun symbol hsymbol => foldl_renamed_symbol hsymbol e⟩
  rw [hnone, List.foldl_nil]

def versionedItems : List (Symbol × String) :=
  [(demoFunction "stop", "new"), (lossySymbol "2", "old"), (lossySymbol "3", "old")]

theorem processBatch_error_leaves_versioned :
    ∃ (left : VectorStore Nat) (e : Embedding Nat),
      ((demoStore.processBatch lossyProvider versionedItems).run 0).1 =
        (.error (.provider "expected 1 vectors, got 0"), left) ∧
      left.entries.map (·.1) = [⟨.code, "demo.run"⟩] ∧ left.get? ⟨.code, "demo.run"⟩ = some e ∧
      e.document = "old" ∧ e.vector = [3] ∧ e.symbol == lossySymbol "3" := by
  have herror : ((demoStore.processBatch lossyProvider versionedItems).run 0).1.1 =
      .error (.provider "expected 1 vectors, got 0") := by decide +kernel
  obtain ⟨-, hkeys, hentries⟩ := processBatch_error_leaves demoStore_keyed (Prod.ext herror rfl)
  obtain ⟨e, he, hdocument, hvector, -, -, hsymbol⟩ := hentries ⟨.code, "demo.run"⟩
    ⟨demoFunction "run", "old", [3], .code⟩ (by rfl)
  exact ⟨_, e, Prod.ext herror rfl, hkeys, he, hdocument, hvector, hsymbol _ (by rfl)⟩

end CodeAtlas.VectorStore
