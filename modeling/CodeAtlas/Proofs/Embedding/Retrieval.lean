import CodeAtlas.Proofs.Embedding.Batch
import CodeAtlas.Proofs.Ordered
import Mathlib.Data.List.Dedup

/-! What a first batch leaves behind. Symbols share an entry where their dotted paths agree, and the
last item of a path has it: each symbol finds its own text just where the paths are pairwise
different. -/

namespace CodeAtlas

variable {κ σ : Type}

/-- The provider never fails on a batch and gives a vector for each of its texts. -/
def EmbeddingProvider.Complete (p : EmbeddingProvider (StateM σ) κ) : Prop :=
  ∀ texts st, ∃ vectors, (p.batch texts st).1 = .ok vectors ∧ vectors.length = texts.length

theorem EmbeddingProvider.Reliable.complete {p : EmbeddingProvider (StateM σ) κ}
    {vec : String → List κ}
    (h : p.Reliable vec) : p.Complete :=
  fun texts st => ⟨texts.map vec, h.batch texts st, List.length_map _⟩

namespace VectorStore

/-! ### Embeddings put one after another -/

theorem mem_keys_iff {s : VectorStore κ} {k : EmbeddingKey} :
    k ∈ s.entries.map (·.1) ↔ s.get? k ≠ none := by
  rw [get?, ne_eq, lookup_eq_none_iff]
  simp

theorem mem_keys_putAll {es : List (Embedding κ)} {k : EmbeddingKey} :
    k ∈ (({} : VectorStore κ).putAll es).entries.map (·.1) ↔ k ∈ es.map (·.key) := by
  have hempty : ({} : VectorStore κ).get? k = none := rfl
  rw [mem_keys_iff, get?_putAll, hempty, Option.or_none, ne_eq, List.find?_eq_none]
  simp

theorem size_putAll (es : List (Embedding κ)) :
    (({} : VectorStore κ).putAll es).size = (es.map (·.key)).dedup.length := by
  have hkeys := (keyed_empty.putAll es).ascending.nodup_keys
  have hperm : ((({} : VectorStore κ).putAll es).entries.map (·.1)).Perm
      (es.map (·.key)).dedup := by
    refine (List.perm_ext_iff_of_nodup hkeys (List.nodup_dedup _)).2 fun k => ?_
    rw [mem_keys_putAll, List.mem_dedup]
  calc (({} : VectorStore κ).putAll es).size
      = ((({} : VectorStore κ).putAll es).entries.map (·.1)).length := (List.length_map _).symm
    _ = (es.map (·.key)).dedup.length := hperm.length_eq

/-! ### A batch on an empty store -/

def embedded (items : List (Symbol × String)) (vectors : List (List κ)) : List (Embedding κ) :=
  (items.zip vectors).map fun x => ⟨x.1.1, x.1.2, x.2, .code⟩

theorem refreshAll_empty (items : List (Symbol × String)) :
    ({} : VectorStore κ).refreshAll items = (.ok (items.map fun _ => none), {}) := by
  induction items with
  | nil => rfl
  | cons item items ih =>
    obtain ⟨symbol, source⟩ := item
    have hother : ({} : VectorStore κ).text? ⟨.code, symbol.dotpath⟩ ≠ some source := by
      intro h
      cases h
    rw [refreshAll_cons_none hother, ih]
    rfl

theorem zip_map_none (items : List (Symbol × String)) :
    items.zip (items.map fun _ => (none : Option EmbeddingUpdate)) = items.map (·, none) := by
  induction items with
  | nil => rfl
  | cons item items ih => rw [List.map_cons, List.zip_cons_cons, ih, List.map_cons]

theorem pendingTexts_map_none (items : List (Symbol × String)) :
    pendingTexts (items.map (·, none)) = items.map (·.2) := by
  induction items with
  | nil => rfl
  | cons item items ih => rw [List.map_cons, pendingTexts_cons_none, ih, List.map_cons]

theorem supplyAll_map_none (s : VectorStore κ) {items : List (Symbol × String)}
    {vectors : List (List κ)} (h : vectors.length = items.length) :
    ∃ updates, s.supplyAll (items.map (·, none)) vectors =
      (.ok updates, s.putAll (embedded items vectors)) := by
  induction items generalizing s vectors with
  | nil => exact ⟨[], rfl⟩
  | cons item items ih =>
    obtain ⟨symbol, source⟩ := item
    cases vectors with
    | nil => cases h
    | cons vector vectors =>
      obtain ⟨updates, hrest⟩ := ih (s.put ⟨symbol, source, vector, .code⟩) (Nat.succ.inj h)
      rw [List.map_cons, supplyAll_cons_none, hrest]
      exact ⟨_ :: updates, rfl⟩

theorem processBatch_empty {p : EmbeddingProvider (StateM σ) κ} (hp : p.Complete)
    (items : List (Symbol × String)) (st : σ) :
    ∃ updates vectors, vectors.length = items.length ∧
      ((({} : VectorStore κ).processBatch p items).run st).1 =
        (.ok updates, ({} : VectorStore κ).putAll (embedded items vectors)) := by
  have hrefresh : (({} : VectorStore κ).refreshAll items).1 = .ok (items.map fun _ => none) := by
    rw [refreshAll_empty]
  have hstore : (({} : VectorStore κ).refreshAll items).2 = {} := by rw [refreshAll_empty]
  rw [processBatch_eq p hrefresh, hstore, zip_map_none, pendingTexts_map_none]
  by_cases hnone : items.map (·.2) = []
  · obtain rfl : items = [] := List.map_eq_nil_iff.1 hnone
    exact ⟨[], [], rfl, rfl⟩
  · obtain ⟨vectors, hvectors, hlength⟩ := hp (items.map (·.2)) st
    have hcount : vectors.length = items.length := hlength.trans (List.length_map _)
    obtain ⟨updates, hsupply⟩ := supplyAll_map_none {} hcount
    rw [if_neg hnone]
    refine ⟨updates, vectors, hcount, ?_⟩
    change conclude _ _ (p.batch (items.map (·.2)) st).1 = _
    rw [hvectors, conclude, pendingTexts_map_none, if_pos hlength, hsupply]

/-! ### Whose entry it is -/

def lastItem? (items : List (Symbol × String)) (path : String) : Option (Symbol × String) :=
  items.reverse.find? (·.1.dotpath = path)

/-- An item finds its own symbol and text under its dotted path. -/
def Retrieves (s : VectorStore κ) (item : Symbol × String) : Prop :=
  ∃ e, s.get? ⟨.code, item.1.dotpath⟩ = some e ∧ e.symbol = item.1 ∧ e.document = item.2

def itemAt? (s : VectorStore κ) (path : String) : Option (Symbol × String) :=
  (s.get? ⟨.code, path⟩).map fun e => (e.symbol, e.document)

theorem retrieves_iff {s : VectorStore κ} {item : Symbol × String} :
    s.Retrieves item ↔ s.itemAt? item.1.dotpath = some item := by
  rw [itemAt?, Option.map_eq_some_iff]
  constructor
  · rintro ⟨e, he, hsymbol, hdocument⟩
    exact ⟨e, he, Prod.ext hsymbol hdocument⟩
  · rintro ⟨e, he, rfl⟩
    exact ⟨e, he, rfl, rfl⟩

theorem itemAt?_putAll_embedded {items : List (Symbol × String)} {vectors : List (List κ)}
    (h : vectors.length = items.length) (path : String) :
    (({} : VectorStore κ).putAll (embedded items vectors)).itemAt? path = lastItem? items path := by
  have hempty : ({} : VectorStore κ).get? ⟨.code, path⟩ = none := rfl
  have hitems : items = (items.zip vectors).map (·.1) := (List.map_fst_zip h.ge).symm
  have hkey : ((fun e : Embedding κ => decide (e.key = ⟨.code, path⟩)) ∘
      fun x : (Symbol × String) × List κ => ⟨x.1.1, x.1.2, x.2, .code⟩) =
      (fun item : Symbol × String => decide (item.1.dotpath = path)) ∘ (·.1) := by
    funext x
    simp [Embedding.key, Embedding.slot, EmbeddingKind.slot]
  rw [itemAt?, get?_putAll, hempty, Option.or_none, lastItem?]
  conv_rhs => rw [hitems]
  rw [embedded, ← List.map_reverse, ← List.map_reverse, List.find?_map, List.find?_map, hkey,
    Option.map_map]
  rfl

theorem size_putAll_embedded {items : List (Symbol × String)} {vectors : List (List κ)}
    (h : vectors.length = items.length) :
    (({} : VectorStore κ).putAll (embedded items vectors)).size =
      (items.map (·.1.dotpath)).dedup.length := by
  have hkeys : (embedded items vectors).map (·.key) =
      (items.map (·.1.dotpath)).map (EmbeddingKey.mk .code) := by
    have hitems : items = (items.zip vectors).map (·.1) := (List.map_fst_zip h.ge).symm
    conv_rhs => rw [hitems]
    rw [embedded, List.map_map, List.map_map, List.map_map]
    rfl
  have hinjective : Function.Injective (EmbeddingKey.mk .code) :=
    fun _ _ heq => congrArg EmbeddingKey.path heq
  rw [size_putAll, hkeys, List.dedup_map_of_injective hinjective, List.length_map]

theorem length_dedup_eq_iff {α : Type} [DecidableEq α] {l : List α} :
    l.dedup.length = l.length ↔ l.Nodup := by
  constructor
  · intro h
    rw [← List.dedup_eq_self, List.Sublist.eq_of_length (List.dedup_sublist l) h]
  · intro h
    rw [List.dedup_eq_self.2 h]

theorem lastItem?_eq_self_of_nodup {items : List (Symbol × String)}
    (h : (items.map (·.1.dotpath)).Nodup) {item : Symbol × String} (hitem : item ∈ items) :
    lastItem? items item.1.dotpath = some item := by
  have hreverse : (items.reverse.map (·.1.dotpath)).Nodup := by
    rw [List.map_reverse]
    exact List.nodup_reverse.2 h
  exact (find?_key_eq_some_iff hreverse).2 ⟨List.mem_reverse.2 hitem, rfl⟩

theorem nodup_of_lastItem?_eq_self {items : List (Symbol × String)}
    (hdistinct : items.Pairwise fun x y => x.1 ≠ y.1)
    (h : ∀ item ∈ items, lastItem? items item.1.dotpath = some item) :
    (items.map (·.1.dotpath)).Nodup := by
  refine List.pairwise_map.2 (hdistinct.imp_of_mem fun {x y} hx hy hne heq => ?_)
  have hsame : some x = some y := by rw [← h x hx, ← h y hy, heq]
  exact hne (congrArg Prod.fst (Option.some.inj hsame))

theorem processBatch_empty_itemAt? {p : EmbeddingProvider (StateM σ) κ} (hp : p.Complete)
    (items : List (Symbol × String)) (st : σ) :
    ∃ updates s, ((({} : VectorStore κ).processBatch p items).run st).1 = (.ok updates, s) ∧
      (∀ path, s.itemAt? path = lastItem? items path) ∧
      s.size = (items.map (·.1.dotpath)).dedup.length := by
  obtain ⟨updates, vectors, hcount, hrun⟩ := processBatch_empty hp items st
  exact ⟨updates, _, hrun, itemAt?_putAll_embedded hcount, size_putAll_embedded hcount⟩

/-- A first batch succeeds and leaves one entry for each dotted path, that of the last item of the
path. So symbols that differ are all found as themselves, and none is missing from the count, if and
only if their dotted paths differ too. -/
theorem processBatch_retrieves_iff {p : EmbeddingProvider (StateM σ) κ} (hp : p.Complete)
    (items : List (Symbol × String)) (st : σ) :
    ∃ updates s, ((({} : VectorStore κ).processBatch p items).run st).1 = (.ok updates, s) ∧
      (∀ path, s.itemAt? path = lastItem? items path) ∧
      s.size = (items.map (·.1.dotpath)).dedup.length ∧
      (items.Pairwise (fun x y => x.1 ≠ y.1) →
        ((∀ item ∈ items, s.Retrieves item) ↔ (items.map (·.1.dotpath)).Nodup)) ∧
      (s.size = items.length ↔ (items.map (·.1.dotpath)).Nodup) := by
  obtain ⟨updates, s, hrun, hitem, hsize⟩ := processBatch_empty_itemAt? hp items st
  refine ⟨updates, s, hrun, hitem, hsize, fun hdistinct => ?_, ?_⟩
  · simp only [retrieves_iff, hitem]
    constructor
    · exact nodup_of_lastItem?_eq_self hdistinct
    · exact fun h _ => lastItem?_eq_self_of_nodup h
  · rw [hsize, ← length_dedup_eq_iff, List.length_map]

theorem retrieves_demoItems :
    ∃ updates s, ((({} : VectorStore Nat).processBatch lengthProvider demoItems).run 0).1 =
      (.ok updates, s) ∧
      (∀ item ∈ demoItems, s.Retrieves item) ∧ s.size = 2 := by
  obtain ⟨updates, s, hrun, -, -, hretrieves, hsize⟩ :=
    processBatch_retrieves_iff lengthProvider_reliable.complete demoItems 0
  have hnodup : (demoItems.map (·.1.dotpath)).Nodup := by decide +kernel
  have hdistinct : demoItems.Pairwise fun x y => x.1 ≠ y.1 :=
    (List.pairwise_map.1 hnodup).imp fun hne heq => hne (congrArg Symbol.dotpath heq)
  exact ⟨updates, s, hrun, (hretrieves hdistinct).2 hnodup, hsize.2 hnodup⟩

def overload : Symbol :=
  ⟨"scip-python python demo 1 demo/run(+1).",
    ⟨"scip-python", ⟨"python", "demo", "1"⟩, [⟨"demo", .scope, none⟩, ⟨"run", .method, some "+1"⟩]⟩⟩

/-- Two functions of one name: the first of them finds the other one with its text, and one entry is
all there is. -/
theorem exists_not_retrieves :
    ∃ (p : EmbeddingProvider (StateM Nat) Nat) (items : List (Symbol × String))
      (updates : List EmbeddingUpdate) (s : VectorStore Nat) (item : Symbol × String),
      p.Complete ∧ items.Pairwise (fun x y => ¬x.1 == y.1) ∧
      ((({} : VectorStore Nat).processBatch p items).run 0).1 = (.ok updates, s) ∧
      item ∈ items ∧ ¬s.Retrieves item ∧ s.itemAt? item.1.dotpath = some (overload, "bb") ∧
      s.size = 1 ∧ items.length = 2 := by
  let items := [(demoFunction "run", "a"), (overload, "bb")]
  have hpath : overload.dotpath = (demoFunction "run").dotpath := by decide +kernel
  have hlast : lastItem? items (demoFunction "run").dotpath = some (overload, "bb") := by
    simp [lastItem?, items, hpath]
  obtain ⟨updates, s, hrun, hitem, hsize⟩ :=
    processBatch_empty_itemAt? lengthProvider_reliable.complete items 0
  rw [← hitem] at hlast
  refine ⟨lengthProvider, items, updates, s, (demoFunction "run", "a"),
    lengthProvider_reliable.complete,
    ?_, hrun, List.mem_cons_self, ?_, hlast, ?_, rfl⟩
  · decide +kernel
  · rw [retrieves_iff, hlast]
    simp
  · rw [hsize]
    decide +kernel

end VectorStore

end CodeAtlas
