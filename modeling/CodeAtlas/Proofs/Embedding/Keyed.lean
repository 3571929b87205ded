import CodeAtlas.Embedding.Upkeep
import CodeAtlas.Ordered
import Mathlib.Data.List.Sort

/-! Stores as maps. A store that keeps its entries in ascending order, each under its own key, is
determined by what it has under each key, and none of the writes of the upkeep fails on it. -/

namespace CodeAtlas.VectorStore

variable {κ : Type}

/-! ### What a store has under a key -/

theorem lookup_cons_eq (x : EmbeddingKey × Embedding κ) (l : List (EmbeddingKey × Embedding κ))
    (k : EmbeddingKey) : (x :: l).lookup k = if k = x.1 then some x.2 else l.lookup k := by
  rw [List.lookup_cons]
  by_cases hk : k = x.1
  · simp [hk]
  · simp [hk, beq_eq_false_iff_ne.2 hk]

theorem lookup_eq_none_iff {l : List (EmbeddingKey × Embedding κ)} {k : EmbeddingKey} :
    l.lookup k = none ↔ ∀ x ∈ l, x.1 ≠ k := by
  simp only [List.lookup_eq_none_iff, bne_iff_ne, ne_comm]

theorem lookup_place {key : EmbeddingKey} {e : Embedding κ} {l : List (EmbeddingKey × Embedding κ)}
    (hl : ∀ x ∈ l, x.1 ≠ key) (k : EmbeddingKey) :
    (place key e l).lookup k = if k = key then some e else l.lookup k := by
  induction l with
  | nil => rw [place, lookup_cons_eq]
  | cons x l ih =>
    rw [place]
    split
    · rw [lookup_cons_eq]
    · rw [lookup_cons_eq, lookup_cons_eq, ih fun y hy => hl y (List.mem_cons_of_mem x hy)]
      have hx := hl x List.mem_cons_self
      by_cases hk : k = key
      · rw [if_neg (hk ▸ hx.symm), if_pos hk, if_pos hk]
      · rw [if_neg hk, if_neg hk]

theorem lookup_filter_ne (key : EmbeddingKey) (l : List (EmbeddingKey × Embedding κ))
    (k : EmbeddingKey) :
    (l.filter (·.1 ≠ key)).lookup k = if k = key then none else l.lookup k := by
  have hfilter := Ordered.lookup_filter (fun k => decide (k ≠ key)) l k
  rw [hfilter]
  by_cases hk : k = key <;> simp [hk]

theorem lookup_map (f : EmbeddingKey → Embedding κ → Embedding κ)
    (l : List (EmbeddingKey × Embedding κ)) (k : EmbeddingKey) :
    (l.map fun x => (x.1, f x.1 x.2)).lookup k = (l.lookup k).map (f k) := by
  induction l with
  | nil => rfl
  | cons x l ih =>
    rw [List.map_cons, lookup_cons_eq, lookup_cons_eq, ih]
    by_cases hk : k = x.1
    · rw [if_pos hk, if_pos hk, Option.map_some, hk]
    · rw [if_neg hk, if_neg hk]

/-! ### Order -/

theorem mem_place {key : EmbeddingKey} {e : Embedding κ} {l : List (EmbeddingKey × Embedding κ)}
    {x : EmbeddingKey × Embedding κ} : x ∈ place key e l ↔ x = (key, e) ∨ x ∈ l := by
  induction l with
  | nil => simp [place]
  | cons y l ih =>
    rw [place]
    split
    · simp
    · rw [List.mem_cons, ih, List.mem_cons]
      tauto

def Ascending (l : List (EmbeddingKey × Embedding κ)) : Prop := l.Pairwise fun x y => x.1.before y.1

theorem ascending_place {key : EmbeddingKey} {e : Embedding κ}
    {l : List (EmbeddingKey × Embedding κ)}
    (hl : Ascending l) (hkey : ∀ x ∈ l, x.1 ≠ key) : Ascending (place key e l) := by
  induction l with
  | nil => exact List.pairwise_singleton _ _
  | cons x l ih =>
    obtain ⟨hx, hl'⟩ := List.pairwise_cons.1 hl
    rw [place]
    split
    · rename_i hbefore
      refine List.pairwise_cons.2 ⟨fun y hy => ?_, hl⟩
      rcases List.mem_cons.1 hy with rfl | hy
      · exact hbefore
      · exact EmbeddingKey.before_trans hbefore (hx y hy)
    · rename_i hnot
      refine List.pairwise_cons.2 ⟨fun y hy => ?_,
        ih hl' fun y hy => hkey y (List.mem_cons_of_mem x hy)⟩
      rcases mem_place.1 hy with rfl | hy
      · rcases EmbeddingKey.eq_or_before_or_before x.1 key with heq | hlt | hgt
        · exact absurd heq (hkey x List.mem_cons_self)
        · exact hlt
        · exact absurd hgt hnot
      · exact hx y hy

theorem mem_of_lookup {l : List (EmbeddingKey × Embedding κ)} {k : EmbeddingKey} {e : Embedding κ}
    (h : l.lookup k = some e) : (k, e) ∈ l := by
  obtain ⟨l₁, l₂, rfl, -⟩ := List.lookup_eq_some_iff.1 h
  exact List.mem_append_right l₁ List.mem_cons_self

theorem Ascending.lookup_of_mem {l : List (EmbeddingKey × Embedding κ)} (hl : Ascending l)
    {k : EmbeddingKey} {e : Embedding κ} (h : (k, e) ∈ l) : l.lookup k = some e := by
  induction l with
  | nil => cases h
  | cons x l ih =>
    obtain ⟨hx, hl⟩ := List.pairwise_cons.1 hl
    rw [lookup_cons_eq]
    rcases List.mem_cons.1 h with rfl | h
    · exact if_pos rfl
    · have hne : k ≠ x.1 := by
        rintro rfl
        have hself := hx _ h
        rw [EmbeddingKey.before_irrefl] at hself
        cases hself
      rw [if_neg hne, ih hl h]

theorem Ascending.nodup_keys {l : List (EmbeddingKey × Embedding κ)} (hl : Ascending l) :
    (l.map (·.1)).Nodup := by
  refine List.pairwise_map.2 (hl.imp fun {x y} hxy heq => ?_)
  rw [heq, EmbeddingKey.before_irrefl] at hxy
  cases hxy

theorem Ascending.ext {l l' : List (EmbeddingKey × Embedding κ)} (hl : Ascending l)
    (hl' : Ascending l')
    (h : ∀ k, l.lookup k = l'.lookup k) : l = l' := by
  have hmem : ∀ x, x ∈ l ↔ x ∈ l' := by
    rintro ⟨k, e⟩
    constructor
    · intro hx
      exact mem_of_lookup (by rw [← h, hl.lookup_of_mem hx])
    · intro hx
      exact mem_of_lookup (by rw [h, hl'.lookup_of_mem hx])
  have hperm := (List.perm_ext_iff_of_nodup hl.nodup_keys.of_map hl'.nodup_keys.of_map).2 hmem
  refine hperm.eq_of_pairwise (fun x y _ _ hxy hyx => ?_) hl hl'
  have hself := EmbeddingKey.before_trans hxy hyx
  rw [EmbeddingKey.before_irrefl] at hself
  cases hself

/-! ### Stores -/

/-- A store as the upkeep leaves it. -/
structure Keyed (s : VectorStore κ) : Prop where
  own : ∀ x ∈ s.entries, x.2.key = x.1
  ascending : Ascending s.entries

theorem keyed_empty : Keyed ({} : VectorStore κ) := ⟨by simp, List.Pairwise.nil⟩

theorem Keyed.key_eq {s : VectorStore κ} (h : s.Keyed) {k : EmbeddingKey} {e : Embedding κ}
    (he : s.get? k = some e) : e.key = k := h.own _ (mem_of_lookup he)

theorem Keyed.ext {s t : VectorStore κ} (hs : s.Keyed) (ht : t.Keyed)
    (h : ∀ k, s.get? k = t.get? k) :
    s = t := congrArg VectorStore.mk (hs.ascending.ext ht.ascending h)

/-- The store with an embedding under its key, in place of what was there. -/
def put (s : VectorStore κ) (e : Embedding κ) : VectorStore κ :=
  ⟨place e.key e (s.entries.filter (·.1 ≠ e.key))⟩

theorem free_of_filter (s : VectorStore κ) (key : EmbeddingKey) :
    ∀ x ∈ s.entries.filter (·.1 ≠ key), x.1 ≠ key := by
  intro x hx
  simpa using (List.mem_filter.1 hx).2

theorem get?_put (s : VectorStore κ) (e : Embedding κ) (k : EmbeddingKey) :
    (s.put e).get? k = if k = e.key then some e else s.get? k := by
  rw [get?, put, lookup_place (s.free_of_filter e.key), lookup_filter_ne, get?]
  split <;> rfl

theorem mem_put {s : VectorStore κ} {e : Embedding κ} {x : EmbeddingKey × Embedding κ}
    (hx : x ∈ (s.put e).entries) : x = (e.key, e) ∨ x ∈ s.entries :=
  (mem_place.1 hx).imp_right List.mem_of_mem_filter

theorem Ascending.put {s : VectorStore κ} (h : Ascending s.entries) (e : Embedding κ) :
    Ascending (s.put e).entries := ascending_place (h.filter _) (s.free_of_filter e.key)

theorem Keyed.put {s : VectorStore κ} (h : s.Keyed) (e : Embedding κ) : (s.put e).Keyed := by
  refine ⟨fun x hx => ?_, h.ascending.put e⟩
  rcases mem_put hx with rfl | hx
  · rfl
  · exact h.own x hx

/-! ### Writes -/

theorem add_eq_ok {s : VectorStore κ} {e : Embedding κ} (h : s.get? e.key = none) :
    s.add e = .ok (s.put e) := by
  have hfree : s.entries.filter (·.1 ≠ e.key) = s.entries := by
    refine List.filter_eq_self.2 fun x hx => ?_
    exact decide_eq_true (lookup_eq_none_iff.1 h x hx)
  rw [add, contains, h, put, hfree]
  rfl

theorem update_eq_ok {s : VectorStore κ} (hs : Ascending s.entries) {e old : Embedding κ}
    (h : s.get? e.key = some old) : s.update e = .ok (s.put e) := by
  let replaced := s.entries.map fun x => (x.1, if x.1 = e.key then e else x.2)
  have hreplaced : Ascending replaced := List.pairwise_map.2 hs
  have hlookup : ∀ k, replaced.lookup k = (s.put e).entries.lookup k := by
    intro k
    rw [lookup_map (fun k x => if k = e.key then e else x)]
    change _ = (s.put e).get? k
    rw [get?_put]
    split
    · rename_i hk
      rw [get?, ← hk] at h
      rw [h, Option.map_some]
    · exact Option.map_id'
  have hentries : replaced = (s.put e).entries := hreplaced.ext (hs.put e) hlookup
  rw [update, contains, h]
  exact congrArg (fun entries => Except.ok (VectorStore.mk entries)) hentries

theorem keys_put {s : VectorStore κ} (hs : Ascending s.entries) {e old : Embedding κ}
    (h : s.get? e.key = some old) : (s.put e).entries.map (·.1) = s.entries.map (·.1) := by
  have hput := update_eq_ok hs h
  rw [update, contains, h] at hput
  rw [← Except.ok.inj hput]
  exact List.map_map ..

def replacement (s : VectorStore κ) (key : EmbeddingKey) : EmbeddingUpdate :=
  if s.contains key then .superseded else .created

theorem supply_eq_ok (s : VectorStore κ) (e : Embedding κ) :
    s.supply e = .ok (s.replacement e.key, s.put e) := by
  unfold supply replacement
  split
  · rename_i h
    rw [add_eq_ok h, contains, h]
    rfl
  · rename_i old h
    have hcleared : (⟨s.entries.filter (·.1 ≠ e.key)⟩ : VectorStore κ).get? e.key = none := by
      rw [get?, lookup_filter_ne, if_pos rfl]
    have hput : (⟨s.entries.filter (·.1 ≠ e.key)⟩ : VectorStore κ).put e = s.put e := by
      simp only [put, List.filter_filter, Bool.and_self]
    rw [discard, h]
    simp only [bind, Except.bind]
    rw [add_eq_ok hcleared, hput, contains, h]
    rfl

theorem put_eq_self {s : VectorStore κ} (hs : Ascending s.entries) {e : Embedding κ}
    (h : s.get? e.key = some e) : s.put e = s := by
  refine congrArg VectorStore.mk ((hs.put e).ext hs fun k => ?_)
  change (s.put e).get? k = s.get? k
  rw [get?_put]
  split
  · rename_i hk
    rw [hk, h]
  · rfl

/-! ### Embeddings put one after another -/

def putAll (s : VectorStore κ) (es : List (Embedding κ)) : VectorStore κ := es.foldl put s

theorem Keyed.putAll {s : VectorStore κ} (hs : s.Keyed) (es : List (Embedding κ)) :
    (s.putAll es).Keyed := by
  induction es generalizing s with
  | nil => exact hs
  | cons e es ih => exact ih (hs.put e)

theorem get?_putAll (s : VectorStore κ) (es : List (Embedding κ)) (k : EmbeddingKey) :
    (s.putAll es).get? k = (es.reverse.find? (·.key = k)).or (s.get? k) := by
  induction es generalizing s with
  | nil => rfl
  | cons e es ih =>
    have hrest : (s.putAll (e :: es)).get? k =
        (es.reverse.find? (·.key = k)).or ((s.put e).get? k) := ih _
    rw [hrest, get?_put, List.reverse_cons, List.find?_append, Option.or_assoc]
    congr 1
    by_cases hk : e.key = k
    · rw [List.find?_cons_of_pos (by simpa using hk), if_pos hk.symm, Option.some_or]
    · rw [List.find?_cons_of_neg (by simpa using hk), if_neg (Ne.symm hk)]
      rfl

/-! ### Texts -/

def text? (s : VectorStore κ) (key : EmbeddingKey) : Option String := (s.get? key).map (·.document)

theorem text?_put (s : VectorStore κ) (e : Embedding κ) (k : EmbeddingKey) :
    (s.put e).text? k = if k = e.key then some e.document else s.text? k := by
  rw [text?, get?_put, text?]
  split <;> rfl

end CodeAtlas.VectorStore

namespace CodeAtlas

/-- The embedding with nothing of its symbol but the uri, by which symbols are compared. -/
def Embedding.byUri {κ : Type} (e : Embedding κ) : Embedding κ :=
  { e with symbol := ⟨e.symbol.uri, ⟨"", {}, []⟩⟩ }

theorem Embedding.byUri_eq_iff {κ : Type} {a b : Embedding κ} :
    a.byUri = b.byUri ↔
      a.symbol == b.symbol ∧ a.document = b.document ∧ a.vector = b.vector ∧ a.kind = b.kind := by
  simp [byUri, Symbol.beq_iff]

/-- The embedding under another uri, or as it is if the symbol is the same. -/
def Embedding.renamed {κ : Type} (e : Embedding κ) (symbol : Symbol) : Embedding κ :=
  if e.symbol == symbol then e else { e with symbol }

def EmbeddingUpdate.ofRenaming {κ : Type} (e : Embedding κ) (symbol : Symbol) : EmbeddingUpdate :=
  if e.symbol == symbol then .unchanged else .repointed

namespace VectorStore

variable {κ : Type}

/-! ### Stores up to the parts of symbols -/

def byUri (s : VectorStore κ) : VectorStore κ := ⟨s.entries.map fun x => (x.1, x.2.byUri)⟩

theorem get?_byUri (s : VectorStore κ) (k : EmbeddingKey) :
    s.byUri.get? k = (s.get? k).map Embedding.byUri :=
  lookup_map (fun _ => Embedding.byUri) s.entries k

theorem ascending_byUri {s : VectorStore κ} (hs : Ascending s.entries) :
    Ascending s.byUri.entries :=
  List.pairwise_map.2 hs

theorem byUri_put_congr {s t : VectorStore κ} (hs : Ascending s.entries) (ht : Ascending t.entries)
    (h : s.byUri = t.byUri) {e e' : Embedding κ} (hkey : e.key = e'.key) (he : e.byUri = e'.byUri) :
    (s.put e).byUri = (t.put e').byUri := by
  refine congrArg VectorStore.mk ((ascending_byUri (hs.put e)).ext (ascending_byUri (ht.put e'))
    fun k => ?_)
  change (s.put e).byUri.get? k = (t.put e').byUri.get? k
  rw [get?_byUri, get?_byUri, get?_put, get?_put, hkey]
  split
  · rw [Option.map_some, Option.map_some, he]
  · rw [← get?_byUri, ← get?_byUri, h]

/-! ### Refreshing -/

theorem renamed_document (e : Embedding κ) (symbol : Symbol) :
    (e.renamed symbol).document = e.document := by
  unfold Embedding.renamed
  split <;> rfl

theorem renamed_vector (e : Embedding κ) (symbol : Symbol) :
    (e.renamed symbol).vector = e.vector := by
  unfold Embedding.renamed
  split <;> rfl

theorem renamed_kind (e : Embedding κ) (symbol : Symbol) : (e.renamed symbol).kind = e.kind := by
  unfold Embedding.renamed
  split <;> rfl

theorem renamed_symbol (e : Embedding κ) (symbol : Symbol) :
    (e.renamed symbol).symbol == symbol := by
  unfold Embedding.renamed
  split
  · assumption
  · exact BEq.rfl

theorem renamed_key {e : Embedding κ} {slot : EmbeddingSlot} {symbol : Symbol}
    (h : e.key = ⟨slot, symbol.dotpath⟩) : (e.renamed symbol).key = ⟨slot, symbol.dotpath⟩ := by
  unfold Embedding.renamed
  split
  · exact h
  · have hslot : e.slot = slot := congrArg EmbeddingKey.slot h
    rw [← hslot]
    rfl

theorem refresh_eq_none {s : VectorStore κ} {symbol : Symbol} {document : String}
    {slot : EmbeddingSlot} (h : s.text? ⟨slot, symbol.dotpath⟩ ≠ some document) :
    s.refresh symbol document slot = .ok (none, s) := by
  unfold refresh
  split
  · rfl
  · rename_i e he
    have hdocument : e.document ≠ document := by
      rintro rfl
      exact h (by rw [text?, he, Option.map_some])
    rw [if_pos hdocument]

theorem refresh_eq_some_of_key {s : VectorStore κ} (hs : Ascending s.entries) {symbol : Symbol}
    {slot : EmbeddingSlot} {e : Embedding κ} (he : s.get? ⟨slot, symbol.dotpath⟩ = some e)
    (hkey : e.key = ⟨slot, symbol.dotpath⟩) :
    s.refresh symbol e.document slot =
      .ok (some (.ofRenaming e symbol), s.put (e.renamed symbol)) := by
  have hrenamed : (e.renamed symbol).key = ⟨slot, symbol.dotpath⟩ := renamed_key hkey
  unfold refresh
  rw [he]
  simp only [ne_eq, not_true_eq_false, if_false]
  by_cases hsymbol : e.symbol == symbol
  · have hself : e.renamed symbol = e := if_pos hsymbol
    rw [if_pos hsymbol, hself, put_eq_self hs (by rw [hkey, he]), EmbeddingUpdate.ofRenaming,
      if_pos hsymbol]
  · have hother : e.renamed symbol = { e with symbol } := if_neg hsymbol
    rw [if_neg hsymbol, ← hother, update_eq_ok hs (by rw [hrenamed, he]),
      EmbeddingUpdate.ofRenaming, if_neg hsymbol]
    rfl

theorem refresh_eq_some {s : VectorStore κ} (hs : s.Keyed) {symbol : Symbol} {slot : EmbeddingSlot}
    {e : Embedding κ} (he : s.get? ⟨slot, symbol.dotpath⟩ = some e) :
    s.refresh symbol e.document slot =
      .ok (some (.ofRenaming e symbol), s.put (e.renamed symbol)) :=
  refresh_eq_some_of_key hs.ascending he (hs.key_eq he)

theorem refresh_cases {s : VectorStore κ} (hs : s.Keyed) (symbol : Symbol) (document : String)
    (slot : EmbeddingSlot) :
    (s.text? ⟨slot, symbol.dotpath⟩ ≠ some document ∧
        s.refresh symbol document slot = .ok (none, s)) ∨
      ∃ e, s.get? ⟨slot, symbol.dotpath⟩ = some e ∧ e.document = document ∧
        s.refresh symbol document slot =
          .ok (some (.ofRenaming e symbol), s.put (e.renamed symbol)) := by
  by_cases h : s.text? ⟨slot, symbol.dotpath⟩ = some document
  · obtain ⟨e, he, rfl⟩ := Option.map_eq_some_iff.1 h
    exact .inr ⟨e, he, rfl, refresh_eq_some hs he⟩
  · exact .inl ⟨h, refresh_eq_none h⟩

section
variable {m : Type → Type} [Monad m] (p : EmbeddingProvider m κ)

theorem processWith_eq_some (kind : EmbeddingKind) {s : VectorStore κ} (hs : s.Keyed)
    {symbol : Symbol} {e : Embedding κ} (he : s.get? ⟨kind.slot, symbol.dotpath⟩ = some e) :
    s.processWith p symbol e.document kind =
      pure (.ok (.ofRenaming e symbol), s.put (e.renamed symbol)) := by
  rw [processWith, refresh_eq_some hs he]

def concludeWith (s : VectorStore κ) (symbol : Symbol) (document : String) (kind : EmbeddingKind) :
    Except EmbeddingError (List κ) → Except EmbeddingError EmbeddingUpdate × VectorStore κ
  | .error e => (.error e, s)
  | .ok vector =>
    (.ok (s.replacement ⟨kind.slot, symbol.dotpath⟩), s.put ⟨symbol, document, vector, kind⟩)

theorem processWith_eq_none (kind : EmbeddingKind) {s : VectorStore κ} {symbol : Symbol}
    {document : String} (h : s.text? ⟨kind.slot, symbol.dotpath⟩ ≠ some document) :
    s.processWith p symbol document kind =
      (do return s.concludeWith symbol document kind (← p.vector document)) := by
  rw [processWith, refresh_eq_none h]
  simp only [supply_eq_ok, settle]
  congr 1
  funext outcome
  cases outcome <;> rfl

end

/-! ### Many items -/

theorem refreshAll_cons_none {s : VectorStore κ} {symbol : Symbol} {source : String}
    (h : s.text? ⟨.code, symbol.dotpath⟩ ≠ some source) (items : List (Symbol × String)) :
    s.refreshAll ((symbol, source) :: items) =
      ((s.refreshAll items).1.map (none :: ·), (s.refreshAll items).2) := by
  rw [refreshAll, refresh_eq_none h]

theorem refreshAll_cons_some {s : VectorStore κ} (hs : s.Keyed) {symbol : Symbol} {e : Embedding κ}
    (he : s.get? ⟨.code, symbol.dotpath⟩ = some e) (items : List (Symbol × String)) :
    s.refreshAll ((symbol, e.document) :: items) =
      (((s.put (e.renamed symbol)).refreshAll items).1.map (some (.ofRenaming e symbol) :: ·),
        ((s.put (e.renamed symbol)).refreshAll items).2) := by
  rw [refreshAll, refresh_eq_some hs he]

theorem refreshAll_preserves {P : VectorStore κ → Prop} (hkeyed : ∀ s, P s → s.Keyed)
    (hrename : ∀ s symbol e, P s → s.get? ⟨.code, symbol.dotpath⟩ = some e →
      P (s.put (e.renamed symbol)))
    {s : VectorStore κ} (hs : P s) (items : List (Symbol × String)) : P (s.refreshAll items).2 := by
  induction items generalizing s with
  | nil => exact hs
  | cons item items ih =>
    obtain ⟨symbol, source⟩ := item
    rcases refresh_cases (hkeyed s hs) symbol source .code with ⟨hother, -⟩ | ⟨e, he, rfl, -⟩
    · rw [refreshAll_cons_none hother]
      exact ih hs
    · rw [refreshAll_cons_some (hkeyed s hs) he]
      exact ih (hrename s symbol e hs he)

theorem Keyed.refreshAll {s : VectorStore κ} (hs : s.Keyed) (items : List (Symbol × String)) :
    (s.refreshAll items).2.Keyed :=
  refreshAll_preserves (fun _ h => h) (fun _ _ _ h _ => h.put _) hs items

theorem exists_refreshAll_eq_ok {s : VectorStore κ} (hs : s.Keyed)
    (items : List (Symbol × String)) :
    ∃ updates, (s.refreshAll items).1 = .ok updates := by
  induction items generalizing s with
  | nil => exact ⟨[], rfl⟩
  | cons item items ih =>
    obtain ⟨symbol, source⟩ := item
    rcases refresh_cases hs symbol source .code with ⟨hother, -⟩ | ⟨e, he, rfl, -⟩
    · obtain ⟨updates, hupdates⟩ := ih hs
      rw [refreshAll_cons_none hother]
      exact ⟨none :: updates, congrArg (Except.map _) hupdates⟩
    · obtain ⟨updates, hupdates⟩ := ih (hs.put (e.renamed symbol))
      rw [refreshAll_cons_some hs he]
      exact ⟨some (.ofRenaming e symbol) :: updates, congrArg (Except.map _) hupdates⟩

theorem pendingTexts_cons_some (item : Symbol × String) (update : EmbeddingUpdate)
    (planned : List ((Symbol × String) × Option EmbeddingUpdate)) :
    pendingTexts ((item, some update) :: planned) = pendingTexts planned := rfl

theorem pendingTexts_cons_none (item : Symbol × String)
    (planned : List ((Symbol × String) × Option EmbeddingUpdate)) :
    pendingTexts ((item, none) :: planned) = item.2 :: pendingTexts planned := rfl

theorem supplyAll_cons_some (s : VectorStore κ) (item : Symbol × String) (update : EmbeddingUpdate)
    (planned : List ((Symbol × String) × Option EmbeddingUpdate)) (vectors : List (List κ)) :
    s.supplyAll ((item, some update) :: planned) vectors =
      ((s.supplyAll planned vectors).1.map (update :: ·), (s.supplyAll planned vectors).2) := rfl

theorem supplyAll_cons_none (s : VectorStore κ) (symbol : Symbol) (source : String)
    (vector : List κ) (planned : List ((Symbol × String) × Option EmbeddingUpdate))
    (vectors : List (List κ)) :
    s.supplyAll (((symbol, source), none) :: planned) (vector :: vectors) =
      (((s.put ⟨symbol, source, vector, .code⟩).supplyAll planned vectors).1.map
          (s.replacement ⟨.code, symbol.dotpath⟩ :: ·),
        ((s.put ⟨symbol, source, vector, .code⟩).supplyAll planned vectors).2) := by
  rw [supplyAll, supply_eq_ok]
  rfl

theorem exists_supplyAll_ok (s : VectorStore κ)
    (planned : List ((Symbol × String) × Option EmbeddingUpdate))
    (vectors : List (List κ)) : ∃ updates, (s.supplyAll planned vectors).1 = .ok updates := by
  induction planned generalizing s vectors with
  | nil => exact ⟨[], rfl⟩
  | cons item planned ih =>
    obtain ⟨⟨symbol, source⟩, update⟩ := item
    cases update with
    | some update =>
      obtain ⟨updates, hupdates⟩ := ih s vectors
      rw [supplyAll_cons_some]
      exact ⟨update :: updates, congrArg (Except.map _) hupdates⟩
    | none =>
      cases vectors with
      | nil => exact ⟨[], rfl⟩
      | cons vector vectors =>
        obtain ⟨updates, hupdates⟩ := ih (s.put ⟨symbol, source, vector, .code⟩) vectors
        rw [supplyAll_cons_none]
        exact ⟨_ :: updates, congrArg (Except.map _) hupdates⟩

theorem exists_supplyAll_eq_ok (vec : String → List κ) (s : VectorStore κ)
    (planned : List ((Symbol × String) × Option EmbeddingUpdate)) :
    ∃ updates, (s.supplyAll planned ((pendingTexts planned).map vec)).1 = .ok updates :=
  exists_supplyAll_ok ..

def conclude (s : VectorStore κ) (planned : List ((Symbol × String) × Option EmbeddingUpdate)) :
    Except EmbeddingError (List (List κ)) →
      Except EmbeddingError (List EmbeddingUpdate) × VectorStore κ
  | .error e => (.error e, s)
  | .ok vectors =>
    if vectors.length = (pendingTexts planned).length then s.supplyAll planned vectors
    else (.error (.provider ("expected " ++ toString (pendingTexts planned).length ++
      " vectors, got "
      ++ toString vectors.length)), s)

theorem processBatch_eq {m : Type → Type} [Monad m] (p : EmbeddingProvider m κ) {s : VectorStore κ}
    {items : List (Symbol × String)} {updates : List (Option EmbeddingUpdate)}
    (h : (s.refreshAll items).1 = .ok updates) :
    s.processBatch p items =
      if pendingTexts (items.zip updates) = [] then
        pure ((s.refreshAll items).2.supplyAll (items.zip updates) [])
      else do
        return (s.refreshAll items).2.conclude (items.zip updates)
          (← p.batch (pendingTexts (items.zip updates))) := by
  have hrefresh : s.refreshAll items = (.ok updates, (s.refreshAll items).2) := Prod.ext h rfl
  unfold processBatch
  rw [hrefresh]
  simp only [List.isEmpty_iff]
  congr 2
  funext outcome
  cases outcome with
  | error e => rfl
  | ok vectors =>
    simp only [conclude]
    split <;> rfl

theorem processBatch_cases {σ : Type} (p : EmbeddingProvider (StateM σ) κ) {s : VectorStore κ}
    (hs : s.Keyed) (items : List (Symbol × String)) (st : σ) :
    ∃ updates, (s.refreshAll items).1 = .ok updates ∧
      ((∃ vectors, vectors.length = (pendingTexts (items.zip updates)).length ∧
          ((s.processBatch p items).run st).1 =
            (s.refreshAll items).2.supplyAll (items.zip updates) vectors) ∨
        ∃ cause, ((s.processBatch p items).run st).1 = (.error cause, (s.refreshAll items).2)) := by
  obtain ⟨updates, hupdates⟩ := exists_refreshAll_eq_ok hs items
  refine ⟨updates, hupdates, ?_⟩
  rw [processBatch_eq p hupdates]
  by_cases hnone : pendingTexts (items.zip updates) = []
  · rw [if_pos hnone, hnone]
    exact .inl ⟨[], rfl, rfl⟩
  · rw [if_neg hnone]
    change (∃ vectors, _ ∧ conclude _ _ (p.batch (pendingTexts (items.zip updates)) st).1 = _) ∨
      ∃ cause, conclude _ _ (p.batch (pendingTexts (items.zip updates)) st).1 = _
    rcases (p.batch (pendingTexts (items.zip updates)) st).1 with cause | vectors
    · exact .inr ⟨cause, rfl⟩
    · rw [conclude]
      split
      · rename_i hlength
        exact .inl ⟨vectors, hlength, rfl⟩
      · exact .inr ⟨_, rfl⟩

end VectorStore

end CodeAtlas
