import CodeAtlas.Embedding.Record
import CodeAtlas.Proofs.Embedding.Keyed
import CodeAtlas.Proofs.Json.RoundTrip

/-! Embeddings that are written and read again. Of a symbol only the uri is written, and it is read
again as what the uri parses to. Components that are no number to JSON are lost, and one of them
spoils the whole list. -/

namespace CodeAtlas

open Json (Value Field Number)

namespace VectorComponent

variable {κ : Type} [VectorComponent κ]

def isFinite (x : κ) : Bool := (text? x).isSome

/-- The text of the component is a number of JSON, and its value is the component. -/
def ReadsBack (x : κ) : Prop :=
  ∀ text ∈ text? x, Json.Token.isNumeral text ∧ (Number.ofText? text).map ofNumber = some x

theorem isFinite_float32 (x : Float32) : isFinite x = x.isFinite := by
  cases h : x.isFinite <;> simp [isFinite, text?, h]

end VectorComponent

namespace Embedding

variable {κ : Type} [VectorComponent κ]

def isFinite (e : Embedding κ) : Bool := e.vector.all VectorComponent.isFinite

/-- The uri of the symbol parses, and the numbers among the components read back. -/
structure Legible (e : Embedding κ) : Prop where
  symbol : ∃ s, Symbol.parse? e.symbol.uri = .ok s
  vector : ∀ x ∈ e.vector, VectorComponent.ReadsBack x

def reread {κ : Type} (e : Embedding κ) : Embedding κ :=
  { e with symbol := (Symbol.parse? e.symbol.uri).toOption.getD e.symbol }

/-- The symbol has the dotted path that its uri spells. -/
def KeepsPath {κ : Type} (e : Embedding κ) : Prop :=
  ∃ s, Symbol.parse? e.symbol.uri = .ok s ∧ s.dotpath = e.symbol.dotpath

section
variable {κ : Type} {e : Embedding κ}

theorem reread_eq {s : Symbol} (h : Symbol.parse? e.symbol.uri = .ok s) :
    e.reread = { e with symbol := s } := by
  rw [reread, h]
  rfl

theorem uri_reread (e : Embedding κ) : e.reread.symbol.uri = e.symbol.uri := by
  cases h : Symbol.parse? e.symbol.uri with
  | error fault => rw [reread, h]; rfl
  | ok s => rw [reread_eq h, Symbol.uri_of_parse? h]

theorem byUri_reread (e : Embedding κ) : e.reread.byUri = e.byUri := by
  rw [byUri_eq_iff]
  exact ⟨Symbol.beq_iff.2 e.uri_reread, rfl, rfl, rfl⟩

theorem KeepsPath.key_reread (h : e.KeepsPath) : e.reread.key = e.key := by
  obtain ⟨s, hs, hpath⟩ := h
  rw [reread_eq hs, key, key, hpath]
  rfl

end

end Embedding

namespace Record

open VectorComponent (isFinite ReadsBack)

/-! ### Reading lists -/

theorem mapM_eq_ite {ε β γ : Type} (read : β → Except ε γ) (value : β → γ) {good : β → Bool}
    {error : ε} {items : List β}
    (h : ∀ x ∈ items, read x = if good x then .ok (value x) else .error error) :
    items.mapM read = if items.all good then .ok (items.map value) else .error error := by
  induction items with
  | nil => rfl
  | cons x items ih =>
    have hx := h x List.mem_cons_self
    have hrest := ih fun y hy => h y (List.mem_cons_of_mem x hy)
    rw [List.mapM_cons, hx, hrest, List.all_cons]
    cases good x with
    | false => rfl
    | true => cases items.all good <;> rfl

/-! ### Parts of an entry -/

variable {κ : Type} [VectorComponent κ]

theorem isSpelled_ofComponent {x : κ} (hx : ReadsBack x) : (ofComponent x).isSpelled := by
  unfold ofComponent
  split
  · rename_i text htext
    exact (hx text htext).1
  · rfl

theorem component_ofComponent {x : κ} (hx : ReadsBack x) :
    component (ofComponent x) = if isFinite x then .ok x else .error .mismatch := by
  unfold ofComponent isFinite
  split
  · rename_i text htext
    obtain ⟨n, hn, hvalue⟩ := Option.map_eq_some_iff.1 (hx text htext).2
    rw [component, hn, htext]
    exact congrArg Except.ok hvalue
  · rename_i hnone
    rw [hnone]
    rfl

theorem list_component {vector : List κ} (h : ∀ x ∈ vector, ReadsBack x) :
    list component (.array (vector.map ofComponent)) =
      if vector.all isFinite then .ok vector else .error .mismatch := by
  have hall := mapM_eq_ite (component ∘ ofComponent) id fun x hx =>
    component_ofComponent (h x hx)
  rw [List.map_id] at hall
  rw [list, List.mapM_map]
  exact hall

theorem text_ofText (s : String) : text (ofText s) = .ok s := by
  rw [ofText, text, String.ofList_toList]

theorem symbol_ofText {symbol s : Symbol} (h : Symbol.parse? symbol.uri = .ok s) :
    Record.symbol (ofText symbol.uri) = .ok s := by
  simp only [Record.symbol, text_ofText, bind, Except.bind, h]
  rfl

theorem tag_ofText (slot : EmbeddingSlot) : tag (ofText slot.label) = .ok slot := by
  cases slot <;> rfl

theorem isReadable_ofText (depth : Nat) (s : String) : (ofText s).isReadable depth := rfl

theorem once_none {β : Type} (x : β) : once none (.ok x) = .ok (some x) := rfl

theorem taggedFields_type (slot : EmbeddingSlot) (rest : List Field) :
    taggedFields none [] (field "type" (ofText slot.label) :: rest) =
      taggedFields (some slot) [] rest := by
  rw [field, taggedFields, String.ofList_toList, if_pos rfl, tag_ofText, once_none]
  rfl

theorem taggedFields_doc (summary context : String) :
    taggedFields none []
        [field "type" (ofText "doc"), field "summary" (ofText summary),
          field "context" (ofText context)] =
      .ok (.doc, [field "summary" (ofText summary), field "context" (ofText context)]) := by
  refine (taggedFields_type .doc _).trans ?_
  simp only [field, taggedFields, isReadable_ofText, if_true]
  rfl

theorem docFields_ofText (summary context : String) :
    docFields none none [field "summary" (ofText summary), field "context" (ofText context)] =
      .ok (.doc summary context) := by
  simp [docFields, field, once_none, need, text_ofText, bind, Except.bind, pure, Except.pure]

theorem kind_ofKind (k : EmbeddingKind) : kind (ofKind k) = .ok k := by
  cases k with
  | code => rfl
  | doc summary context =>
    rw [ofKind, kind, taggedFields_doc]
    exact docFields_ofText summary context

/-! ### Entries -/

theorem isSpelled_ofKind (k : EmbeddingKind) : (ofKind k).isSpelled := by cases k <;> rfl

theorem isSpelled_ofEntry {e : Embedding κ} (he : e.Legible) : (ofEntry e).isSpelled := by
  have hvector : (Value.array (e.vector.map ofComponent)).isSpelled :=
    Value.itemsSpelled_iff.2 (List.forall_mem_map.2 fun x hx =>
      isSpelled_ofComponent (he.vector x hx))
  rw [ofEntry, Value.isSpelled]
  simp only [Value.fieldsSpelled, field, hvector, isSpelled_ofKind]
  rfl

theorem entry_ofEntry {e : Embedding κ} (he : e.Legible) :
    entry (ofEntry e) = if e.isFinite then .ok e.reread else .error .mismatch := by
  obtain ⟨symbol, hparse⟩ := he.symbol
  have hsymbol := symbol_ofText hparse
  -- the vector is the only field whose reading can fail
  have hvector := list_component he.vector
  rw [← Embedding.isFinite] at hvector
  rw [ofEntry, entry, Embedding.reread_eq hparse]
  simp only [entryFields, field, String.ofList_toList, hsymbol, hvector, text_ofText, kind_ofKind,
    once_none]
  split <;> rfl

theorem parse_write {es : List (Embedding κ)} (hes : ∀ e ∈ es, e.Legible) :
    parse (write es) =
      if es.all Embedding.isFinite then .ok (es.map Embedding.reread) else .error .mismatch := by
  have hspelled : (Value.array (es.map ofEntry)).isSpelled :=
    Value.itemsSpelled_iff.2 (List.forall_mem_map.2 fun e he => isSpelled_ofEntry (hes e he))
  have hentries := mapM_eq_ite (entry ∘ ofEntry) Embedding.reread fun e he =>
    entry_ofEntry (hes e he)
  rw [parse, write, Value.parse_write hspelled]
  change (List.mapM entry (es.map ofEntry) >>= _) = _
  rw [List.mapM_map, hentries]
  split <;> rfl

end Record

end CodeAtlas
