import CodeAtlas.Index.Decode
import CodeAtlas.Proofs.Wire.RoundTrip

/-! The written form of an index is read back. Reading the fields of a message into another one
merges the two: what is written of a scalar replaces it, and what is repeated is added. -/

namespace CodeAtlas

open Wire

/-! ### Merged messages -/

/-- The later of two values of a scalar, except that a default is never written. -/
def later {α : Type} [DecidableEq α] [Inhabited α] (old new : α) : α :=
  if new = default then old else new

section
variable {α : Type} [DecidableEq α] [Inhabited α]

theorem later_default (new : α) : later default new = new := by
  unfold later
  split
  · exact Eq.symm ‹new = default›
  · rfl

end

@[simp] theorem later_empty (s : String) : later "" s = s := later_default s

@[simp] theorem later_zero (x : Int32) : later 0 x = x := later_default x

@[simp] theorem later_false (b : Bool) : later false b = b := later_default b

def ToolInfo.merge (t u : ToolInfo) : ToolInfo where
  name := later t.name u.name
  version := later t.version u.version
  arguments := t.arguments ++ u.arguments

def Metadata.merge (m n : Metadata) : Metadata where
  version := later m.version n.version
  tool := Option.merge ToolInfo.merge m.tool n.tool
  projectRoot := later m.projectRoot n.projectRoot
  textEncoding := later m.textEncoding n.textEncoding

def Index.merge (x y : Index) : Index where
  metadata := Option.merge Metadata.merge x.metadata y.metadata
  documents := x.documents ++ y.documents
  externalSymbols := x.externalSymbols ++ y.externalSymbols

theorem ToolInfo.merge_default (t : ToolInfo) : ({} : ToolInfo).merge t = t := by simp [merge]

theorem Metadata.merge_default (m : Metadata) : ({} : Metadata).merge m = m := by simp [merge]

theorem Index.merge_default (x : Index) : ({} : Index).merge x = x := by
  rw [merge, Option.merge_none_left, List.nil_append, List.nil_append]

theorem merge_some {α : Type} (f : α → α → α) (start : α) (hstart : ∀ a, f start a = a)
    (a : Option α) (b : α) :
    Option.merge f a (some b) = some (f (a.getD start) b) := by
  cases a with
  | none => exact congrArg some (hstart b).symm
  | some a => rfl

/-! ### Fields of a message -/

/-- The fields can be written, and as long as they fit into memory reading them into `v`
gives `w`. -/
structure Absorbs {α : Type} (absorb : α → Field → Option α) (v : α) (fs : List Field) (w : α) :
    Prop where
  fits : ∀ f ∈ fs, f.Fits
  absorbed : (writeFields fs).length < UInt64.size → fs.foldlM absorb v = some w

namespace Absorbs
variable {α β : Type} {absorb : α → Field → Option α} {inner : β → Field → Option β} {v w u : α}
  {fs gs : List Field} {number limit : Nat}

theorem nil : Absorbs absorb v [] v := ⟨by simp, fun _ => rfl⟩

theorem append (h : Absorbs absorb v fs w) (h' : Absorbs absorb w gs u) :
    Absorbs absorb v (fs ++ gs) u := by
  refine ⟨fun f hf => (List.mem_append.1 hf).elim (h.fits f) (h'.fits f), fun hlength => ?_⟩
  rw [writeFields_append, List.length_append] at hlength
  rw [List.foldlM_append, h.absorbed (by omega)]
  exact h'.absorbed (by omega)

theorem single {f : Field} (hf : f.Fits) (h : f.write.length < UInt64.size → absorb v f = some w) :
    Absorbs absorb v [f] w := by
  refine ⟨by simpa using hf, fun hlength => ?_⟩
  rw [writeFields_cons, writeFields_nil, List.append_nil] at hlength
  rw [List.foldlM_cons, h hlength]
  rfl

theorem map {γ : Type} {field : γ → Field} {put : List γ → α} (xs : List γ)
    (h : ∀ x ∈ xs, ∀ before, Absorbs absorb (put before) [field x] (put (before ++ [x])))
    (before : List γ) :
    Absorbs absorb (put before) (xs.map field) (put (before ++ xs)) := by
  induction xs generalizing before with
  | nil => rw [List.append_nil]; exact .nil
  | cons x xs ih =>
    have hfirst := h x List.mem_cons_self before
    have hrest := ih (fun y hy => h y (List.mem_cons_of_mem x hy)) (before ++ [x])
    rw [List.append_assoc, List.singleton_append] at hrest
    exact hfirst.append hrest

theorem read (h : Absorbs absorb v fs w) (hlength : (writeFields fs).length < UInt64.size)
    (limit : Nat) :
    readMessage limit absorb v (writeFields fs) = some w := by
  rw [readMessage, readFields_writeFields h.fits hlength]
  exact h.absorbed hlength

end Absorbs

/-! ### The forms of fields -/

section
variable {α β : Type} {absorb : α → Field → Option α} {inner : β → Field → Option β} {v : α}
  {fs : List Field} {number limit : Nat}

/-- A scalar that is left out when it has the default value; `put` gives it a value in `v`. -/
theorem absorbs_scalar {γ : Type} [DecidableEq γ] [Inhabited γ] {put : γ → α}
    {old x new : γ} {f : Field}
    (hfs : fs = if x = default then [] else [f]) (hf : f.Fits) (hput : absorb v f = some (put x))
    (hold : put old = v) (hnew : later old x = new) : Absorbs absorb v fs (put new) := by
  rw [hfs, ← hnew]
  unfold later
  split
  · rw [hold]
    exact .nil
  · exact .single hf fun _ => hput

theorem absorbs_string (put : String → α) {old s new : String} (hnumber : FitsKey number)
    (hput : ∀ p, absorb v ⟨number, p⟩ = p.string?.map put) (hold : put old = v)
    (hnew : later old s = new) :
    Absorbs absorb v (Field.string number s) (put new) := by
  have hempty : s.isEmpty = true ↔ s = default := String.isEmpty_iff
  refine absorbs_scalar (f := ⟨number, .ofString s⟩) ?_ (fits_bytes hnumber _) ?_ hold hnew
  · simp only [Field.string, hempty]
  · rw [hput, Payload.string?_ofString, Option.map_some]

theorem absorbs_int32 (put : Int32 → α) {old x new : Int32} (hnumber : FitsKey number)
    (hput : ∀ p, absorb v ⟨number, p⟩ = p.int32?.map put) (hold : put old = v)
    (hnew : later old x = new) :
    Absorbs absorb v (Field.int32 number x) (put new) := by
  refine absorbs_scalar (f := ⟨number,
    .ofInt32 x⟩) rfl (fits_varint hnumber (int32Bits_lt x)) ?_ hold hnew
  rw [hput, Payload.int32?_ofInt32, Option.map_some]

theorem absorbs_bool (put : Bool → α) {old b new : Bool} (hnumber : FitsKey number)
    (hput : ∀ p, absorb v ⟨number, p⟩ = p.bool?.map put) (hold : put old = v)
    (hnew : later old b = new) :
    Absorbs absorb v (Field.bool number b) (put new) := by
  cases b with
  | false =>
    have hsame : old = new := hnew
    exact (hsame ▸ hold).symm ▸ .nil
  | true =>
    refine absorbs_scalar (f := ⟨number,
      .varint 1⟩) rfl (fits_varint hnumber (by decide)) ?_ hold hnew
    rw [hput]
    rfl

theorem absorbs_strings (put : List String → α) {old : List String} (hnumber : FitsKey number)
    (hput : ∀ before p, absorb (put before) ⟨number, p⟩ =
      p.string?.map fun s => put (before ++ [s]))
    (hold : put old = v) (xs : List String) :
    Absorbs absorb v (Field.strings number xs) (put (old ++ xs)) := by
  rw [← hold]
  refine .map xs (fun s _ before => ?_) old
  have hadded : absorb (put before) ⟨number, .ofString s⟩ = some (put (before ++ [s])) := by
    rw [hput, Payload.string?_ofString, Option.map_some]
  exact .single (fits_bytes hnumber _) fun _ => hadded

theorem absorbs_packed (put : List Int32 → α) {old : List Int32} (hnumber : FitsKey number)
    (hput : ∀ p, absorb v ⟨number, p⟩ = p.int32s?.map fun ns => put (old ++ ns))
    (hold : put old = v)
    (xs : List Int32) : Absorbs absorb v (Field.packed number xs) (put (old ++ xs)) := by
  unfold Field.packed
  split
  · rw [List.isEmpty_iff.1 ‹xs.isEmpty = true›, List.append_nil, hold]
    exact .nil
  · refine .single (fits_bytes hnumber _) fun _ => ?_
    rw [hput, Payload.int32s?_pack, Option.map_some]

theorem absorbs_message (put : β → α) {start x : β} (hnumber : FitsKey number)
    (hput : ∀ p, absorb v ⟨number, p⟩ =
      p.bytes?.bind fun data => (readMessage limit inner start data).bind fun y => some (put y))
    (hx : Absorbs inner start fs x) : Absorbs absorb v [Field.message number fs] (put x) := by
  refine .single (fits_bytes hnumber _) fun hlength => ?_
  have hdata := Nat.lt_of_le_of_lt (length_data_le number (writeFields fs)) hlength
  have hread := hx.read hdata limit
  rw [Field.message, hput, Payload.bytes?, Option.bind_some, hread, Option.bind_some]

theorem absorbs_messages (put : List β → α) {fields : β → List Field} {start : β} {old : List β}
    (hnumber : FitsKey number)
    (hput : ∀ before p, absorb (put before) ⟨number, p⟩ =
      p.bytes?.bind fun data => (readMessage limit inner start data).bind fun y =>
        some (put (before ++ [y])))
    (hold : put old = v) (hinner : ∀ x, Absorbs inner start (fields x) x) (xs : List β) :
    Absorbs absorb v (xs.map fun x => Field.message number (fields x)) (put (old ++ xs)) := by
  rw [← hold]
  exact .map xs (fun x _ before =>
    absorbs_message (fun y => put (before ++ [y])) hnumber (hput before) (hinner x)) old

theorem absorbs_optional (put : Option β → α) {merge : β → β → β}
    {fields : β → List Field} {start : β}
    {old : Option β} (hnumber : FitsKey number)
    (hput : ∀ p, absorb v ⟨number, p⟩ = p.bytes?.bind fun data =>
      (readMessage limit inner (old.getD start) data).bind fun y => some (put (some y)))
    (hold : put old = v) (hinner : ∀ x y, Absorbs inner x (fields y) (merge x y))
    (hstart : ∀ y, merge start y = y)
    (new : Option β) : Absorbs absorb v (new.toList.map fun x => Field.message number (fields x))
      (put (Option.merge merge old new)) := by
  cases new with
  | none =>
    rw [Option.merge_none_right, hold]
    exact .nil
  | some x =>
    rw [merge_some merge start hstart]
    exact absorbs_message (fun y => put (some y)) hnumber hput (hinner (old.getD start) x)

end

/-! ### The messages of an index -/

theorem ToolInfo.absorbs (t u : ToolInfo) : Absorbs ToolInfo.absorb t u.fields (t.merge u) := by
  let named : ToolInfo := { t with name := later t.name u.name }
  let versioned : ToolInfo := { named with version := later t.version u.version }
  have hname : Absorbs ToolInfo.absorb t (Field.string 1 u.name) named :=
    absorbs_string (fun s => { t with name := s }) (by decide) (fun _ => rfl) rfl rfl
  have hversion : Absorbs ToolInfo.absorb named (Field.string 2 u.version) versioned :=
    absorbs_string (fun s => { named with version := s }) (by decide) (fun _ => rfl) rfl rfl
  have harguments : Absorbs ToolInfo.absorb versioned (Field.strings 3 u.arguments) (t.merge u) :=
    absorbs_strings (fun xs => { versioned with arguments := xs }) (by decide)
      (fun _ _ => rfl) rfl u.arguments
  exact (hname.append hversion).append harguments

theorem Metadata.absorbs (m n : Metadata) : Absorbs Metadata.absorb m n.fields (m.merge n) := by
  let versioned : Metadata := { m with version := later m.version n.version }
  let tooled : Metadata := { versioned with tool := Option.merge ToolInfo.merge m.tool n.tool }
  let rooted : Metadata := { tooled with projectRoot := later m.projectRoot n.projectRoot }
  have hversion : Absorbs Metadata.absorb m (Field.int32 1 n.version) versioned :=
    absorbs_int32 (fun x => { m with version := x }) (by decide) (fun _ => rfl) rfl rfl
  have htool : Absorbs Metadata.absorb versioned
      (n.tool.toList.map fun t => Field.message 2 t.fields) tooled :=
    absorbs_optional (fun t => { versioned with tool := t }) (by decide)
      (fun _ => rfl) rfl ToolInfo.absorbs
      ToolInfo.merge_default n.tool
  have hroot : Absorbs Metadata.absorb tooled (Field.string 3 n.projectRoot) rooted :=
    absorbs_string (fun s => { tooled with projectRoot := s }) (by decide) (fun _ => rfl) rfl rfl
  have hencoding : Absorbs Metadata.absorb rooted (Field.int32 4 n.textEncoding) (m.merge n) :=
    absorbs_int32 (fun x => { rooted with textEncoding := x }) (by decide) (fun _ => rfl) rfl rfl
  exact ((hversion.append htool).append hroot).append hencoding

theorem Relationship.absorbs (r : Relationship) : Absorbs Relationship.absorb {} r.fields r := by
  let named : Relationship := { symbol := r.symbol }
  let referring : Relationship := { named with isReference := r.isReference }
  let implementing : Relationship := { referring with isImplementation := r.isImplementation }
  let typing : Relationship := { implementing with isTypeDefinition := r.isTypeDefinition }
  have hsymbol : Absorbs Relationship.absorb {} (Field.string 1 r.symbol) named :=
    absorbs_string (fun s => ({ symbol := s } : Relationship)) (by decide)
      (fun _ => rfl) rfl (later_empty r.symbol)
  have hreference : Absorbs Relationship.absorb named (Field.bool 2 r.isReference) referring :=
    absorbs_bool (fun b => { named with isReference := b }) (by decide)
      (fun _ => rfl) rfl (later_false _)
  have himplementation : Absorbs Relationship.absorb referring (Field.bool 3 r.isImplementation)
      implementing :=
    absorbs_bool (fun b => { referring with isImplementation := b }) (by decide)
      (fun _ => rfl) rfl (later_false _)
  have htype : Absorbs Relationship.absorb implementing (Field.bool 4 r.isTypeDefinition) typing :=
    absorbs_bool (fun b => { implementing with isTypeDefinition := b }) (by decide)
      (fun _ => rfl) rfl (later_false _)
  have hdefinition : Absorbs Relationship.absorb typing (Field.bool 5 r.isDefinition) r :=
    absorbs_bool (fun b => { typing with isDefinition := b }) (by decide)
      (fun _ => rfl) rfl (later_false _)
  exact (((hsymbol.append hreference).append himplementation).append htype).append hdefinition

theorem SymbolInformation.absorbs (depth : Nat) (i : SymbolInformation) :
    Absorbs (SymbolInformation.absorb depth) {} i.fields i := by
  let named : SymbolInformation := { symbol := i.symbol }
  let documented : SymbolInformation := { named with documentation := i.documentation }
  let related : SymbolInformation := { documented with relationships := i.relationships }
  let sorted : SymbolInformation := { related with kind := i.kind }
  let displayed : SymbolInformation := { sorted with displayName := i.displayName }
  have hsymbol : Absorbs (SymbolInformation.absorb depth) {} (Field.string 1 i.symbol) named :=
    absorbs_string (fun s => ({ symbol := s } : SymbolInformation)) (by decide) (fun _ => rfl) rfl
      (later_empty i.symbol)
  have hdocumentation :
      Absorbs (SymbolInformation.absorb depth) named (Field.strings 3 i.documentation) documented :=
    absorbs_strings (fun xs => { named with documentation := xs }) (by decide)
      (fun _ _ => rfl) rfl i.documentation
  have hrelationships : Absorbs (SymbolInformation.absorb depth) documented
      (i.relationships.map fun r => Field.message 4 r.fields) related :=
    absorbs_messages (fun rs =>
      { documented with relationships := rs }) (by decide) (fun _ _ => rfl) rfl
      Relationship.absorbs i.relationships
  have hkind : Absorbs (SymbolInformation.absorb depth) related (Field.int32 5 i.kind) sorted :=
    absorbs_int32 (fun x => { related with kind := x }) (by decide)
      (fun _ => rfl) rfl (later_zero _)
  have hdisplay : Absorbs (SymbolInformation.absorb depth) sorted
      (Field.string 6 i.displayName) displayed :=
    absorbs_string (fun s => { sorted with displayName := s }) (by decide)
      (fun _ => rfl) rfl (later_empty _)
  have henclosing : Absorbs (SymbolInformation.absorb depth) displayed
      (Field.string 8 i.enclosingSymbol) i :=
    absorbs_string (fun s => { displayed with enclosingSymbol := s }) (by decide)
      (fun _ => rfl) rfl (later_empty _)
  exact ((((hsymbol.append hdocumentation).append hrelationships).append hkind).append
    hdisplay).append henclosing

theorem Occurrence.absorbs (o : Occurrence) : Absorbs Occurrence.absorb {} o.fields o := by
  let placed : Occurrence := { range := o.range }
  let named : Occurrence := { placed with symbol := o.symbol }
  let acting : Occurrence := { named with roles := o.roles }
  let documented : Occurrence := { acting with overrideDocumentation := o.overrideDocumentation }
  let sorted : Occurrence := { documented with syntaxKind := o.syntaxKind }
  have hrange : Absorbs Occurrence.absorb {} (Field.packed 1 o.range) placed :=
    absorbs_packed (fun ns => ({ range := ns } : Occurrence)) (by decide) (fun _ => rfl) rfl o.range
  have hsymbol : Absorbs Occurrence.absorb placed (Field.string 2 o.symbol) named :=
    absorbs_string (fun s => { placed with symbol := s }) (by decide)
      (fun _ => rfl) rfl (later_empty _)
  have hroles : Absorbs Occurrence.absorb named (Field.int32 3 o.roles) acting :=
    absorbs_int32 (fun x => { named with roles := x }) (by decide) (fun _ => rfl) rfl (later_zero _)
  have hdocumentation : Absorbs Occurrence.absorb acting (Field.strings 4 o.overrideDocumentation)
      documented :=
    absorbs_strings (fun xs =>
      { acting with overrideDocumentation := xs }) (by decide) (fun _ _ => rfl) rfl
      o.overrideDocumentation
  have hkind : Absorbs Occurrence.absorb documented (Field.int32 5 o.syntaxKind) sorted :=
    absorbs_int32 (fun x => { documented with syntaxKind := x }) (by decide)
      (fun _ => rfl) rfl (later_zero _)
  have henclosing : Absorbs Occurrence.absorb sorted (Field.packed 7 o.enclosingRange) o :=
    absorbs_packed (fun ns => { sorted with enclosingRange := ns }) (by decide)
      (fun _ => rfl) rfl o.enclosingRange
  exact ((((hrange.append hsymbol).append hroles).append hdocumentation).append
    hkind).append henclosing

theorem Document.absorbs (d : Document) : Absorbs Document.absorb {} d.fields d := by
  let located : Document := { path := d.path }
  let occupied : Document := { located with occurrences := d.occurrences }
  let described : Document := { occupied with symbols := d.symbols }
  let worded : Document := { described with language := d.language }
  have hpath : Absorbs Document.absorb {} (Field.string 1 d.path) located :=
    absorbs_string (fun s => ({ path := s } : Document)) (by decide)
      (fun _ => rfl) rfl (later_empty d.path)
  have hoccurrences : Absorbs Document.absorb located
      (d.occurrences.map fun o => Field.message 2 o.fields) occupied :=
    absorbs_messages (fun os => { located with occurrences := os }) (by decide) (fun _ _ => rfl) rfl
      Occurrence.absorbs d.occurrences
  have hsymbols : Absorbs Document.absorb occupied
      (d.symbols.map fun i => Field.message 3 i.fields) described :=
    absorbs_messages (fun is => { occupied with symbols := is }) (by decide) (fun _ _ => rfl) rfl
      (SymbolInformation.absorbs 2) d.symbols
  have hlanguage : Absorbs Document.absorb described (Field.string 4 d.language) worded :=
    absorbs_string (fun s => { described with language := s }) (by decide)
      (fun _ => rfl) rfl (later_empty _)
  have htext : Absorbs Document.absorb worded (Field.string 5 d.text) d :=
    absorbs_string (fun s => { worded with text := s }) (by decide)
      (fun _ => rfl) rfl (later_empty _)
  exact (((hpath.append hoccurrences).append hsymbols).append hlanguage).append htext

/-! ### The written form of an index -/

namespace Index

theorem absorbs (x y : Index) : Absorbs Index.absorb x y.fields (x.merge y) := by
  let described : Index := { x with metadata := Option.merge Metadata.merge x.metadata y.metadata }
  let filled : Index := { described with documents := x.documents ++ y.documents }
  have hmetadata : Absorbs Index.absorb x
      (y.metadata.toList.map fun m => Field.message 1 m.fields) described :=
    absorbs_optional (fun m => { x with metadata := m }) (by decide)
      (fun _ => rfl) rfl Metadata.absorbs
      Metadata.merge_default y.metadata
  have hdocuments : Absorbs Index.absorb described
      (y.documents.map fun d => Field.message 2 d.fields) filled :=
    absorbs_messages (fun ds => { described with documents := ds }) (by decide) (fun _ _ => rfl) rfl
      Document.absorbs y.documents
  have hexternals : Absorbs Index.absorb filled
      (y.externalSymbols.map fun i => Field.message 3 i.fields) (x.merge y) :=
    absorbs_messages (fun is =>
      { filled with externalSymbols := is }) (by decide) (fun _ _ => rfl) rfl
      (SymbolInformation.absorbs 1) y.externalSymbols
  exact (hmetadata.append hdocuments).append hexternals

/-- Reading the written form of an index gives the index. The length of a field is written
with 64 bits, so the written form has to be shorter than 2⁶⁴ bytes, as everything is that fits
into memory. -/
theorem decode?_encode {x : Index} (h : x.encode.length < UInt64.size) :
    decode? x.encode = some x := by
  have hread := (absorbs {} x).read h nestingLimit
  rwa [merge_default] at hread

def sample : Index where
  metadata := some { version := -1, tool := some {}, projectRoot := "file:///häuser" }
  documents := [{
    path := "src/π.rs"
    occurrences := [{ range := [-3, 0, 128], symbol := "local 1", roles := 1 }]
    symbols := [{
      symbol := "local 1"
      relationships := [{ symbol := "local 2", isReference := true }]
      kind := 17 }] }]
  externalSymbols := [{ documentation := ["", "見"] }]

theorem decode?_encode_sample : sample.encode.length = 108 ∧ decode? sample.encode = some sample :=
  have hlength : sample.encode.length = 108 := by decide +kernel
  ⟨hlength, decode?_encode (by rw [hlength]; decide)⟩

end Index

end CodeAtlas
