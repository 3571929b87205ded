import CodeAtlas.Proofs.Index.RoundTrip

/-! One index has many encodings. Fields of numbers that a message does not declare may stand
between its fields, and the numbers of a range may be split into pieces, packed or single; the index
that is read stays the same. -/

namespace CodeAtlas

open Wire

/-- The messages of an index. For those that occur at different depths, `depth` counts the messages
around them. -/
inductive Message where
  | index
  | metadata
  | toolInfo
  | document
  | occurrence
  | information (depth : Nat)
  | relationship (depth : Nat)

namespace Message

abbrev Value : Message → Type
  | index => Index
  | metadata => Metadata
  | toolInfo => ToolInfo
  | document => Document
  | occurrence => Occurrence
  | information _ => SymbolInformation
  | relationship _ => Relationship

def depth : Message → Nat
  | index => 0
  | metadata | document => 1
  | toolInfo | occurrence => 2
  | information depth | relationship depth => depth

def limit (m : Message) : Nat := nestingLimit - m.depth

def declared : Message → List Nat
  | index | toolInfo => [1, 2, 3]
  | metadata => [1, 2, 3, 4]
  | document | relationship _ => [1, 2, 3, 4, 5]
  | occurrence => [1, 2, 3, 4, 5, 7]
  | information _ => [1, 3, 4, 5, 6, 8]

def inner? : Message → Nat → Option Message
  | index, 1 => some metadata
  | index, 2 => some document
  | index, 3 => some (information 1)
  | metadata, 2 => some toolInfo
  | document, 2 => some occurrence
  | document, 3 => some (information 2)
  | information depth, 4 => some (relationship (depth + 1))
  | _, _ => none

def absorb : (m : Message) → m.Value → Field → Option m.Value
  | index => Index.absorb
  | metadata => Metadata.absorb
  | toolInfo => ToolInfo.absorb
  | document => Document.absorb
  | occurrence => Occurrence.absorb
  | information depth => SymbolInformation.absorb depth
  | relationship _ => Relationship.absorb

def read (m : Message) (start : m.Value) (s : List UInt8) : Option m.Value :=
  readMessage m.limit m.absorb start s

theorem absorb_of_undeclared {m : Message} {f : Field} (h : f.number ∉ m.declared) (v : m.Value) :
    m.absorb v f = some v := by
  cases m with
  | index => simp_all [declared, absorb, Index.absorb]
  | metadata => simp_all [declared, absorb, Metadata.absorb]
  | toolInfo => simp_all [declared, absorb, ToolInfo.absorb]
  | document => simp_all [declared, absorb, Document.absorb]
  | occurrence => simp_all [declared, absorb, Occurrence.absorb]
  | information depth => simp_all [declared, absorb, SymbolInformation.absorb]
  | relationship depth => simp_all [declared, absorb, Relationship.absorb]

theorem absorb_inner {m inner : Message} {number : Nat} {d d' : List UInt8}
    (hinner : m.inner? number = some inner) (h : ∀ start, inner.read start d = inner.read start d')
    (v : m.Value) :
    m.absorb v ⟨number, .bytes d⟩ = m.absorb v ⟨number, .bytes d'⟩ := by
  unfold inner? at hinner
  split at hinner <;> cases hinner
  · exact congrArg (Option.bind · fun x =>
      some { v with metadata := some x }) (h (Option.getD v.metadata {}))
  · exact congrArg (Option.bind · fun x => some { v with documents := v.documents ++ [x] }) (h {})
  · exact congrArg (Option.bind · fun x =>
      some { v with externalSymbols := v.externalSymbols ++ [x] }) (h {})
  · exact congrArg (Option.bind · fun x =>
      some { v with tool := some x }) (h (Option.getD v.tool {}))
  · exact congrArg (Option.bind · fun x =>
      some { v with occurrences := v.occurrences ++ [x] }) (h {})
  · exact congrArg (Option.bind · fun x => some { v with symbols := v.symbols ++ [x] }) (h {})
  · exact congrArg (Option.bind · fun x =>
      some { v with relationships := v.relationships ++ [x] }) (h {})

theorem read_of_readFields {m : Message} {s : List UInt8} {fs : List Field}
    (h : readFields m.limit s = some fs) (start : m.Value) :
    m.read start s = fs.foldlM m.absorb start := by rw [read, readMessage, h, Option.bind_some]

theorem read_append {m : Message} {s : List UInt8} {fs : List Field}
    (h : readFields m.limit s = some fs) (start : m.Value) (more : List UInt8) :
    m.read start (s ++ more) = (m.read start s).bind fun v => m.read v more := by
  rw [read_of_readFields h, read, readMessage, readFields_append h]
  cases hmore : readFields m.limit more with
  | none => simp [read, readMessage, hmore]
  | some gs => simp [read_of_readFields hmore, List.foldlM_append]

theorem foldlM_absorb_of_undeclared {m : Message} {fs : List Field}
    (h : ∀ f ∈ fs, f.number ∉ m.declared)
    (v : m.Value) : fs.foldlM m.absorb v = some v := by
  induction fs with
  | nil => rfl
  | cons f fs ih =>
    obtain ⟨hf, hfs⟩ := List.forall_mem_cons.1 h
    rw [List.foldlM_cons, absorb_of_undeclared hf]
    exact ih hfs

end Message

/-! ### Numbers in pieces -/

def Occurrence.addNumbers (number : Nat) (xs : List Int32) (o : Occurrence) : Occurrence :=
  if number = 1 then { o with range := o.range ++ xs }
    else { o with enclosingRange := o.enclosingRange ++ xs }

/-- A field of the number that carries the numbers `xs`, as one number or packed. -/
inductive IsPiece (number : Nat) : List UInt8 → List Int32 → Prop
  | single {k v : List UInt8} {n : Nat} (hk : IsKey k number .varint) (hv : IsVarint v n) :
    IsPiece number (k ++ v) [int32OfBits n]
  | packed {k l data : List UInt8} {xs : List Int32} (hk : IsKey k number .bytes)
    (hl : IsVarint l data.length)
    (hdata : IsPacked data xs) : IsPiece number (k ++ (l ++ data)) xs

/-- The fields of an occurrence are `others` with pieces of the number among them, which carry `xs`
together. -/
inductive Scattered (number : Nat) : List UInt8 → List UInt8 → List Int32 → Prop
  | nil : Scattered number [] [] []
  | other {u s others : List UInt8} {xs : List Int32}
    (hu : WellFormed (· ≠ number) Message.occurrence.limit u)
    (hs : Scattered number s others xs) : Scattered number (u ++ s) (u ++ others) xs
  | piece {p s others : List UInt8} {ys xs : List Int32} (hp : IsPiece number p ys)
    (hs : Scattered number s others xs) : Scattered number (p ++ s) others (ys ++ xs)

variable {number : Nat}

@[simp] theorem Occurrence.addNumbers_nil (o : Occurrence) : o.addNumbers number [] = o := by
  unfold addNumbers
  split <;> rw [List.append_nil]

theorem Occurrence.addNumbers_addNumbers (xs ys : List Int32) (o : Occurrence) :
    (o.addNumbers number xs).addNumbers number ys = o.addNumbers number (xs ++ ys) := by
  unfold addNumbers
  split <;> rw [List.append_assoc]

theorem Occurrence.absorb_addNumbers (hnumber : number = 1 ∨ number = 7) {f : Field}
    (hf : f.number ≠ number) (xs : List Int32) (o : Occurrence) :
    (o.addNumbers number xs).absorb f = (o.absorb f).map (addNumbers number xs) := by
  unfold absorb
  rcases hnumber with rfl | rfl <;> split <;> simp_all [addNumbers, Function.comp_def]

theorem Occurrence.foldlM_addNumbers (hnumber : number = 1 ∨ number = 7) {fs : List Field}
    (hfs : ∀ f ∈ fs, f.number ≠ number) (xs : List Int32) (o : Occurrence) :
    fs.foldlM absorb (o.addNumbers number xs) =
      (fs.foldlM absorb o).map (addNumbers number xs) := by
  induction fs generalizing o with
  | nil => rfl
  | cons f fs ih =>
    obtain ⟨hf, hfs⟩ := List.forall_mem_cons.1 hfs
    rw [List.foldlM_cons, List.foldlM_cons, absorb_addNumbers hnumber hf]
    cases o.absorb f with
    | none => rfl
    | some o => exact ih hfs o

theorem IsPiece.readField {p : List UInt8} {ys : List Int32}
    (h : IsPiece number p ys) (limit : Nat) :
    ∃ payload, readField limit p = some (⟨number, payload⟩, []) ∧ payload.int32s? = some ys := by
  cases h with
  | single hk hv => exact ⟨_, readField_of_isPlain hk (.varint hv) limit, rfl⟩
  | packed hk hl hdata => exact ⟨_, readField_of_isPlain hk (.bytes hl) limit, hdata.unpack⟩

theorem Occurrence.absorb_piece (hnumber : number = 1 ∨ number = 7) {p : Payload} {ys : List Int32}
    (h : p.int32s? = some ys) (o : Occurrence) :
    o.absorb ⟨number, p⟩ = some (o.addNumbers number ys) := by
  rcases hnumber with rfl | rfl <;> simp [absorb, h, addNumbers]

theorem Scattered.readFields {s others : List UInt8} {xs : List Int32}
    (h : Scattered number s others xs) :
    ∃ fs, Wire.readFields Message.occurrence.limit s = some fs := by
  induction h with
  | nil => exact ⟨[], readFields_nil _⟩
  | other hu hs ih =>
    obtain ⟨fs, hfs, -⟩ := hu.readFields
    obtain ⟨gs, hgs⟩ := ih
    exact ⟨fs ++ gs, readFields_append_eq_some hfs hgs⟩
  | piece hp hs ih =>
    obtain ⟨payload, hread, -⟩ := hp.readField Message.occurrence.limit
    obtain ⟨gs, hgs⟩ := ih
    exact ⟨_, readFields_append_eq_some (readFields_singleton hread) hgs⟩

theorem Scattered.readFields_others {s others : List UInt8} {xs : List Int32}
    (h : Scattered number s others xs) :
    ∃ fs, Wire.readFields Message.occurrence.limit others = some fs ∧
      ∀ f ∈ fs, f.number ≠ number := by
  induction h with
  | nil => exact ⟨[], readFields_nil _, by simp⟩
  | other hu hs ih =>
    obtain ⟨fs, hfs, hne⟩ := hu.readFields
    obtain ⟨gs, hgs, hne'⟩ := ih
    exact ⟨fs ++ gs, readFields_append_eq_some hfs hgs, List.forall_mem_append.2 ⟨hne, hne'⟩⟩
  | piece hp hs ih => exact ih

theorem Scattered.read (hnumber : number = 1 ∨ number = 7) {s others : List UInt8} {xs : List Int32}
    (h : Scattered number s others xs) (o : Occurrence) :
    Message.occurrence.read o s =
      (Message.occurrence.read o others).map (Occurrence.addNumbers number xs) := by
  induction h generalizing o with
  | nil => simp [Message.read_of_readFields (readFields_nil _)]
  | @other u s others xs hu hs ih =>
    obtain ⟨fs, hfs, -⟩ := hu.readFields
    rw [Message.read_append hfs, Message.read_append hfs, Option.map_bind]
    exact congrArg _ (funext ih)
  | @piece p s others ys xs hp hs ih =>
    obtain ⟨payload, hread, hpayload⟩ := hp.readField Message.occurrence.limit
    obtain ⟨gs, hgs, hne⟩ := hs.readFields_others
    have hpiece : Message.occurrence.read o p = some (o.addNumbers number ys) := by
      rw [Message.read_of_readFields (readFields_singleton hread), List.foldlM_cons]
      exact congrArg (Option.bind · _) (Occurrence.absorb_piece hnumber hpayload o)
    have hlate : Message.occurrence.read (o.addNumbers number ys) others =
        (Message.occurrence.read o others).map (Occurrence.addNumbers number ys) := by
      rw [Message.read_of_readFields hgs, Message.read_of_readFields hgs]
      exact Occurrence.foldlM_addNumbers hnumber hne ys o
    rw [Message.read_append (readFields_singleton hread), hpiece, Option.bind_some, ih, hlate,
      Option.map_map]
    exact congrArg (Option.map · _) (funext (Occurrence.addNumbers_addNumbers ys xs))

/-! ### Respelled messages -/

/-- Two encodings of a message that differ in undeclared fields and in the pieces of ranges only, in
the message itself or in those inside it. -/
inductive Respelled : Message → List UInt8 → List UInt8 → Prop
  | symm {m : Message} {s t : List UInt8} (h : Respelled m s t) : Respelled m t s
  | trans {m : Message} {s t u : List UInt8} (h : Respelled m s t) (h' : Respelled m t u) :
    Respelled m s u
  | insert {m : Message} {a u b : List UInt8} (ha : WellFormed (fun _ => True) m.limit a)
    (hu : WellFormed (· ∉ m.declared) m.limit u) : Respelled m (a ++ b) (a ++ (u ++ b))
  | split {number : Nat} {s t others b : List UInt8} {xs : List Int32}
    (hnumber : number = 1 ∨ number = 7)
    (hs : Scattered number s others xs) (ht : Scattered number t others xs) :
    Respelled .occurrence (s ++ b) (t ++ b)
  | inside {m inner : Message} {number : Nat} {a k l l' d d' b : List UInt8}
    (hinner : m.inner? number = some inner)
    (ha : WellFormed (fun _ => True) m.limit a) (hk : IsKey k number .bytes)
      (hl : IsVarint l d.length)
    (hl' : IsVarint l' d'.length) (h : Respelled inner d d') :
    Respelled m (a ++ (k ++ (l ++ d) ++ b)) (a ++ (k ++ (l' ++ d') ++ b))

theorem Respelled.read {m : Message} {s t : List UInt8} (h : Respelled m s t) (start : m.Value) :
    m.read start s = m.read start t := by
  induction h with
  | symm h ih => exact (ih start).symm
  | trans h h' ih ih' => exact (ih start).trans (ih' start)
  | @insert m a u b ha hu =>
    -- whatever has been read so far, the inserted fields leave it alone
    obtain ⟨fs, hfs, -⟩ := ha.readFields
    obtain ⟨gs, hgs, hundeclared⟩ := hu.readFields
    have hskipped (v : m.Value) : m.read v (u ++ b) = m.read v b := by
      rw [Message.read_append hgs, Message.read_of_readFields hgs,
        Message.foldlM_absorb_of_undeclared hundeclared, Option.bind_some]
    rw [Message.read_append hfs, Message.read_append hfs]
    exact congrArg _ (funext fun v => (hskipped v).symm)
  | @split number s t others b xs hnumber hs ht =>
    -- both are read as the other fields with all the numbers at the end
    obtain ⟨fs, hfs⟩ := hs.readFields
    obtain ⟨gs, hgs⟩ := ht.readFields
    rw [Message.read_append hfs, Message.read_append hgs, hs.read hnumber, ht.read hnumber]
  | @inside m inner number a k l l' d d' b hinner ha hk hl hl' h ih =>
    obtain ⟨fs, hfs, -⟩ := ha.readFields
    have hfield := readFields_singleton (readField_of_isPlain hk (.bytes hl) m.limit)
    have hfield' := readFields_singleton (readField_of_isPlain hk (.bytes hl') m.limit)
    have hsame (v : m.Value) : m.read v (k ++ (l ++ d)) = m.read v (k ++ (l' ++ d')) := by
      rw [Message.read_of_readFields hfield, Message.read_of_readFields hfield', List.foldlM_cons,
        List.foldlM_cons, Message.absorb_inner hinner ih]
    rw [Message.read_append hfs, Message.read_append hfs]
    refine congrArg _ (funext fun v => ?_)
    rw [Message.read_append hfield, Message.read_append hfield', hsame]

namespace Index

/-- The encodings of two indices one after the other are read as the merged index, and respelling an
encoding changes nothing about what is read. -/
theorem decode?_wire_forms :
    (∀ x y : Index, x.encode.length < UInt64.size → y.encode.length < UInt64.size →
      decode? (x.encode ++ y.encode) = some (x.merge y)) ∧
    ∀ s t : List UInt8, Respelled .index s t → decode? s = decode? t := by
  refine ⟨fun x y hx hy => ?_, fun s t h => h.read {}⟩
  have hfields : readFields Message.index.limit x.encode = some x.fields :=
    readFields_writeFields (absorbs {} x).fits hx _
  have hfirst : Message.index.read {} x.encode = some x := by
    have hread := (absorbs {} x).read hx nestingLimit
    rwa [merge_default] at hread
  have hboth := Message.read_append hfields {} y.encode
  rw [hfirst, Option.bind_some] at hboth
  exact hboth.trans ((absorbs x y).read hy nestingLimit)

theorem decode?_wire_forms_small :
    decode? (({ metadata := some { version := 1, tool := some { name := "a" } } } : Index).encode ++
        ({ metadata := some { tool := some { version := "b" } } } : Index).encode) =
      some { metadata := some { version := 1, tool := some { name := "a", version := "b" } } } ∧
    decode? [18, 6, 18, 4, 10, 2, 1, 2] =
      decode? [18, 11, 18, 9, 8, 1, 75, 8, 0, 76, 10, 1, 2] := by
  constructor
  · exact (decode?_wire_forms.1 _ _ (by decide +kernel) (by decide +kernel)).trans rfl
  have hnumber (n : Nat) (h : n < 128) : IsVarint [n.toUInt8] n := by
    have hwritten := isVarint_writeVarint (Nat.lt_trans h (by decide : 128 < UInt64.size))
    rwa [writeVarint, if_pos h] at hwritten
  have hkey (number : Nat) (form : Form) (h : number * 8 + form.code < 128) (hpos : 0 < number) :
      IsKey [(number * 8 + form.code).toUInt8] number form :=
    ⟨hnumber _ h, Nat.lt_trans h (by decide), hpos⟩
  have hgroup : WellFormed (· ∉ Message.occurrence.declared) Message.occurrence.limit
      ([75] ++ ([8] ++ [0] ++ []) ++ [76] ++ []) :=
    .group (by decide) (hkey 9 .groupStart (by decide) (by decide))
      (.plain trivial (hkey 1 .varint (by decide) (by decide))
        (.varint (hnumber 0 (by decide))) .nil)
      (hkey 9 .groupEnd (by decide) (by decide)) .nil
  have hone : WellFormed (fun _ => True) Message.occurrence.limit ([8] ++ [1] ++ []) :=
    .plain trivial (hkey 1 .varint (by decide) (by decide)) (.varint (hnumber 1 (by decide))) .nil
  have hwhole : Scattered 1 [10, 2, 1, 2] [] [1, 2] :=
    .piece (.packed (hkey 1 .bytes (by decide) (by decide)) (hnumber 2 (by decide))
      (.cons (hnumber 1 (by decide)) (.cons (hnumber 2 (by decide)) .nil))) .nil
  have hparts : Scattered 1 [8, 1, 10, 1, 2] [] [1, 2] :=
    .piece (.single (hkey 1 .varint (by decide) (by decide)) (hnumber 1 (by decide)))
      (.piece (.packed (hkey 1 .bytes (by decide) (by decide)) (hnumber 1 (by decide))
        (.cons (hnumber 2 (by decide)) .nil)) .nil)
  have hoccurrence : Respelled .occurrence [10, 2, 1, 2] [8, 1, 75, 8, 0, 76, 10, 1, 2] :=
    .trans (.split (b := []) (.inl rfl) hwhole hparts) (.insert hone hgroup)
  have hdocument : Respelled .document [18, 4, 10, 2, 1, 2] [18, 9, 8, 1, 75, 8, 0, 76, 10, 1, 2] :=
    .inside (b := []) rfl .nil (hkey 2 .bytes (by decide) (by decide)) (hnumber 4 (by decide))
      (hnumber 9 (by decide)) hoccurrence
  exact decode?_wire_forms.2 _ _ (.inside (b := []) rfl .nil (hkey 2 .bytes (by decide) (by decide))
    (hnumber 6 (by decide)) (hnumber 11 (by decide)) hdocument)

end Index

end CodeAtlas
