import CodeAtlas.Json.Value
import CodeAtlas.Proofs.Json.Scan

/-! Values that are written and read again. The scanner gives back the tokens of a value, and the
builder gives back the value of the tokens. -/

namespace CodeAtlas.Json.Value

open Token (Scans)

mutual

/-- Whether the value has a text: nothing in it is broken, and its numbers are spelled as JSON
spells them. -/
def isSpelled : Value → Bool
  | .broken => false
  | .number text => Token.isNumeral text
  | .array items => itemsSpelled items
  | .object fields => fieldsSpelled fields
  | _ => true

def itemsSpelled : List Value → Bool
  | [] => true
  | v :: rest => isSpelled v && itemsSpelled rest

def fieldsSpelled : List Field → Bool
  | [] => true
  | (_, v) :: rest => isSpelled v && fieldsSpelled rest

end

theorem itemsSpelled_iff {items : List Value} : itemsSpelled items ↔ ∀ v ∈ items, v.isSpelled := by
  induction items with
  | nil => simp [itemsSpelled]
  | cons v items ih => simp [itemsSpelled, ih]

/-- What holds of the simple values, and of arrays and objects as soon as it holds of
their parts. -/
structure Closed (P : Value → Prop) : Prop where
  null : P .null
  bool : ∀ x, P (.bool x)
  number : ∀ text, Token.isNumeral text → P (.number text)
  string : ∀ text, P (.string text)
  array : ∀ items : List Value, (∀ v ∈ items, P v) → P (.array items)
  object : ∀ fields : List Field, (∀ f ∈ fields, P f.2) → P (.object fields)

section

variable {P : Value → Prop}

mutual

theorem Closed.of_isSpelled (hP : Closed P) : ∀ v : Value, v.isSpelled → P v
  | .null, _ => hP.null
  | .bool x, _ => hP.bool x
  | .number text, h => hP.number text h
  | .string text, _ => hP.string text
  | .array items, h => hP.array items (hP.of_itemsSpelled items h)
  | .object fields, h => hP.object fields (hP.of_fieldsSpelled fields h)
  | .broken, h => by cases h

theorem Closed.of_itemsSpelled (hP : Closed P) :
    ∀ items : List Value, itemsSpelled items → ∀ v ∈ items, P v
  | [], _, _, hv => by cases hv
  | first :: rest, h, v, hv => by
    obtain ⟨hfirst, hrest⟩ := (Bool.and_eq_true _ _).mp h
    rcases List.mem_cons.1 hv with heq | hv
    · exact heq ▸ hP.of_isSpelled first hfirst
    · exact hP.of_itemsSpelled rest hrest v hv

theorem Closed.of_fieldsSpelled (hP : Closed P) :
    ∀ fields : List Field, fieldsSpelled fields → ∀ f ∈ fields, P f.2
  | [], _, _, hf => by cases hf
  | (key, v) :: rest, h, f, hf => by
    obtain ⟨hfirst, hrest⟩ := (Bool.and_eq_true _ _).mp h
    rcases List.mem_cons.1 hf with heq | hf
    · exact heq ▸ hP.of_isSpelled v hfirst
    · exact hP.of_fieldsSpelled rest hrest f hf

end

end

def tokensOfField (f : Field) : List Token := keyToken f.1 :: .colon :: f.2.tokens

theorem itemTokens_eq_map (items : List Value) : itemTokens items = items.map tokens := by
  induction items with
  | nil => rfl
  | cons v items ih => rw [itemTokens, ih, List.map_cons]

theorem fieldTokens_eq_map (fields : List Field) :
    fieldTokens fields = fields.map tokensOfField := by
  induction fields with
  | nil => rfl
  | cons f fields ih =>
    obtain ⟨key, v⟩ := f
    rw [fieldTokens, ih, List.map_cons]
    rfl

/-! ### Tokens from text -/

theorem scans_keyToken (key : Option (List Char)) : Scans [keyToken key] := by
  cases key with
  | none => exact Token.scans_brokenString
  | some text => exact Token.scans_string text

theorem scans_separated {parts : List (List Token)} (h : ∀ part ∈ parts, Scans part) :
    Scans (separated parts) := by
  induction parts with
  | nil => exact Token.scans_nil
  | cons part parts ih =>
    have hpart : Scans part := h part List.mem_cons_self
    cases parts with
    | nil => exact hpart
    | cons next parts =>
      have hrest := ih fun other hother => h other (List.mem_cons_of_mem part hother)
      exact hpart.append_mark rfl hrest

theorem scans_enclosed {first last : Token} (hfirst : first.isMark) (hlast : last.isMark)
    {parts : List (List Token)} (h : ∀ part ∈ parts, Scans part) :
    Scans (first :: separated parts ++ [last]) := by
  have hinner := (scans_separated h).append_mark hlast Token.scans_nil
  exact Token.scans_nil.append_mark hfirst hinner

theorem closed_scans : Closed fun v => Scans v.tokens where
  null := Token.scans_null
  bool := Token.scans_bool
  number _ := Token.scans_number
  string := scans_keyToken
  array items h := by
    apply scans_enclosed rfl rfl
    rw [itemTokens_eq_map]
    exact List.forall_mem_map.2 h
  object fields h := by
    apply scans_enclosed rfl rfl
    rw [fieldTokens_eq_map]
    exact List.forall_mem_map.2 fun f hf => (scans_keyToken f.1).append_mark rfl (h f hf)

/-! ### The value from its tokens -/

/-- Wherever a value may come, its tokens put it there. -/
def Builds (v : Value) : Prop :=
  ∀ c frames, v.tokens.foldl Builder.step ⟨.value c, frames⟩ = Builder.put v frames

/-- Elements one after the other: `ready` waits for the next one, `after` has just taken one, and
both keep those before it. -/
theorem foldl_separated {α : Type} {write : α → List Token} (ready : Bool → List α → Builder)
    (after : List α → Builder) (hcomma : ∀ before, (after before).step .comma = ready false before)
    {xs : List α} (hne : xs ≠ [])
    (hxs : ∀ x ∈ xs, ∀ c before, (write x).foldl Builder.step (ready c before) =
      after (x :: before))
    (c : Bool) (before : List α) :
    (separated (xs.map write)).foldl Builder.step (ready c before) =
      after (xs.reverse ++ before) := by
  induction xs generalizing c before with
  | nil => exact absurd rfl hne
  | cons x xs ih =>
    have hx := hxs x List.mem_cons_self c before
    cases xs with
    | nil => exact hx
    | cons next xs =>
      have hrest :=
        ih (List.cons_ne_nil next xs) (fun y hy => hxs y (List.mem_cons_of_mem x hy)) false
          (x :: before)
      have hreverse : (x :: next :: xs).reverse ++ before =
          (next :: xs).reverse ++ x :: before := by
        rw [List.reverse_cons, List.append_assoc, List.singleton_append]
      change List.foldl Builder.step _ (write x ++ .comma :: separated ((next :: xs).map write)) = _
      rw [List.foldl_append, hx, List.foldl_cons, hcomma, hrest, hreverse]

theorem builds_array {items : List Value} (h : ∀ v ∈ items, Builds v) : Builds (.array items) := by
  intro c frames
  by_cases hne : items = []
  · subst hne
    rfl
  have hitems := foldl_separated (fun c before => ⟨.value c, .array before :: frames⟩)
    (fun before => ⟨.follow, .array before :: frames⟩) (fun _ => rfl) hne
    (fun v hv c before => h v hv c (.array before :: frames)) true []
  rw [tokens, itemTokens_eq_map, List.cons_append, List.foldl_cons, List.foldl_append]
  change List.foldl Builder.step
    (List.foldl Builder.step ⟨.value true, .array [] :: frames⟩ _) [.closeArray] = _
  rw [hitems, List.append_nil]
  change Builder.put (.array items.reverse.reverse) frames = _
  rw [List.reverse_reverse]

theorem foldl_tokensOfField {f : Field} (h : Builds f.2) (c : Bool) (before : List Field)
    (frames : List Frame) :
    (tokensOfField f).foldl Builder.step ⟨.key c, .object before none :: frames⟩ =
      ⟨.follow, .object (f :: before) none :: frames⟩ := by
  obtain ⟨key, v⟩ := f
  cases key <;> exact h false (.object before _ :: frames)

theorem builds_object {fields : List Field} (h : ∀ f ∈ fields, Builds f.2) :
    Builds (.object fields) := by
  intro c frames
  by_cases hne : fields = []
  · subst hne
    rfl
  have hfields := foldl_separated (fun c before => ⟨.key c, .object before none :: frames⟩)
    (fun before => ⟨.follow, .object before none :: frames⟩) (fun _ => rfl) hne
    (fun f hf c before => foldl_tokensOfField (h f hf) c before frames) true []
  rw [tokens, fieldTokens_eq_map, List.cons_append, List.foldl_cons, List.foldl_append]
  change List.foldl Builder.step
    (List.foldl Builder.step ⟨.key true, .object [] none :: frames⟩ _) [.closeObject] = _
  rw [hfields, List.append_nil]
  change Builder.put (.object fields.reverse.reverse) frames = _
  rw [List.reverse_reverse]

theorem closed_builds : Closed Builds where
  null _ _ := rfl
  bool _ _ _ := rfl
  number _ _ _ _ := rfl
  string text := by cases text <;> exact fun _ _ => rfl
  array _ := builds_array
  object _ := builds_object

theorem parse_write {v : Value} (h : v.isSpelled) : parse v.write.toList = (v, false) := by
  rw [parse, write, String.toList_ofList, (closed_scans.of_isSpelled v h).scan,
    closed_builds.of_isSpelled v h]
  rfl

end CodeAtlas.Json.Value
