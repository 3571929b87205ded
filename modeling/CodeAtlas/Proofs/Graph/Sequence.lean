import CodeAtlas.Proofs.Graph.Callees

/-! The order in which a graph tells targets. They are told by the slots of their links, and a slot
that a definition leaves goes to the definition in its place, so that the links that stay have their
slots in the order in which they were recorded. -/

namespace CodeAtlas

section
variable {α β : Type} {f : α → β} {copies : α → List β}

theorem filter_flatMap_copies (h : ∀ a, ∀ b ∈ copies a, b = f a) (p : β → Bool) (l : List α) :
    (l.flatMap copies).filter p = (l.filter fun a => p (f a)).flatMap copies := by
  induction l with
  | nil => rfl
  | cons a l ih =>
    rw [List.flatMap_cons, List.filter_append, ih]
    cases hp : p (f a) with
    | true =>
      have hall : (copies a).filter p = copies a :=
        List.filter_eq_self.2 fun b hb => by rw [h a b hb, hp]
      simp only [hall, List.filter_cons, hp, if_true, List.flatMap_cons]
    | false =>
      have hnone : (copies a).filter p = [] :=
        List.filter_eq_nil_iff.2 fun b hb => by simp [h a b hb, hp]
      simp only [hnone, List.filter_cons, hp, Bool.false_eq_true, if_false, List.nil_append]

theorem eraseDups_flatMap_copies [BEq β] [EquivBEq β] (h : ∀ a, ∀ b ∈ copies a, b = f a) :
    ∀ l : List α, (l.flatMap copies).eraseDups =
      ((l.filter fun a => !(copies a).isEmpty).map f).eraseDups
  | [] => rfl
  | a :: as => by
    have hshort : (as.filter fun a' => !f a' == f a).length < as.length + 1 :=
      Nat.lt_succ_of_le (List.length_filter_le _ as)
    cases hcopies : copies a with
    | nil =>
      have hrest := eraseDups_flatMap_copies h as
      rwa [List.flatMap_cons, hcopies, List.nil_append, List.filter_cons_of_neg (by simp [hcopies])]
    | cons b rest =>
      have hall : ∀ c ∈ b :: rest, c = f a := fun c hc => h a c (hcopies ▸ hc)
      obtain rfl := hall b List.mem_cons_self
      -- what repeats `f a`, here or later on, is dropped on both sides
      have hrepeats : rest.filter (fun c => !c == f a) = [] := by
        refine List.filter_eq_nil_iff.2 fun c hc => ?_
        rw [hall c (List.mem_cons_of_mem _ hc)]
        simp
      have hrest := eraseDups_flatMap_copies h (as.filter fun a' => !f a' == f a)
      rw [List.flatMap_cons, hcopies, List.cons_append, List.eraseDups_cons, List.filter_append,
        hrepeats, List.nil_append, filter_flatMap_copies h, hrest,
        List.filter_cons_of_pos (by simp [hcopies]), List.map_cons, List.eraseDups_cons,
        List.filter_map, List.filter_comm]
      rfl
termination_by l => l.length

end

namespace Link

def relativeOf? (s : Symbol) : Link → Option Symbol
  | relationship source target _ => if source == s then some target else none
  | _ => none

def calleeOf? (s : Symbol) : Link → Option Symbol
  | caller source target _ => if source == s then some target else none
  | _ => none

def callerOf? (s : Symbol) : Link → Option Symbol
  | callee source target _ => if source == s then some target else none
  | _ => none

end Link

namespace SymbolGraph

/-! ### Slots -/

/-- Between two writes no slot is free, and of two links that stay the later one has the
later slot. -/
structure Sequenced (g : SymbolGraph) : Prop where
  homes_le : ∀ s, (g.homes s).length ≤ 1
  freed_eq : g.freed = []
  below : ∀ e ∈ g.links, e.1 < g.links.length
  descending : g.links.Pairwise fun a b => a.2.isContains = false →
    b.2.isContains = false → b.1 < a.1

namespace Sequenced
variable {resolver : Option SourceResolver} {x : Index} {g g' : SymbolGraph}

theorem empty : Sequenced {} := ⟨fun _ => Nat.zero_le 1, rfl, by simp, .nil⟩

theorem congr (h : Sequenced g) (hlinks : g'.links = g.links) (hfreed : g'.freed = g.freed) :
    Sequenced g' := by
  refine ⟨fun s => ?_, hfreed.trans h.freed_eq, ?_, ?_⟩
  · rw [homes, hlinks]
    exact h.homes_le s
  · rw [hlinks]
    exact h.below
  · rw [hlinks]
    exact h.descending

theorem addFile (h : Sequenced g) (path : String) : Sequenced (g.addFile path) := by
  refine h.congr (links_addFile g path) ?_
  unfold SymbolGraph.addFile
  split <;> rfl

theorem addSymbol (h : Sequenced g) (s : Symbol) : Sequenced (g.addSymbol s) := by
  refine h.congr (links_addSymbol g s) ?_
  unfold SymbolGraph.addSymbol
  split <;> rfl

theorem addLink (h : Sequenced g) {l : Link} (hl : l.isContains = false) :
    Sequenced (g.addLink l) := by
  have hslot : g.nextSlot = g.links.length := by rw [nextSlot, h.freed_eq]; rfl
  have hnone : ∀ s, l.definitionOf? s = none := by
    intro s
    cases l with
    | contains file t => cases hl
    | _ => rfl
  have hlinks : (g.addLink l).links = (g.links.length, l) :: g.links := by
    rw [SymbolGraph.addLink, hslot]
  refine ⟨fun s => ?_, ?_, ?_, ?_⟩
  · rw [homes_addLink, hnone]
    exact h.homes_le s
  · rw [SymbolGraph.addLink, h.freed_eq]
    rfl
  · rw [hlinks, List.length_cons]
    intro e he
    rcases List.mem_cons.1 he with rfl | he
    · exact Nat.lt_succ_self _
    · exact Nat.lt_succ_of_lt (h.below e he)
  · rw [hlinks]
    exact List.pairwise_cons.2 ⟨fun e he _ _ => h.below e he, h.descending⟩

theorem exists_slot (h : Sequenced g) (s : Symbol) (file : String) :
    ∃ slot, (g.setDefinition s file).links =
      (slot, .contains file s) :: g.links.filter (fun e => !e.2.defines s) ∧
      (g.setDefinition s file).freed = [] ∧
        slot < (g.links.filter fun e => !e.2.defines s).length + 1 ∧
      g.links.length ≤ (g.links.filter fun e => !e.2.defines s).length + 1 := by
  have hstale : (g.links.filter fun e => e.2.defines s).length ≤ 1 := by
    have hcount : (g.links.filter fun e => e.2.defines s).length = (g.homes s).length :=
      definitionCount_eq g s
    rw [hcount]
    exact h.homes_le s
  have hall : (g.links.filter fun e => e.2.defines s).length +
      (g.links.filter fun e => !e.2.defines s).length =
      g.links.length := by
    rw [← List.length_append]
    exact (List.filter_append_perm _ _).length_eq
  have hfreed : (g.dropDefinitions s).freed =
      ((g.links.filter fun e => e.2.defines s).map (·.1)).reverse := by
    rw [dropDefinitions, h.freed_eq, List.append_nil]
  refine ⟨(g.dropDefinitions s).nextSlot, rfl, ?_, ?_, by omega⟩
  · have htail : (g.setDefinition s file).freed = (g.dropDefinitions s).freed.tail := rfl
    rw [htail, hfreed]
    refine List.eq_nil_of_length_eq_zero ?_
    rw [List.length_tail, List.length_reverse, List.length_map]
    omega
  · rw [nextSlot]
    cases hhead : (g.dropDefinitions s).freed.head? with
    | none => exact Nat.lt_succ_self _
    | some slot =>
      have hslot := List.mem_of_mem_head? hhead
      rw [hfreed, List.mem_reverse] at hslot
      obtain ⟨e, he, rfl⟩ := List.mem_map.1 hslot
      have hbelow := h.below e (List.mem_of_mem_filter he)
      rw [Option.getD_some]
      omega

theorem setDefinition (h : Sequenced g) (s : Symbol) (file : String) :
    Sequenced (g.setDefinition s file) := by
  obtain ⟨slot, hlinks, hfreed, hslot, hlength⟩ := h.exists_slot s file
  refine ⟨fun t => ?_, hfreed, ?_, ?_⟩
  · rw [homes_setDefinition]
    split
    · exact Nat.le_refl 1
    · exact h.homes_le t
  · rw [hlinks, List.length_cons]
    intro e he
    rcases List.mem_cons.1 he with rfl | he
    · exact hslot
    · exact Nat.lt_of_lt_of_le (h.below e (List.mem_of_mem_filter he)) hlength
  · rw [hlinks]
    exact List.pairwise_cons.2 ⟨fun e _ hstays => Bool.noConfusion hstays, h.descending.filter _⟩

end Sequenced

variable {resolver : Option SourceResolver} {x : Index} {g g' : SymbolGraph}

theorem Write.sequenced (h : Write resolver x g g') (hg : Sequenced g) : Sequenced g' := by
  cases h with
  | file hd => exact hg.addFile _
  | symbol hs => exact hg.addSymbol _
  | relationship hs htarget => exact (hg.addSymbol _).addLink rfl
  | reference hd hfile ho hs hrange => exact (hg.addSymbol _).addLink rfl
  | definition hd hfile hs hrecord => exact hg.setDefinition _ _
  | call hd hmethod hkind hknown hresolver hspan hr hother hcallable =>
    exact ((hg.addSymbol _).addLink rfl).addLink rfl

theorem Sequenced.of_build (hg : build resolver x = .ok g) : Sequenced g :=
  SymbolGraph.of_build .empty (fun _ _ => Write.sequenced) hg

theorem Sequenced.targets_eq (h : Sequenced g) {pick : Link → Option Symbol}
    (hpick : ∀ file s, pick (.contains file s) = none) :
    g.targets pick = (g.picked pick).reverse.eraseDups := by
  have hdescending : (g.links.filterMap fun e => (pick e.2).map fun t => (e.1, t)).Pairwise
      fun a b => b.1 < a.1 := by
    refine List.Pairwise.filterMap _ (fun a b hab c hc d hd => ?_) h.descending
    obtain ⟨t, ht, rfl⟩ := Option.map_eq_some_iff.1 hc
    obtain ⟨u, hu, rfl⟩ := Option.map_eq_some_iff.1 hd
    have hstays {l : Link} {t : Symbol} (hl : pick l = some t) : l.isContains = false := by
      cases l with
      | contains file s => rw [hpick] at hl; cases hl
      | _ => rfl
    exact hab (hstays ht) (hstays hu)
  have hpicked : ((g.links.filterMap fun e => (pick e.2).map fun t => (e.1, t)).map (·.2)) =
      g.picked pick := by
    simp [List.map_filterMap, picked, Function.comp_def]
  rw [targets, Ordered.mergeSort_eq_reverse hdescending, List.map_reverse, hpicked]

theorem targets_of_build (hg : build resolver x = .ok g) {pick : Link → Option Symbol}
    (hpick : ∀ file s, pick (.contains file s) = none) {told : List Symbol}
    (htold : g.picked pick = told.reverse) :
    g.targets pick = told.eraseDups := by
  rw [(Sequenced.of_build hg).targets_eq hpick, htold, List.reverse_reverse]

/-! ### Relationships -/

def relativesOf (x : Index) (s : Symbol) : List Symbol :=
  (informationsOf x).flatMap fun i =>
    if (symbol? i.symbol).any (· == s) then i.relationships.filterMap fun r =>
      symbol? r.symbol else []

theorem filterMap_relativeOf?_informationLinks (s : Symbol) (i : SymbolInformation) :
    (informationLinks i).filterMap (Link.relativeOf? s) =
      if (symbol? i.symbol).any (· == s) then i.relationships.filterMap fun r => symbol? r.symbol
        else [] := by
  unfold informationLinks
  cases symbol? i.symbol with
  | none => rfl
  | some t =>
    rw [List.filterMap_filterMap, Option.any_some]
    cases hts : t == s with
    | true =>
      refine List.filterMap_congr fun r _ => ?_
      cases hr : symbol? r.symbol <;> simp [relationshipLink?, hr, Link.relativeOf?, hts]
    | false =>
      refine List.filterMap_eq_nil_iff.2 fun r _ => ?_
      cases hr : symbol? r.symbol <;> simp [relationshipLink?, hr, Link.relativeOf?, hts]

theorem relationships_of_build (hg : build resolver x = .ok g) (s : Symbol) :
    g.relationships s = (g.find s).map fun _ => (relativesOf x s).eraseDups := by
  have hpicked : g.picked (Link.relativeOf? s) = (relativesOf x s).reverse := by
    rw [picked_relationships_of_build hg, List.filterMap_flatMap]
    · simp only [filterMap_relativeOf?_informationLinks]
      rfl
    · intro l hl
      cases l with
      | relationship source target kinds => cases hl
      | _ => rfl
  rw [← targets_of_build hg (fun _ _ => rfl) hpicked]
  rfl

/-! ### Calls -/

/-- A method whose body is read, and the other methods and classes that the body mentions,
in order. -/
structure Visit where
  method : Symbol
  mentioned : List Symbol

def mentionedIn (resolver : SourceResolver) (recorded : String → List Reference) (method : Symbol) :
    List Symbol :=
  match resolver.span method with
  | .ok (some span) =>
    ((enclosed (recorded span.path) span).map (·.symbol)).filter fun s =>
      !(s == method) && s.isCallable
  | _ => []

def visitsIn (resolver : Option SourceResolver) (recorded : String → List Reference)
    (d : Document) : List Visit :=
  match resolver with
  | none => []
  | some resolver =>
    ((declared d).filter fun s => s.kind = .method).map fun method =>
      ⟨method, mentionedIn resolver recorded method⟩

def visitsAfter (resolver : Option SourceResolver) (before : List Document) :
    List Document → List Visit
  | [] => []
  | d :: ds =>
    visitsIn resolver (recordedBy (before ++ [d])) d ++ visitsAfter resolver (before ++ [d]) ds

def visitsOf (resolver : Option SourceResolver) (x : Index) : List Visit :=
  visitsAfter resolver [] x.documents

/-- A question about calls alone. Of the two links of a call it takes what `tell` says of the method
and of what its body mentions. -/
structure TellsCalls (pick : Link → Option Symbol) (tell : Symbol → Symbol → Option Symbol) :
    Prop where
  contains : ∀ file s, pick (.contains file s) = none
  relationship : ∀ s target kinds, pick (.relationship s target kinds) = none
  reference : ∀ s file site, pick (.reference s file site) = none
  call : ∀ method target site,
    [Link.caller method target site, .callee target method site].filterMap pick =
      (tell method target).toList

section
variable {pick : Link → Option Symbol} {tell : Symbol → Symbol → Option Symbol}

theorem filterMap_callLinks (hpick : TellsCalls pick tell) (method : Symbol) (r : Reference) :
    (callLinks method r).filterMap pick =
      if !(r.symbol == method) && r.symbol.isCallable then (tell method r.symbol).toList
        else [] := by
  unfold callLinks
  cases r.symbol == method <;> cases r.symbol.isCallable <;> simp [hpick.call]

theorem filterMap_bodyLinks (hpick : TellsCalls pick tell) (resolver : SourceResolver)
    (recorded : String → List Reference) (method : Symbol) :
    (bodyLinks resolver recorded method).filterMap pick =
      (mentionedIn resolver recorded method).filterMap (tell method) := by
  rw [bodyLinks, mentionedIn]
  rcases resolver.span method with e | (_ | span)
  · rfl
  · rfl
  · simp only [List.filterMap_flatMap, filterMap_callLinks hpick, List.filterMap_filter,
      List.filterMap_map]
    rw [List.filterMap_eq_flatMap_toList]
    refine List.flatMap_congr fun r _ => ?_
    simp only [Function.comp_apply]
    split <;> rfl

theorem filterMap_methodLinks (hpick : TellsCalls pick tell) (recorded : String → List Reference)
    (d : Document) :
    (methodLinks resolver recorded d).filterMap pick =
      (visitsIn resolver recorded d).flatMap fun v => v.mentioned.filterMap (tell v.method) := by
  cases resolver with
  | none => rfl
  | some resolver =>
    simp only [methodLinks, visitsIn, List.filterMap_flatMap, List.flatMap_map,
      filterMap_bodyLinks hpick]

theorem filterMap_linksAfter_visits (hpick : TellsCalls pick tell) (before ds : List Document) :
    (linksAfter resolver before ds).filterMap pick =
      (visitsAfter resolver before ds).flatMap fun v => v.mentioned.filterMap (tell v.method) := by
  have hdocument : ∀ d, (documentLinks d).filterMap pick = [] :=
    filterMap_documentLinks hpick.relationship hpick.reference
  induction ds generalizing before with
  | nil => rfl
  | cons d ds ih =>
    rw [linksAfter, visitsAfter, List.filterMap_append, List.filterMap_append, hdocument,
      List.nil_append, filterMap_methodLinks hpick, ih, List.flatMap_append]

theorem picked_visits_of_build (hg : build resolver x = .ok g) (hpick : TellsCalls pick tell) :
    g.picked pick =
      ((visitsOf resolver x).flatMap fun v => v.mentioned.filterMap (tell v.method)).reverse := by
  rw [picked_calls_of_build hg hpick.contains hpick.relationship, filterMap_linksAfter_visits hpick,
    visitsOf]

end

def calleesOf (resolver : Option SourceResolver) (x : Index) (s : Symbol) : List Symbol :=
  (visitsOf resolver x).flatMap fun v => if v.method == s then v.mentioned else []

def callersOf (resolver : Option SourceResolver) (x : Index) (s : Symbol) : List Symbol :=
  ((visitsOf resolver x).filter fun v => v.mentioned.any (· == s)).map (·.method)

theorem tellsCalls_calleeOf? (s : Symbol) :
    TellsCalls (Link.calleeOf? s) fun method target => if method == s then some target
      else none := by
  refine ⟨fun _ _ => rfl, fun _ _ _ => rfl, fun _ _ _ => rfl, fun method target site => ?_⟩
  cases h : method == s <;> simp [List.filterMap_cons, Link.calleeOf?, h]

theorem tellsCalls_callerOf? (s : Symbol) :
    TellsCalls (Link.callerOf? s) fun method target => if target == s then some method
      else none := by
  refine ⟨fun _ _ => rfl, fun _ _ _ => rfl, fun _ _ _ => rfl, fun method target site => ?_⟩
  cases h : target == s <;> simp [List.filterMap_cons, Link.callerOf?, h]

theorem callees_of_build (hg : build resolver x = .ok g) (s : Symbol) :
    g.callees s = (g.find s).map fun _ => (calleesOf resolver x s).eraseDups := by
  have hvisit (v : Visit) :
      (v.mentioned.filterMap fun t => if v.method == s then some t else none) =
      if v.method == s then v.mentioned else [] := by
    cases v.method == s <;> simp
  have hpicked : g.picked (Link.calleeOf? s) = (calleesOf resolver x s).reverse := by
    rw [picked_visits_of_build hg (tellsCalls_calleeOf? s)]
    simp only [hvisit, calleesOf]
  rw [← targets_of_build hg (fun _ _ => rfl) hpicked]
  rfl

theorem callers_of_build (hg : build resolver x = .ok g) (s : Symbol) :
    g.callers s = (g.find s).map fun _ => (callersOf resolver x s).eraseDups := by
  -- a body that mentions `s` more than once records its method side by side
  let copies (v : Visit) : List Symbol :=
    v.mentioned.filterMap fun t => if t == s then some v.method else none
  have hcopies (v : Visit) : ∀ m ∈ copies v, m = v.method := by
    intro m hm
    obtain ⟨t, -, ht⟩ := List.mem_filterMap.1 hm
    split at ht
    · exact (Option.some.inj ht).symm
    · cases ht
  have hmentions (v : Visit) : (!(copies v).isEmpty) = v.mentioned.any (· == s) := by
    simp only [copies]
    induction v.mentioned with
    | nil => rfl
    | cons t ts ih => cases h : t == s <;> simp [h, ih]
  have hpicked : g.picked (Link.callerOf? s) = ((visitsOf resolver x).flatMap copies).reverse :=
    picked_visits_of_build hg (tellsCalls_callerOf? s)
  have htold : g.targets (Link.callerOf? s) = (callersOf resolver x s).eraseDups := by
    rw [targets_of_build hg (fun _ _ => rfl) hpicked, eraseDups_flatMap_copies hcopies, callersOf]
    simp only [hmentions]
  rw [← htold]
  rfl

/-- Every graph can be built, and its answers come in the order in which their pairs were first
recorded, each one once: relationships as the informations of the symbol say them, and callers as
their bodies are read. -/
theorem build_first_recorded (resolver : Option SourceResolver) (x : Index) :
    ∃ g, build resolver x = .ok g ∧ ∀ s,
      g.relationships s = (g.find s).map (fun _ => (relativesOf x s).eraseDups) ∧
      g.callees s = (g.find s).map (fun _ => (calleesOf resolver x s).eraseDups) ∧
      g.callers s = (g.find s).map (fun _ => (callersOf resolver x s).eraseDups) := by
  obtain ⟨g, hg, -⟩ := exists_build resolver x
  exact ⟨g, hg, fun s => ⟨relationships_of_build hg s, callees_of_build hg s,
    callers_of_build hg s⟩⟩

def demoMoved : Index where
  documents := [
    { path := "a.py", symbols := [{
      symbol := "local f", relationships := [{ symbol := "local h" }] }] },
    { path := "b.py"
      symbols :=
        [{ symbol := "local f", relationships := [{ symbol := "local g" },
          { symbol := "local h" }] }] }]

/-- The second definition, which is the newest link, has the slot of the first one. -/
example :
    (build none demoMoved).toOption.map (fun g => g.links.map (·.1)) = some [1, 3, 2, 0] := by rfl

example : (symbol? "local f").map (fun s => (relativesOf demoMoved s).eraseDups.map (·.uri)) =
    some ["local h", "local g"] := by
  rfl

end SymbolGraph
end CodeAtlas
