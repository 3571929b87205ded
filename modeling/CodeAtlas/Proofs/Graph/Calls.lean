import CodeAtlas.Graph.Query
import CodeAtlas.Proofs.Graph.Agreement
import CodeAtlas.Proofs.Graph.Writes
import CodeAtlas.Proofs.Repetitions

/-! Calls in a finished graph. Every call is there twice, once told from the caller and once from
the callee, and a caller is always a declared method that mentions some other method or class. -/

namespace CodeAtlas

/-- As sets of symbols the lists are the same. -/
def SameSymbols (l l' : List Symbol) : Prop := ∀ t, l.any (· == t) = l'.any (· == t)

/-- The same error, or as sets the same symbols. -/
def SameAnswer {ε : Type} : Except ε (List Symbol) → Except ε (List Symbol) → Prop
  | .ok l, .ok l' => SameSymbols l l'
  | .error e, .error e' => e = e'
  | _, _ => False

/-- A mention of a method or class in the body of a method. -/
structure Call where
  caller : Symbol
  callee : Symbol
  site : Site

structure Call.Genuine (x : Index) (c : Call) : Prop where
  declared : ∃ d ∈ x.documents, c.caller ∈ SymbolGraph.declared d
  caller_kind : c.caller.kind = .method
  callee_kind : c.callee.kind = .method ∨ c.callee.kind = .classDef
  other : ¬c.callee == c.caller

namespace Link

def isCallee : Link → Bool
  | callee .. => true
  | _ => false

def call? : Link → Option Call
  | caller source target site => some ⟨source, target, site⟩
  | _ => none

def callBack? : Link → Option Call
  | callee source target site => some ⟨target, source, site⟩
  | _ => none

end Link

namespace SymbolGraph

def calls (g : SymbolGraph) : List Call := g.picked Link.call?

def callBacks (g : SymbolGraph) : List Call := g.picked Link.callBack?

theorem any_targets (g : SymbolGraph) (pick : Link → Option Symbol) (t : Symbol) :
    (g.targets pick).any (· == t) = (g.picked pick).any (· == t) := by
  rw [targets, any_eraseDups, List.any_map, (List.mergeSort_perm _ _).any_eq, picked,
    List.any_filterMap, List.any_filterMap]
  refine List.any_congr rfl ?_
  rintro ⟨slot, l⟩
  cases h : pick l <;> simp [h]

/-! ### The builder -/

/-- The links from callers and from callees tell the same calls, in the same order. -/
structure Reciprocal (x : Index) (g : SymbolGraph) : Prop where
  calls_eq : g.calls = g.callBacks
  genuine : ∀ c ∈ g.calls, c.Genuine x

variable {resolver : Option SourceResolver} {x : Index} {g g' : SymbolGraph}

theorem Reciprocal.congr (h : Reciprocal x g) (hcalls : g'.calls = g.calls)
    (hbacks : g'.callBacks = g.callBacks) : Reciprocal x g' := by
  constructor
  · rw [hcalls, hbacks, h.calls_eq]
  · rw [hcalls]
    exact h.genuine

theorem Reciprocal.addLink (h : Reciprocal x g) {l : Link} (hcall : l.call? = none)
    (hback : l.callBack? = none) : Reciprocal x (g.addLink l) := by
  refine h.congr ?_ ?_
  · rw [calls, picked_addLink, hcall]
    rfl
  · rw [callBacks, picked_addLink, hback]
    rfl

theorem Reciprocal.addSymbol (h : Reciprocal x g) (s : Symbol) : Reciprocal x (g.addSymbol s) :=
  h.congr (picked_addSymbol ..) (picked_addSymbol ..)

theorem Reciprocal.addCall (h : Reciprocal x g) {c : Call} (hc : c.Genuine x) :
    Reciprocal x ((g.addLink (.caller c.caller c.callee c.site)).addLink
      (.callee c.callee c.caller c.site)) := by
  have hcalls : ((g.addLink (.caller c.caller c.callee c.site)).addLink
      (.callee c.callee c.caller c.site)).calls = c :: g.calls := by
    simp [calls, Link.call?]
  constructor
  · rw [hcalls, h.calls_eq]
    simp [callBacks, Link.callBack?]
  · rw [hcalls]
    intro c' hc'
    rcases List.mem_cons.1 hc' with rfl | hc'
    · exact hc
    · exact h.genuine c' hc'

theorem Write.reciprocal (h : Write resolver x g g') (hg : Reciprocal x g) : Reciprocal x g' := by
  cases h with
  | file hd => exact hg.congr (picked_addFile ..) (picked_addFile ..)
  | symbol hs => exact hg.addSymbol _
  | relationship hs htarget => exact (hg.addSymbol _).addLink rfl rfl
  | reference hd hfile ho hs hrange => exact (hg.addSymbol _).addLink rfl rfl
  | definition hd hfile hs hrecord =>
    exact hg.congr (picked_setDefinition _ _ (fun _ _ => rfl) _ _)
      (picked_setDefinition _ _ (fun _ _ => rfl) _ _)
  | @call d method sources span r hd hmethod hkind hknown hresolver hspan hr hother hcallable =>
    have hcallee : r.symbol.kind = .method ∨ r.symbol.kind = .classDef := by
      simpa [Symbol.isCallable] using hcallable
    exact (hg.addSymbol r.symbol).addCall
      (c := ⟨method, r.symbol, r.site⟩) ⟨⟨d, hd, hmethod⟩, hkind, hcallee, hother⟩

theorem Reciprocal.of_build (hg : build resolver x = .ok g) : Reciprocal x g :=
  SymbolGraph.of_build ⟨rfl, by simp [calls, picked]⟩ (fun _ _ => Write.reciprocal) hg

/-! ### Callers and callees -/

theorem exists_callees {a : Symbol} (ha : g.hasSymbol a) :
    ∃ bs, g.callees a = .ok bs ∧
      ∀ b, bs.any (· == b) = g.calls.any fun c => c.caller == a && c.callee == b := by
  refine ⟨_, by simp only [callees, find, ha, if_true]; rfl, fun b => ?_⟩
  rw [any_targets, picked, calls, picked, List.any_filterMap, List.any_filterMap]
  refine List.any_congr rfl ?_
  rintro ⟨slot, l⟩
  cases l with
  | caller source target site => cases h : source == a <;> simp [Link.call?, h]
  | _ => rfl

theorem exists_callers {b : Symbol} (hb : g.hasSymbol b) :
    ∃ as, g.callers b = .ok as ∧
      ∀ a, as.any (· == a) = g.callBacks.any fun c => c.caller == a && c.callee == b := by
  refine ⟨_, by simp only [callers, find, hb, if_true]; rfl, fun a => ?_⟩
  rw [any_targets, picked, callBacks, picked, List.any_filterMap, List.any_filterMap]
  refine List.any_congr rfl ?_
  rintro ⟨slot, l⟩
  cases l with
  | callee source target site => cases h : source == b <;> simp [Link.callBack?, h]
  | _ => rfl

/-- The links of a finished graph tell the same calls from both ends, and each call is one of a
declared method to some other method or class. So one symbol is among the callees of another exactly
if that one is among its callers, and the number of pairs may be read off either end. -/
theorem build_calls (resolver : Option SourceResolver) (x : Index) :
    ∃ g, build resolver x = .ok g ∧
      g.calls.Perm g.callBacks ∧
      (∀ c ∈ g.calls, c.Genuine x) ∧
      (∀ a b, g.hasSymbol a → g.hasSymbol b → ∃ bs as, g.callees a = .ok bs ∧ g.callers b = .ok as ∧
        bs.any (· == b) = as.any (· == a)) ∧
      g.stats.callerPairs = g.count Link.isCallee := by
  obtain ⟨g, hg, _⟩ := exists_build resolver x
  have hreciprocal := Reciprocal.of_build hg
  refine ⟨g, hg, .of_eq hreciprocal.calls_eq, hreciprocal.genuine, fun a b ha hb => ?_, ?_⟩
  · obtain ⟨bs, hbs, hcallees⟩ := exists_callees ha
    obtain ⟨as, has, hcallers⟩ := exists_callers hb
    refine ⟨bs, as, hbs, has, ?_⟩
    rw [hcallees, hcallers, hreciprocal.calls_eq]
  · have hcaller : ∀ l, Link.isCaller l = (Link.call? l).isSome := by
      intro l
      cases l <;> rfl
    have hcallee : ∀ l, Link.isCallee l = (Link.callBack? l).isSome := by
      intro l
      cases l <;> rfl
    calc g.stats.callerPairs = g.calls.length := count_eq_length_picked _ g hcaller
      _ = g.callBacks.length := by rw [hreciprocal.calls_eq]
      _ = g.count Link.isCallee := (count_eq_length_picked _ g hcallee).symm

def classParts : SymbolParts := demoParts ⟨"C", .type, none⟩

theorem classParts_legal : classParts.Legal := demoParts_legal ⟨by decide, by decide, by simp⟩

def mentioning (f c : Symbol) : Index where
  documents := [
    { path := "a.py"
      symbols := [{ symbol := f.uri }]
      occurrences := [{ range := [1, 4, 5], symbol := c.uri }] }]

def bodyOnLineOne : SourceResolver where
  span _ := .ok (some ⟨"a.py", 1, 0, 1⟩)
  source _ := .ok none
  modules := []

theorem build_calls_mentioning :
    ∃ g, build (some bodyOnLineOne) (mentioning (.ofParts functionParts) (.ofParts classParts)) =
      .ok g ∧
      g.calls.Perm g.callBacks ∧ g.stats.callerPairs = 1 ∧ g.count Link.isCallee = 1 := by
  have hf := symbol?_ofParts functionParts_legal
  have hc := symbol?_ofParts classParts_legal
  obtain ⟨g, hg, hcalls, hgenuine, hqueries, hpairs⟩ :=
    build_calls (some bodyOnLineOne) (mentioning (.ofParts functionParts) (.ofParts classParts))
  have hone : g.stats.callerPairs = 1 := by
    have hrange : SourceRange.ofRaw? [1, 4, 5] = some ⟨1, 4, 1, 5⟩ := by decide
    have hroles : Roles.ofRaw 0 = ⟨0⟩ := by decide
    have hdef : Roles.isDefinition ⟨0⟩ = false := by decide
    have hne : (Symbol.ofParts functionParts == Symbol.ofParts classParts) = false := by decide
    have hne' : (Symbol.ofParts classParts == Symbol.ofParts functionParts) = false := by decide
    have hmethod : (Symbol.ofParts functionParts).kind = .method := by decide
    have hclass : (Symbol.ofParts classParts).isCallable := by decide
    rw [eq_of_build hg]
    simp [mentioning, addDocument, addDeclaration, addInformation, addOccurrence, declared, hf, hc,
      hrange, hroles, hdef, hne, hne', hmethod, hclass, addFile, addSymbol, hasSymbol,
      setDefinition, dropDefinitions, addLink, nextSlot, addCalls, bodyOnLineOne, addCall,
      referencesInSpan, SourceSpan.encloses, Ordered.squeeze, Ordered.squeeze.squeezeAfter,
      Link.defines, Link.definitionOf?, Link.isCaller, stats, count]
  exact ⟨g, hg, hcalls, hone, hpairs ▸ hone⟩

end SymbolGraph
end CodeAtlas
