import CodeAtlas.Ordered
import CodeAtlas.Source.Reference

/-! The symbol graph: files and symbols, and links between them. Links are kept newest first, each
in a numbered slot; the slot of a removed link goes to the next link that is added. -/

namespace CodeAtlas

/-- A link of the graph. Callers and callees always come in pairs, one each way. -/
inductive Link where
  | contains (file : String) (symbol : Symbol)
  | relationship (source target : Symbol) (kinds : Nat)
  | reference (symbol : Symbol) (file : String) (site : Site)
  /-- The source may call the target. -/
  | caller (source target : Symbol) (site : Site)
  /-- The source may be called by the target. -/
  | callee (source target : Symbol) (site : Site)
  deriving Repr

namespace Link

def isContains : Link → Bool
  | contains .. => true
  | _ => false

def isRelationship : Link → Bool
  | relationship .. => true
  | _ => false

def isReference : Link → Bool
  | reference .. => true
  | _ => false

def isCaller : Link → Bool
  | caller .. => true
  | _ => false

def definitionOf? (s : Symbol) : Link → Option String
  | contains file symbol => if symbol == s then some file else none
  | _ => none

def defines (s : Symbol) (l : Link) : Bool := (l.definitionOf? s).isSome

theorem definitionOf?_congr {s t : Symbol} (h : s == t) (l : Link) :
    l.definitionOf? s = l.definitionOf? t := by
  cases l <;> simp [definitionOf?, BEq.congr_right h]

theorem definitionOf?_eq_none {s t : Symbol} (h : ¬s == t) {l : Link} (hs : l.defines s) :
    l.definitionOf? t = none := by
  cases l with
  | contains file symbol =>
    have hsymbol : symbol == s := by
      simpa [defines, definitionOf?] using hs
    have hne : ¬symbol == t := fun ht => h (BEq.trans (BEq.symm hsymbol) ht)
    exact if_neg hne
  | _ => rfl

end Link

structure SymbolGraph where
  files : List String := []
  symbols : List Symbol := []
  links : List (Nat × Link) := []
  freed : List Nat := []
  deriving Repr

structure GraphStats where
  files : Nat
  symbols : Nat
  contains : Nat
  relationships : Nat
  references : Nat
  callerPairs : Nat
  deriving Repr, DecidableEq

namespace SymbolGraph

def hasSymbol (g : SymbolGraph) (s : Symbol) : Bool := g.symbols.any (· == s)

def addFile (g : SymbolGraph) (path : String) : SymbolGraph :=
  if g.files.contains path then g else { g with files := g.files ++ [path] }

def addSymbol (g : SymbolGraph) (s : Symbol) : SymbolGraph :=
  if g.hasSymbol s then g else { g with symbols := g.symbols ++ [s] }

/-- The slot freed last, or a new one. -/
def nextSlot (g : SymbolGraph) : Nat := g.freed.head?.getD g.links.length

def addLink (g : SymbolGraph) (l : Link) : SymbolGraph :=
  { g with links := (g.nextSlot, l) :: g.links, freed := g.freed.tail }

def dropDefinitions (g : SymbolGraph) (s : Symbol) : SymbolGraph :=
  let stale := g.links.filter fun (_, l) => l.defines s
  { g with
    links := g.links.filter fun (_, l) => !l.defines s
    freed := (stale.map (·.1)).reverse ++ g.freed }

def setDefinition (g : SymbolGraph) (s : Symbol) (file : String) : SymbolGraph :=
  (g.dropDefinitions s).addLink (.contains file s)

def count (g : SymbolGraph) (p : Link → Bool) : Nat := (g.links.filter fun (_, l) => p l).length

def stats (g : SymbolGraph) : GraphStats where
  files := g.files.length
  symbols := g.symbols.length
  contains := g.count Link.isContains
  relationships := g.count Link.isRelationship
  references := g.count Link.isReference
  callerPairs := g.count Link.isCaller

def definingFile? (g : SymbolGraph) (s : Symbol) : Option String :=
  g.links.findSome? fun (_, l) => l.definitionOf? s

def definitionCount (g : SymbolGraph) (s : Symbol) : Nat := g.count (Link.defines s)

end SymbolGraph

end CodeAtlas
