/-! Code symbols: a scheme, a package and a chain of descriptors, identified by their uri. -/

namespace CodeAtlas

structure Package where
  manager : String := ""
  name : String := ""
  version : String := ""
  deriving Repr, DecidableEq

def Package.display (p : Package) : String := p.manager ++ " " ++ p.name ++ " " ++ p.version

inductive DescriptorKind where
  | scope | type | term | method | metadata | macroDef | parameter | typeParameter | localId
  deriving Repr, DecidableEq

structure Descriptor where
  name : String
  kind : DescriptorKind
  disambiguator : Option String := none
  deriving Repr, DecidableEq

structure SymbolParts where
  scheme : String
  package : Package
  descriptors : List Descriptor
  deriving Repr, DecidableEq

inductive SymbolKind where
  | localId | module | classDef | method | value | metadata | macroDef | parameter | typeParameter
  deriving Repr, DecidableEq

def DescriptorKind.symbolKind : DescriptorKind → SymbolKind
  | .scope => .module
  | .type => .classDef
  | .term => .value
  | .method => .method
  | .metadata => .metadata
  | .macroDef => .macroDef
  | .parameter => .parameter
  | .typeParameter => .typeParameter
  | .localId => .localId

namespace SymbolParts

def dotpath (p : SymbolParts) : String := ".".intercalate (p.descriptors.map (·.name))

def moduleName (p : SymbolParts) : String := (p.descriptors.head?.map (·.name)).getD ""

def displayName (p : SymbolParts) : String := (p.descriptors.getLast?.map (·.name)).getD ""

def isLocal (p : SymbolParts) : Bool := p.descriptors.head?.any (·.kind = .localId)

def kind (p : SymbolParts) : SymbolKind :=
  if p.isLocal then .localId
  else (p.descriptors.getLast?.map (·.kind.symbolKind)).getD .localId

def isMeta (p : SymbolParts) : Bool := p.descriptors.getLast?.any (·.kind = .metadata)

def isParameter (p : SymbolParts) : Bool :=
  p.descriptors.getLast?.any fun d => d.kind = .parameter || d.kind = .typeParameter

/-- Symbols of modules that a protocol compiler wrote. -/
def isGenerated (p : SymbolParts) : Bool :=
  p.moduleName.endsWith "pb2" || p.moduleName.endsWith "pb2_grpc"

end SymbolParts

/-- An immutable code symbol. The uri alone identifies it. -/
structure Symbol where
  uri : String
  parts : SymbolParts
  deriving Repr

namespace Symbol

instance : BEq Symbol := ⟨fun a b => a.uri == b.uri⟩

theorem beq_iff {a b : Symbol} : a == b ↔ a.uri = b.uri := by
  simp [BEq.beq]

instance : EquivBEq Symbol where
  rfl := beq_iff.2 rfl
  symm h := beq_iff.2 (beq_iff.1 h).symm
  trans h h' := beq_iff.2 ((beq_iff.1 h).trans (beq_iff.1 h'))

def dotpath (s : Symbol) : String := s.parts.dotpath

def kind (s : Symbol) : SymbolKind := s.parts.kind

def isCallable (s : Symbol) : Bool := s.kind = .method || s.kind = .classDef

def before (a b : Symbol) : Bool := a.uri ≤ b.uri

end Symbol

end CodeAtlas
