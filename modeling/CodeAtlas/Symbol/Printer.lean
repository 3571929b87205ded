import CodeAtlas.Symbol.Basic

/-! Written form of symbols. Header fields double their spaces and end in one; a name of identifier
characters is bare and any other stands in backticks with its own backticks doubled. -/

namespace CodeAtlas

namespace SymbolText

def backtick : Char := '\x60'

def isIdentifierChar (c : Char) : Bool :=
  c.isAlphanum || c = '_' || c = '+' || c = '-' || c = '$'

def isIdentifier (s : List Char) : Bool := !s.isEmpty && s.all isIdentifierChar

theorem isIdentifier_iff {s : List Char} :
    isIdentifier s ↔ s ≠ [] ∧ ∀ c ∈ s, isIdentifierChar c := by
  simp [isIdentifier]

def doubled (mark : Char) (s : List Char) : List Char :=
  s.flatMap fun c => if c = mark then [mark, mark] else [c]

@[simp] theorem doubled_nil (mark : Char) : doubled mark [] = [] := rfl

@[simp] theorem doubled_cons_self (mark : Char) (s : List Char) :
    doubled mark (mark :: s) = mark :: mark :: doubled mark s := by
  simp [doubled]

@[simp] theorem doubled_cons_of_ne {mark c : Char} (h : c ≠ mark) (s : List Char) :
    doubled mark (c :: s) = c :: doubled mark s := by
  simp [doubled, h]

def field (s : List Char) : List Char := doubled ' ' s ++ [' ']

def quotedName (s : List Char) : List Char := backtick :: doubled backtick s ++ [backtick]

def name (s : List Char) : List Char := if isIdentifier s then s else quotedName s

def localMark : List Char := "local ".toList

end SymbolText

open SymbolText

def Descriptor.chars (d : Descriptor) : List Char :=
  let name := SymbolText.name d.name.toList
  match d.kind with
  | .scope => name ++ ['/']
  | .type => name ++ ['#']
  | .term => name ++ ['.']
  | .metadata => name ++ [':']
  | .macroDef => name ++ ['!']
  | .method => name ++ '(' :: (d.disambiguator.getD "").toList ++ [')', '.']
  | .parameter => '(' :: name ++ [')']
  | .typeParameter => '[' :: name ++ [']']
  | .localId => name

def Descriptor.text (d : Descriptor) : String := String.ofList d.chars

namespace SymbolParts

def header (p : SymbolParts) : List Char :=
  field p.scheme.toList ++ field p.package.manager.toList ++ field p.package.name.toList
    ++ field p.package.version.toList

def chars (p : SymbolParts) : List Char :=
  match p.descriptors with
  | [⟨name, .localId, _⟩] => localMark ++ name.toList
  | descriptors => p.header ++ descriptors.flatMap Descriptor.chars

/-- The uri with no more quoting than needed. -/
def uri (p : SymbolParts) : String := String.ofList p.chars

end SymbolParts

namespace Symbol

def ofParts (p : SymbolParts) : Symbol := ⟨p.uri, p⟩

def canonicalUri (s : Symbol) : String := s.parts.uri

/-- The enclosing symbol: all descriptors but the last, where there are two or more. -/
def parent? (s : Symbol) : Option Symbol :=
  if s.parts.isLocal || s.parts.descriptors.length < 2 then none
  else some (ofParts { s.parts with descriptors := s.parts.descriptors.dropLast })

def ancestors (s : Symbol) : List Symbol :=
  go s.parts.descriptors.length s
where
  go : Nat → Symbol → List Symbol
    | 0, _ => []
    | fuel + 1, s => match s.parent? with
      | none => []
      | some p => p :: go fuel p

end Symbol

end CodeAtlas
