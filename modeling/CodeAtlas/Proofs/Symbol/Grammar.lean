import CodeAtlas.Symbol.Printer

/-! The grammar of symbol uris: which texts spell which names, descriptors, header fields and
symbols. -/

namespace CodeAtlas.SymbolText

/-- A name is bare if it is an identifier; in backticks it may be anything but empty. -/
inductive SpellsName : List Char → String → Prop where
  | bare {s : List Char} (h : isIdentifier s) : SpellsName s (String.ofList s)
  | quoted {s : List Char} (h : s ≠ []) : SpellsName (quotedName s) (String.ofList s)

inductive SpellsDescriptor : List Char → Descriptor → Prop where
  | scope {t n} (h : SpellsName t n) : SpellsDescriptor (t ++ ['/']) ⟨n, .scope, none⟩
  | type {t n} (h : SpellsName t n) : SpellsDescriptor (t ++ ['#']) ⟨n, .type, none⟩
  | term {t n} (h : SpellsName t n) : SpellsDescriptor (t ++ ['.']) ⟨n, .term, none⟩
  | metadata {t n} (h : SpellsName t n) : SpellsDescriptor (t ++ [':']) ⟨n, .metadata, none⟩
  | macroDef {t n} (h : SpellsName t n) : SpellsDescriptor (t ++ ['!']) ⟨n, .macroDef, none⟩
  | method {t n} {tag : Option String} (h : SpellsName t n)
      (ht : ∀ d ∈ tag, isIdentifier d.toList) :
      SpellsDescriptor (t ++ '(' :: ((tag.getD "").toList ++ [')', '.'])) ⟨n, .method, tag⟩
  | parameter {t n} (h : SpellsName t n) :
      SpellsDescriptor ('(' :: (t ++ [')'])) ⟨n, .parameter, none⟩
  | typeParameter {t n} (h : SpellsName t n) :
      SpellsDescriptor ('[' :: (t ++ [']'])) ⟨n, .typeParameter, none⟩

inductive SpellsChain : List Char → List Descriptor → Prop where
  | nil : SpellsChain [] []
  | cons {text rest : List Char} {d : Descriptor} {ds : List Descriptor}
      (h : SpellsDescriptor text d) (hs : SpellsChain rest ds) :
        SpellsChain (text ++ rest) (d :: ds)

/-- A text that starts with a header field and goes on with `rest`. The space that closes the field
is not followed by another one, which would stand for a space in the field. -/
inductive SpellsField : List Char → String → List Char → Prop where
  | mk {s rest : List Char} (hs : s ≠ []) (hr : rest.head? ≠ some ' ') :
      SpellsField (doubled ' ' s ++ ' ' :: rest) (String.ofList s) rest

inductive SpellsHeader : List Char → String → Package → List Char → Prop where
  | mk {text afterScheme afterManager afterName chain scheme manager name version}
      (h₁ : SpellsField text scheme afterScheme) (h₂ : SpellsField afterScheme manager afterManager)
      (h₃ : SpellsField afterManager name afterName) (h₄ : SpellsField afterName version chain) :
      SpellsHeader text scheme ⟨manager, name, version⟩ chain

inductive Spells : List Char → SymbolParts → Prop where
  | localId {id : List Char} (h : isIdentifier id) :
      Spells (localMark ++ id) ⟨"local", ⟨"", "", ""⟩, [⟨String.ofList id, .localId, none⟩]⟩
  | global {text chain scheme package ds} (hl : ¬localMark <+: text)
      (hh : SpellsHeader text scheme package chain) (hne : ds ≠ []) (hd : SpellsChain chain ds) :
      Spells text ⟨scheme, package, ds⟩

end CodeAtlas.SymbolText
