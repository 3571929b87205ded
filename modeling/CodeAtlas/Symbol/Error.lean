/-! Why a text is no symbol uri. -/

namespace CodeAtlas

inductive HeaderField where
  | scheme | manager | name | version
  deriving Repr, DecidableEq

def HeaderField.label : HeaderField → String
  | .scheme => "scheme"
  | .manager => "package manager"
  | .name => "package name"
  | .version => "package version"

inductive DescriptorFault where
  | expected (wanted : Char) (found : Option Char)
  | unknownSuffix (found : Char)
  | noSuffix
  | noName
  | unterminatedName
  | emptyName
  deriving Repr, DecidableEq

def DescriptorFault.reason : DescriptorFault → String
  | .expected wanted (some found) =>
    "expected \x60" ++ wanted.toString ++ "\x60, found \x60" ++ found.toString ++ "\x60"
  | .expected wanted none => "expected \x60" ++ wanted.toString ++ "\x60, found end of input"
  | .unknownSuffix found => "unknown descriptor suffix \x60" ++ found.toString ++ "\x60"
  | .noSuffix => "descriptor without suffix"
  | .noName => "expected a name"
  | .unterminatedName => "unterminated escaped name"
  | .emptyName => "empty escaped name"

inductive SymbolError where
  | empty
  | missingField (uri : String) (field : HeaderField)
  | noDescriptors (uri : String)
  | malformed (uri : String) (position : Nat) (fault : DescriptorFault)
  | invalidLocal (uri : String)
  deriving Repr, DecidableEq

def SymbolError.message : SymbolError → String
  | .empty => "Empty symbol uri"
  | .missingField uri field => "Malformed symbol \x60" ++ uri ++ "\x60: missing " ++ field.label
  | .noDescriptors uri => "Malformed symbol \x60" ++ uri ++ "\x60: no descriptors"
  | .malformed uri position fault =>
    "Malformed symbol \x60" ++ uri ++ "\x60 at byte " ++ toString position ++ ": " ++ fault.reason
  | .invalidLocal uri => "Malformed local symbol \x60" ++ uri ++ "\x60: invalid local id"

end CodeAtlas
