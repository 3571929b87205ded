import CodeAtlas.Embedding.Similarity
import CodeAtlas.Rank.Config

/-! The settings of the program, and their standard values. -/

namespace CodeAtlas

structure IndexSettings where
  indexPath : String := "index.scip"
  /-- Where the sources of modules are; the index says so itself if this does not. -/
  projectRoot : Option String := none
  buildCallerRelations : Bool := true
  deriving Repr

structure RankSettings where
  alpha : Float := RankConfig.standard.alpha
  maxIterations : Nat := (RankConfig.standard : RankConfig Float).maxIterations
  tolerance : Float := RankConfig.standard.tolerance
  weightKey : String := (RankConfig.standard : RankConfig Float).weightKey
  deriving Repr

def RankSettings.config (s : RankSettings) : Except (RankError Float) (RankConfig Float) :=
  RankConfig.make s.alpha s.maxIterations s.tolerance s.weightKey

structure SemanticSettings where
  norm : Norm := .l2
  zScorePower : Float := 2
  embeddingsPath : String := ".symdex/embeddings.json"
  model : String := "AllMiniLML6V2"
  deriving Repr

structure LoggingSettings where
  default : String := "warn"
  modules : List (String × String) := []
  deriving Repr

structure Settings where
  version : Nat := 1
  index : IndexSettings := {}
  rank : RankSettings := {}
  semantic : SemanticSettings := {}
  logging : LoggingSettings := {}
  deriving Repr

def Norm.word : Norm → String
  | .l1 => "l1"
  | .l2 => "l2"
  | .softmax => "softmax"

def Norm.ofWord? (w : String) : Option Norm := [Norm.l1, .l2, .softmax].find? (·.word = w)

inductive SettingFault where
  | unreadable
  | invalidType
  | invalidValue
  | unknownVariant
  deriving Repr, DecidableEq

def SettingFault.reason : SettingFault → String
  | .unreadable => "unreadable file"
  | .invalidType => "invalid type"
  | .invalidValue => "invalid value"
  | .unknownVariant => "unknown variant"

structure SettingError where
  fault : SettingFault
  key : List String
  deriving Repr, DecidableEq

def SettingError.keyText (e : SettingError) : String := ".".intercalate e.key

def SettingError.message (e : SettingError) : String :=
  e.fault.reason ++ (if e.key.isEmpty then "" else " for key " ++ e.keyText)

end CodeAtlas
