import CodeAtlas.Settings.Basic
import CodeAtlas.Toml.Writer

/-! The text of settings, as it stands in a settings file. -/

namespace CodeAtlas

open Toml (writeKey writeText writeFloat writeNatural? writeBool)

namespace Settings

def pair (key value : String) : String := writeKey key ++ " = " ++ value ++ "\n"

def heading (name : String) : String := "\n[" ++ name ++ "]\n"

def write? (s : Settings) : Option String := do
  let iterations ← writeNatural? s.rank.maxIterations
  let root := match s.index.projectRoot with
    | some root => pair "project_root" (writeText root)
    | none => ""
  let modules := s.logging.modules.map fun (name, level) => pair name (writeText level)
  return pair "version" (toString s.version)
    ++ heading "index"
    ++ pair "index_path" (writeText s.index.indexPath)
    ++ root
    ++ pair "build_caller_relations" (writeBool s.index.buildCallerRelations)
    ++ heading "rank"
    ++ pair "alpha" (writeFloat s.rank.alpha)
    ++ pair "max_iterations" iterations
    ++ pair "tolerance" (writeFloat s.rank.tolerance)
    ++ pair "weight_key" (writeText s.rank.weightKey)
    ++ heading "semantic"
    ++ pair "norm" (writeText s.semantic.norm.word)
    ++ pair "z_score_power" (writeFloat s.semantic.zScorePower)
    ++ pair "embeddings_path" (writeText s.semantic.embeddingsPath)
    ++ pair "model" (writeText s.semantic.model)
    ++ heading "logging"
    ++ pair "default" (writeText s.logging.default)
    ++ heading "logging.modules"
    ++ String.join modules

end Settings

end CodeAtlas
