import CodeAtlas.Settings.Basic
import CodeAtlas.Toml.Table

/-! Settings from untyped values. Fields of a table are read in the order of their names, the items
of an array, which may stand for a table, in the order of the fields; the first problem wins. -/

namespace CodeAtlas

open Toml (Value)

inductive Section where
  | byName (fields : List (String × Value))
  | byPosition (items : List Value)

namespace Section

abbrev Reading (β : Type) := Except SettingError β

def fail {β : Type} (fault : SettingFault) : Reading β := .error ⟨fault, []⟩

def below {β : Type} (key : String) (r : Reading β) : Reading β :=
  r.mapError fun e => { e with key := key :: e.key }

/-- Reads a field, given its position and name; a missing one has its standard value. -/
def field {β : Type} (s : Section) (position : Nat) (name : String) (standard : β)
    (read : Value → Reading β) : Reading β :=
  match s with
  | .byName fields => match fields.lookup name with
    | some v => below name (read v)
    | none => .ok standard
  | .byPosition items => match items[position]? with
    | some v => below (toString position) (read v)
    | none => .ok standard

def ofValue : Value → Reading Section
  | .table fields => .ok (.byName fields)
  | .list items => .ok (.byPosition items)
  | _ => fail .invalidType

def text : Value → Reading String
  | .text s => .ok s
  | .character c => .ok (String.singleton c)
  | _ => fail .invalidType

def bool : Value → Reading Bool
  | .bool b => .ok b
  | _ => fail .invalidType

def float : Value → Reading Float
  | .float x => .ok x
  | .integer n => .ok (Float.ofInt n)
  | _ => fail .invalidType

def natural (bound : Nat) : Value → Reading Nat
  | .integer n => if 0 ≤ n ∧ n < bound then .ok n.toNat else fail .invalidValue
  | _ => fail .invalidType

/-- A norm by its word. A table would have to name it by its first key, with nothing below it. -/
def norm : Value → Reading Norm
  | .text s => match Norm.ofWord? s with
    | some n => .ok n
    | none => fail .unknownVariant
  | .table fields =>
    match ((fields.map (·.1)).mergeSort fun a b => a ≤ b).head? with
    | some key =>
      below key (fail (if (Norm.ofWord? key).isSome then .invalidType else .unknownVariant))
    | none => fail .invalidType
  | _ => fail .invalidType

def texts : Value → Reading (List (String × String))
  | .table fields =>
    (fields.mergeSort fun a b => a.1 ≤ b.1).mapM fun (key, v) => do
      return (key, ← below key (text v))
  | _ => fail .invalidType

def indexSettings (v : Value) : Reading IndexSettings := do
  let s ← ofValue v
  let standard : IndexSettings := {}
  let path := s.field 0 "index_path" standard.indexPath text
  let root := s.field 1 "project_root" standard.projectRoot fun v => some <$> text v
  let calls := s.field 2 "build_caller_relations" standard.buildCallerRelations bool
  if let .byName _ := s then discard calls
  return ⟨← path, ← root, ← calls⟩

def rankSettings (v : Value) : Reading RankSettings := do
  let s ← ofValue v
  let standard : RankSettings := {}
  return {
    alpha := ← s.field 0 "alpha" standard.alpha float
    maxIterations := ← s.field 1 "max_iterations" standard.maxIterations (natural UInt64.size)
    tolerance := ← s.field 2 "tolerance" standard.tolerance float
    weightKey := ← s.field 3 "weight_key" standard.weightKey text }

def semanticSettings (v : Value) : Reading SemanticSettings := do
  let s ← ofValue v
  let standard : SemanticSettings := {}
  let scale := s.field 0 "norm" standard.norm norm
  let power := s.field 1 "z_score_power" standard.zScorePower float
  let path := s.field 2 "embeddings_path" standard.embeddingsPath text
  let model := s.field 3 "model" standard.model text
  if let .byName _ := s then
    discard path
    discard model
  return ⟨← scale, ← power, ← path, ← model⟩

def loggingSettings (v : Value) : Reading LoggingSettings := do
  let s ← ofValue v
  let standard : LoggingSettings := {}
  return {
    default := ← s.field 0 "default" standard.default text
    modules := ← s.field 1 "modules" standard.modules texts }

def settings (v : Value) : Reading Settings := do
  let s ← ofValue v
  let standard : Settings := {}
  let index ← s.field 1 "index" standard.index indexSettings
  let logging ← s.field 4 "logging" standard.logging loggingSettings
  let rank ← s.field 2 "rank" standard.rank rankSettings
  let semantic ← s.field 3 "semantic" standard.semantic semanticSettings
  let version ← s.field 0 "version" standard.version (natural UInt32.size)
  return ⟨version, index, rank, semantic, logging⟩

end Section

def Settings.ofValue (v : Value) : Except SettingError Settings := Section.settings v

end CodeAtlas
