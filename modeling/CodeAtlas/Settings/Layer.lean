import CodeAtlas.Toml.Table

/-! Layers of settings, of which later ones win. -/

namespace CodeAtlas.Toml.Value

def put (key : String) (v : Value) : List (String × Value) → List (String × Value)
  | [] => [(key, v)]
  | (k, old) :: rest => if k = key then (key, v) :: rest else (k, old) :: put key v rest

mutual

/-- A value over another: tables are merged key by key, anything else is replaced. -/
def overlay (below : Value) : Value → Value
  | .table fields => match below with
    | .table base => .table (overlayFields base fields)
    | _ => .table (overlayFields [] fields)
  | v => v

def overlayFields (base : List (String × Value)) : List (String × Value) → List (String × Value)
  | [] => base
  | (key, v) :: rest =>
    let merged := match base.lookup key with
      | some below => overlay below v
      | none => v
    overlayFields (put key merged base) rest

end

def nest : List String → Value → Value
  | [], v => v
  | key :: path, v => .table [(key, nest path v)]

end CodeAtlas.Toml.Value
