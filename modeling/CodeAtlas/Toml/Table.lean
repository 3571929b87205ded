/-! Values of configuration text, and tables in the making. A table is defined once: by a header, by
dotted keys, or, until one of the two defines it, by the headers of tables inside it. -/

namespace CodeAtlas.Toml

inductive Value where
  | text (value : String)
  /-- One character in single quotes, as variables of the environment may have it. -/
  | character (value : Char)
  | bool (value : Bool)
  | integer (value : Int)
  | float (value : Float)
  | list (items : List Value)
  | table (fields : List (String × Value))

def dateKey : String := "$__toml_private_datetime"

def Value.date (text : String) : Value := .table [(dateKey, .text text)]

inductive TableOrigin where
  | header
  /-- Mentioned on the way to another table. -/
  | implied
  | dotted
  deriving DecidableEq

inductive Entry where
  | value (v : Value)
  | table (origin : TableOrigin) (items : List (String × Entry))
  /-- An array of tables, the latest first. -/
  | tables (elements : List (List (String × Entry)))

abbrev Items := List (String × Entry)

namespace Items

def set (key : String) (e : Entry) : Items → Items
  | [] => [(key, e)]
  | (k, old) :: rest => if k = key then (key, e) :: rest else (k, old) :: set key e rest

/-- Changes the table at a path of headers; of an array of tables the latest element is meant. -/
def within (f : Items → Option Items) : List String → Items → Option Items
  | [], items => f items
  | key :: path, items => do
    match items.lookup key with
    | none => return items.set key (.table .implied (← within f path []))
    | some (.table origin inner) => return items.set key (.table origin (← within f path inner))
    | some (.tables (latest :: before)) =>
      return items.set key (.tables ((← within f path latest) :: before))
    | some _ => none

def openTable (key : String) (items : Items) : Option Items :=
  match items.lookup key with
  | none => some (items.set key (.table .header []))
  | some (.table .implied inner) => some (items.set key (.table .header inner))
  | some _ => none

def openElement (key : String) (items : Items) : Option Items :=
  match items.lookup key with
  | none => some (items.set key (.tables [[]]))
  | some (.tables elements) => some (items.set key (.tables ([] :: elements)))
  | some _ => none

/-- Gives a dotted key a value. The table that takes the value is one of dotted keys; the tables on
the way to it have no header of their own. -/
def assign (last : String) (v : Value) : List String → Items → Option Items
  | [], items => if (items.lookup last).isSome then none else some (items.set last (.value v))
  | key :: path, items => do
    match items.lookup key with
    | none => return items.set key (.table .dotted (← assign last v path []))
    | some (.table origin inner) =>
      if origin = .header || (path.isEmpty && origin ≠ .dotted) then none
      else return items.set key (.table origin (← assign last v path inner))
    | some (.tables (latest :: before)) =>
      if path.isEmpty then none
      else return items.set key (.tables ((← assign last v path latest) :: before))
    | some _ => none

end Items

mutual

def Entry.toValue : Entry → Value
  | .value v => v
  | .table _ items => .table (fieldsOf items)
  | .tables elements => .list (elementsOf elements).reverse

def fieldsOf : List (String × Entry) → List (String × Value)
  | [] => []
  | (key, e) :: rest => (key, e.toValue) :: fieldsOf rest

def elementsOf : List (List (String × Entry)) → List Value
  | [] => []
  | items :: rest => .table (fieldsOf items) :: elementsOf rest

end

end CodeAtlas.Toml
