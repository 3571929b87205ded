/-! Lists of pairs as maps that keep keys in the order of their first insertion. -/

namespace CodeAtlas.Ordered

variable {κ ν : Type} [BEq κ]

/-- Gives `key` a value: in its place if it is there, at the end if not. -/
def insert (key : κ) (value : ν) : List (κ × ν) → List (κ × ν)
  | [] => [(key, value)]
  | (k, v) :: rest => if k == key then (k, value) :: rest else (k, v) :: insert key value rest

def ofPairs (pairs : List (κ × ν)) : List (κ × ν) :=
  pairs.foldl (fun m (k, v) => insert k v m) []

def push (key : κ) (value : ν) : List (κ × List ν) → List (κ × List ν)
  | [] => [(key, [value])]
  | (k, vs) :: rest =>
    if k == key then (k, vs ++ [value]) :: rest else (k, vs) :: push key value rest

def group (pairs : List (κ × ν)) : List (κ × List ν) :=
  pairs.foldl (fun m (k, v) => push k v m) []

/-- Drops every element equal to the one before it. -/
def squeeze {α : Type} [BEq α] : List α → List α
  | [] => []
  | a :: rest => a :: squeezeAfter a rest
where
  squeezeAfter (last : α) : List α → List α
    | [] => []
    | a :: rest => if last == a then squeezeAfter last rest else a :: squeezeAfter a rest

theorem squeezeAfter_sublist {α : Type} [BEq α] (last : α) (as : List α) :
    (squeeze.squeezeAfter last as).Sublist as := by
  induction as generalizing last with
  | nil => exact .slnil
  | cons a rest ih =>
    rw [squeeze.squeezeAfter]
    split
    · exact (ih last).cons a
    · exact (ih a).cons_cons a

theorem squeeze_sublist {α : Type} [BEq α] (as : List α) : (squeeze as).Sublist as := by
  cases as with
  | nil => exact .slnil
  | cons a rest => exact (squeezeAfter_sublist a rest).cons_cons a

theorem lookup_filter [LawfulBEq κ] (p : κ → Bool) (entries : List (κ × ν)) (key : κ) :
    (entries.filter fun e => p e.1).lookup key = if p key then entries.lookup key else none := by
  induction entries with
  | nil => split <;> rfl
  | cons e rest ih =>
    rw [List.filter_cons, List.lookup_cons]
    cases he : key == e.1 with
    | true =>
      have hp : p e.1 = p key := by rw [LawfulBEq.eq_of_beq he]
      rw [hp]
      split
      · rw [List.lookup_cons, he]
      · rename_i hnot
        rw [ih, if_neg hnot]
    | false =>
      rw [← ih]
      split
      · rw [List.lookup_cons, he]
      · rfl

end CodeAtlas.Ordered
