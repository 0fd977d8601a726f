namespace HexAtlas

/-- A table in the order of its first settings. Setting a key that is there replaces its value in place; setting a
new one appends it. -/
structure Table (α : Type) where
  entries : List (String × α)
deriving DecidableEq, Repr

namespace Table

variable {α : Type}

def empty : Table α := ⟨[]⟩

instance : Inhabited (Table α) := ⟨empty⟩
instance : EmptyCollection (Table α) := ⟨empty⟩

/-- Entries with the value of `key` replaced, or the pair appended. -/
def setIn (key : String) (value : α) : List (String × α) → List (String × α)
  | [] => [(key, value)]
  | (k, v) :: rest => if k = key then (k, value) :: rest else (k, v) :: setIn key value rest

def set (t : Table α) (key : String) (value : α) : Table α := ⟨setIn key value t.entries⟩

def get? (t : Table α) (key : String) : Option α := t.entries.lookup key

def contains (t : Table α) (key : String) : Bool := (t.get? key).isSome

def keys (t : Table α) : List String := t.entries.map Prod.fst

def size (t : Table α) : Nat := t.entries.length

def isEmpty (t : Table α) : Bool := t.entries.isEmpty

/-- Sets every pair in turn. -/
def setAll (t : Table α) (pairs : List (String × α)) : Table α :=
  pairs.foldl (fun t (key, value) => t.set key value) t

def extend (t other : Table α) : Table α := t.setAll other.entries

def ofList (pairs : List (String × α)) : Table α := empty.setAll pairs

end Table

abbrev Attributes := Table String

end HexAtlas
