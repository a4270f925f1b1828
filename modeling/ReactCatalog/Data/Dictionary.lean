/-!
# Dictionaries

A dictionary is a list of keys with values, sorted by key, each key once. `insert` keeps it so.
-/

namespace ReactCatalog

abbrev Dictionary (α : Type) := List (String × α)

namespace Dictionary

variable {α : Type}

/-- Put a value under a key, in place of the one there. -/
def insert (key : String) (value : α) : Dictionary α → Dictionary α
  | [] => [(key, value)]
  | (k, v) :: rest =>
    if key < k then (key, value) :: (k, v) :: rest
    else if key = k then (key, value) :: rest
    else (k, v) :: insert key value rest

/-- The value under a key. -/
def find? (d : Dictionary α) (key : String) : Option α := List.lookup key d

def contains (d : Dictionary α) (key : String) : Bool := (find? d key).isSome

/-- The dictionary without the value under a key. -/
def erase (key : String) (d : Dictionary α) : Dictionary α := d.filter fun m => m.1 != key

/-- Change the value under a key, starting from `initial` if there is none. -/
def modify (key : String) (initial : α) (f : α → α) (d : Dictionary α) : Dictionary α :=
  insert key (f ((find? d key).getD initial)) d

/-- All of `entries`, and what `base` holds under keys that they lack. -/
def overlay (base : Dictionary α) (entries : List (String × α)) : Dictionary α :=
  entries.foldl (fun d m => insert m.1 m.2 d) base

/-- Entries put in one after the other; the last one under a key stays. -/
def ofList (entries : List (String × α)) : Dictionary α := overlay [] entries

def keys (d : Dictionary α) : List String := d.map Prod.fst

end Dictionary

end ReactCatalog
