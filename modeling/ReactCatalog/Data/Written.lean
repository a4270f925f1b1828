import ReactCatalog.Json.Value

/-!
# Values as written

What a document says before it is known what is asked of it: the members of objects stand in their order, keys
repeated or not, and a value that nobody asks for may stand for nothing at all.
-/

namespace ReactCatalog

inductive Written where
  | null
  | bool (b : Bool)
  | int (n : Int)
  | float (x : Double)
  /-- A number beyond every bound, or none. As a value it counts as null. -/
  | unbounded
  | string (s : String)
  | array (items : List Written)
  | object (members : List (String × Written))
  /-- Well formed, but no value. -/
  | broken
  deriving Inhabited

namespace Written

mutual

/-- The value that is meant, if containers nest at most `depth` deep. The last member of each key counts. -/
def value? (depth : Nat) : Written → Option Json
  | null => some .null
  | bool b => some (.bool b)
  | int n => some (.int n)
  | float x => some (.float x)
  | unbounded => some .null
  | string s => some (.string s)
  | array items => if depth = 0 then none else (values? (depth - 1) items).map .array
  | object members =>
    if depth = 0 then none else (memberValues? (depth - 1) members).map fun ms => .object (Dictionary.ofList ms)
  | broken => none

def values? (depth : Nat) : List Written → Option (List Json)
  | [] => some []
  | v :: rest => do pure ((← v.value? depth) :: (← values? depth rest))

def memberValues? (depth : Nat) : List (String × Written) → Option (List (String × Json))
  | [] => some []
  | (k, v) :: rest => do pure ((k, ← v.value? depth) :: (← memberValues? depth rest))

end

mutual

/-- A value, written down. -/
def ofJson : Json → Written
  | .null => null
  | .bool b => bool b
  | .int n => int n
  | .float x => float x
  | .string s => string s
  | .array items => array (ofJsons items)
  | .object members => object (ofMembers members)

def ofJsons : List Json → List Written
  | [] => []
  | v :: rest => ofJson v :: ofJsons rest

def ofMembers : List (String × Json) → List (String × Written)
  | [] => []
  | (k, v) :: rest => (k, ofJson v) :: ofMembers rest

end

end Written

end ReactCatalog
