import ReactCatalog.Data.Dictionary
import ReactCatalog.Number.Double

/-!
# JSON values

The members of an object stand in the order in which they are written. `sorted` puts them in the order of their
keys at every level. Numbers are whole numbers of 64 bits, signed or not, or doubles.
-/

namespace ReactCatalog

inductive Json where
  | null
  | bool (b : Bool)
  | int (n : Int)
  | float (x : Double)
  | string (s : String)
  | array (items : List Json)
  | object (members : List (String × Json))
  deriving Inhabited, Repr

namespace Json

mutual

/-- The same value with the members of every object sorted by key, the last of each key. -/
def sorted : Json → Json
  | .array items => .array (sortedItems items)
  | .object members => .object (Dictionary.ofList (sortedMembers members))
  | v => v

def sortedItems : List Json → List Json
  | [] => []
  | v :: rest => v.sorted :: sortedItems rest

def sortedMembers : List (String × Json) → List (String × Json)
  | [] => []
  | (k, v) :: rest => (k, v.sorted) :: sortedMembers rest

end

theorem sortedItems_eq (items : List Json) : sortedItems items = items.map sorted := by
  induction items with
  | nil => rfl
  | cons v rest ih => rw [sortedItems, ih, List.map_cons]

theorem sortedMembers_eq (members : List (String × Json)) :
    sortedMembers members = members.map fun m => (m.1, m.2.sorted) := by
  induction members with
  | nil => rfl
  | cons m rest ih => rw [sortedMembers, ih, List.map_cons]

/-- The members of an object; none for any other value. -/
def members : Json → List (String × Json)
  | .object ms => ms
  | _ => []

def member? (key : String) (v : Json) : Option Json := List.lookup key v.members

def asString? : Json → Option String
  | .string s => some s
  | _ => none

def asBool? : Json → Option Bool
  | .bool b => some b
  | _ => none

/-- Put a member into a sorted object. -/
def setMember (v : Json) (key : String) (value : Json) : Json := .object (Dictionary.insert key value v.members)

end Json

end ReactCatalog
