import ReactCatalog.Data.Written

/-!
# Decoding

Making typed data of written values. A decoder is told how deep containers may still nest. A record is written
as an object, in which fields may stand in any order and others are passed over, or as a list of its fields in
order.
-/

namespace ReactCatalog

abbrev Decoder (α : Type) := Nat → Written → Option α

namespace Decoder

variable {α : Type}

def string : Decoder String
  | _, .string s => some s
  | _, _ => none

def bool : Decoder Bool
  | _, .bool b => some b
  | _, _ => none

def value : Decoder Json := Written.value?

/-- Null for none. -/
def optional (f : Decoder α) : Decoder (Option α)
  | _, .null => some none
  | n, v => (f n v).map some

def list (f : Decoder α) : Decoder (List α)
  | n + 1, .array items => items.mapM (f n)
  | _, _ => none

/-- An object with values of one kind. The last member of each key counts. -/
def dictionary (f : Decoder α) : Decoder (Dictionary α)
  | n + 1, .object members =>
    (members.mapM fun m => (f n m.2).map fun v => (m.1, v)).map Dictionary.ofList
  | _, _ => none

/-- A field of a record. -/
inductive Slot where
  | present (v : Written)
  /-- An object does not have it. -/
  | absent
  /-- A list ends before it. -/
  | cut
  deriving Inhabited

/-- What to make of lists with more items than the record has fields. -/
inductive Surplus where
  | refused
  | ignored
  deriving DecidableEq, Repr

def slotOf? (members : List (String × Written)) (name : String) : Option Slot :=
  match members.filter fun m => m.1 == name with
  | [] => some .absent
  | [m] => some (.present m.2)
  | _ => none

def slotsOfItems (surplus : Surplus) : List String → List Written → Option (List Slot)
  | [], [] => some []
  | [], _ :: _ => if surplus = .refused then none else some []
  | _ :: names, [] => (slotsOfItems surplus names []).map (.cut :: ·)
  | _ :: names, v :: rest => (slotsOfItems surplus names rest).map (.present v :: ·)

/-- The fields of a record, by their names in order. A field that an object has twice makes it no record. -/
def slots? (surplus : Surplus) (names : List String) : Written → Option (List Slot)
  | .object members => names.mapM (slotOf? members)
  | .array items => slotsOfItems surplus names items
  | _ => none

namespace Slot

def required (f : Written → Option α) : Slot → Option α
  | present v => f v
  | _ => none

/-- A field that an object may lack. -/
def optional (f : Written → Option (Option α)) : Slot → Option (Option α)
  | present v => f v
  | absent => some none
  | cut => none

/-- A field with a value of its own if it is missing. -/
def withDefault (d : α) (f : Written → Option α) : Slot → Option α
  | present v => f v
  | _ => some d

end Slot

/-- A record with fields of these names, made of what stands in them. -/
def record (names : List String) (make : Nat → List Slot → Option α) : Decoder α
  | 0, _ => none
  | n + 1, v => (slots? .refused names v).bind (make n)

end Decoder

end ReactCatalog
