import ReactCatalog.Data.Written

/-!
# Tables

Tables grow key by key. A table that was only named on the way to another may still be defined by a header of its
own; one that was opened by a dotted key may only be added to by dotted keys.
-/

namespace ReactCatalog.Toml

mutual

inductive Table where
  /-- `implicit`: not yet defined by itself. `dotted`: opened by a dotted key. -/
  | mk (implicit dotted : Bool) (entries : List (String × Item))

/-- What a key of a table stands for. -/
inductive Item where
  | leaf (v : Written)
  | table (t : Table)
  /-- Tables of one name; the last one is open. -/
  | tables (ts : List Table)

end

namespace Table

def empty : Table := mk false false []

def isImplicit : Table → Bool
  | mk i _ _ => i

def isDotted : Table → Bool
  | mk _ d _ => d

def entries : Table → List (String × Item)
  | mk _ _ es => es

def find? (t : Table) (key : String) : Option Item := List.lookup key t.entries

/-- Put an item under a key, in place of the one there. -/
def set (t : Table) (key : String) (item : Item) : Table :=
  match t with
  | mk i d es =>
    if es.any fun e => e.1 == key then mk i d (es.map fun e => if e.1 == key then (key, item) else e)
    else mk i d (es ++ [(key, item)])

/-- Change the table that a path leads to, opening tables on the way. Values cannot be entered, nor can dotted keys
enter tables that are defined by a header. -/
def descend (dotted : Bool) (f : Table → Option Table) : List String → Table → Option Table
  | [], t => f t
  | k :: ks, t =>
    match t.find? k with
    | none => (descend dotted f ks (mk true dotted [])).map fun c => t.set k (.table c)
    | some (.leaf _) => none
    | some (.table c) =>
      if dotted && !c.isImplicit then none else (descend dotted f ks c).map fun c => t.set k (.table c)
    | some (.tables cs) =>
      match cs.getLast? with
      | none => none
      | some c => (descend dotted f ks c).map fun c => t.set k (.tables (cs.dropLast ++ [c]))

/-- Give a key a value. The last part of the key must be new. -/
def define (key : List String) (v : Written) (t : Table) : Option Table :=
  let path := key.dropLast
  let name := key.getLastD ""
  descend true (fun c =>
    if c.isDotted == path.isEmpty then none
    else if (c.find? name).isSome then none
    else some (c.set name (.leaf v))) path t

/-- Open the table of a header. -/
def openTable (key : List String) (t : Table) : Option Table :=
  let name := key.getLastD ""
  descend false (fun c =>
    match c.find? name with
    | none => some (c.set name (.table empty))
    | some (.table (mk true false es)) => some (c.set name (.table (mk false false es)))
    | some _ => none) key.dropLast t

/-- Open one more of the tables of a header in double brackets. -/
def openElement (key : List String) (t : Table) : Option Table :=
  let name := key.getLastD ""
  descend false (fun c =>
    match c.find? name with
    | none => some (c.set name (.tables [empty]))
    | some (.tables ts) => some (c.set name (.tables (ts ++ [empty])))
    | some _ => none) key.dropLast t

mutual

/-- The table as a written value. -/
def written : Table → Written
  | mk _ _ es => .object (writtenEntries es)

def writtenEntries : List (String × Item) → List (String × Written)
  | [] => []
  | (k, item) :: rest => (k, writtenItem item) :: writtenEntries rest

def writtenItem : Item → Written
  | .leaf v => v
  | .table t => t.written
  | .tables ts => .array (writtenTables ts)

def writtenTables : List Table → List Written
  | [] => []
  | t :: rest => t.written :: writtenTables rest

end

end Table

end ReactCatalog.Toml
