import ReactCatalog.Text.Utf8

/-!
# Paths

A path is a sequence of bytes cut at slashes. Empty parts do not count, nor does `.`, except at the beginning of a
relative path.
-/

namespace ReactCatalog

structure Path where
  bytes : List UInt8
  deriving DecidableEq, Repr, Inhabited

namespace Path

/-- One part of a path. -/
inductive Part where
  /-- The slash at the beginning. -/
  | root
  /-- A leading `.`. -/
  | here
  | up
  | name (bytes : List UInt8)
  deriving DecidableEq, Repr, Inhabited

def slash : UInt8 := 0x2f

def dot : UInt8 := 0x2e

def ofString (s : String) : Path := ⟨Text.utf8 s⟩

/-- The path as it is shown. -/
def display (p : Path) : String := Text.decodeLossy p.bytes

def isAbsolute (p : Path) : Bool := p.bytes.head? == some slash

/-- Pieces between slashes. -/
def segments : List UInt8 → List (List UInt8)
  | [] => [[]]
  | b :: rest =>
    if b = slash then [] :: segments rest
    else
      match segments rest with
      | [] => [[b]]
      | s :: more => (b :: s) :: more

/-- The part that a piece between slashes is, if it counts. -/
def partOf? (s : List UInt8) : Option Part :=
  if s = [] ∨ s = [dot] then none
  else if s = [dot, dot] then some .up
  else some (.name s)

/-- What the path is made of. -/
def parts (p : Path) : List Part :=
  let pieces := segments p.bytes
  let body := pieces.filterMap partOf?
  if p.isAbsolute then .root :: body
  else if pieces.head? = some [dot] then .here :: body
  else body

/-- The last part, if it is a name. -/
def fileName? (p : Path) : Option (List UInt8) :=
  match p.parts.getLast? with
  | some (.name n) => some n
  | _ => none

/-- What follows the last dot of a name, unless that is the first character. -/
def extensionOf? (name : List UInt8) : Option (List UInt8) :=
  let after := (name.reverse.takeWhile (· ≠ dot)).reverse
  let before := (name.reverse.dropWhile (· ≠ dot)).drop 1
  if before.isEmpty then none else some after

def extension? (p : Path) : Option (List UInt8) := p.fileName?.bind extensionOf?

/-- The other path, seen from this one. -/
def join (p q : Path) : Path :=
  if q.isAbsolute then q
  else if p.bytes.isEmpty ∨ p.bytes.getLast? = some slash then ⟨p.bytes ++ q.bytes⟩
  else ⟨p.bytes ++ slash :: q.bytes⟩

/-- The parts of a path that follow those of another. -/
def partsBelow? (root p : Path) : Option (List Part) :=
  if root.parts.isPrefixOf p.parts then some (p.parts.drop root.parts.length) else none

/-- Drop a last piece, with the slashes and dots before it. -/
def withoutLast (bytes : List UInt8) : List UInt8 :=
  let rec trim (fuel : Nat) (r : List UInt8) : List UInt8 :=
    match fuel with
    | 0 => r
    | fuel + 1 =>
      match r with
      | b :: rest =>
        if b = slash ∧ rest ≠ [] then trim fuel rest
        else if b = dot ∧ rest.head? = some slash then trim fuel rest
        else r
      | [] => []
  let r := trim bytes.length bytes.reverse
  (trim bytes.length (r.dropWhile (· ≠ slash))).reverse

/-- The path without its last part; none if there is no part to take. -/
def parent? (p : Path) : Option Path :=
  match p.parts.getLast? with
  | none | some .root => none
  | some _ => some ⟨withoutLast p.bytes⟩

end Path

end ReactCatalog
