import ReactCatalog.Files.Tree

/-!
# Writing a file in one step

A file is replaced by way of a draft: a file of its own, which is filled, given its mode and then put in the place
of the other. If a step fails, the draft is taken away again.
-/

namespace ReactCatalog

/-- What is done to write a file, in this order. -/
inductive WriteStep where
  | create
  | fill
  | setMode
  | flush
  | publish
  deriving DecidableEq, Repr, Inhabited

/-- The steps that fail for a reason that is not in the tree, such as a full disk. -/
abbrev Faults := WriteStep → Bool

/-- Nothing fails but for what the tree holds. -/
def Faults.none : Faults := fun _ => false

namespace Entry

mutual

/-- A length that no name below the entry exceeds, and no target of a link. -/
def longest : Entry → Nat
  | .file _ _ => 0
  | .directory _ children => longestBelow children
  | .link target => target.bytes.length

def longestBelow : List (Name × Entry) → Nat
  | [] => 0
  | (n, e) :: rest => max (max n.length e.longest) (longestBelow rest)

end

end Entry

/-- A file in the making, and the tree that it is in. -/
structure Draft where
  tree : FileTree
  place : Trail

namespace Draft

/-- The mode of a draft: only its owner may read it. -/
def initialMode : Nat := 0o600

/-- The directory in which a draft of a file is made. -/
def directoryOf (p : Path) : Path := (p.parent?.filter fun q => !q.bytes.isEmpty).getD (.ofString ".")

/-- A name for a draft. It stands for one chosen at random: nothing in the tree or in the path mentions it. -/
def freshName (t : FileTree) (p : Path) : Name :=
  Text.utf8 ".tmp" ++
    List.replicate (t.top.longest + p.bytes.length + t.workingDirectory.flatten.length) (0x61 : UInt8)

/-- Start a draft of a file; none if there is no directory for it. -/
def create? (t : FileTree) (p : Path) : Option Draft :=
  match t.locate (directoryOf p) with
  | .error _ => none
  | .ok here =>
    if t.isDirectoryAt here then
      let place := here ++ [freshName t p]
      some ⟨t.set place (.file [] initialMode), place⟩
    else none

def modify (d : Draft) (f : Entry → Entry) : Draft :=
  { d with tree := { d.tree with top := d.tree.top.alter (fun e => e.map f) d.place } }

def fill (d : Draft) (bytes : List UInt8) : Draft :=
  d.modify fun e => .file bytes e.mode

def setMode (d : Draft) (m : Nat) : Draft := d.modify (Entry.withMode m)

/-- The tree without the draft. -/
def discard (d : Draft) : FileTree := d.tree.unset d.place

/-- Put the draft in the place of a path, in place of what is there unless that is a directory. -/
def publish? (d : Draft) (p : Path) : Option FileTree := do
  let here ← d.tree.target? p
  let e ← d.tree.top.find? d.place
  if d.tree.isDirectoryAt here then none else pure (d.discard.set here e)

/-- The draft after a step; if the step fails, that step and what it leaves. -/
def after (d : Draft) (step : WriteStep) (faults : Faults) : Except (WriteStep × Draft) Draft :=
  if faults step then .error (step, d) else .ok d

end Draft

namespace FileTree

/-- The mode of a file that is written anew. -/
def newFileMode : Nat := 0o644

/-- The mode of what a path leads to, or else that of a new file. -/
def modeFor (t : FileTree) (p : Path) : Nat :=
  match t.find p with
  | .ok e => e.mode
  | .error _ => newFileMode

end FileTree

/-- Make a draft what a path is to be, and put it there. -/
def Draft.complete (d : Draft) (p : Path) (bytes : List UInt8) (faults : Faults) :
    Except (WriteStep × Draft) FileTree := do
  let d ← (d.fill bytes).after .fill faults
  let d ← (d.setMode (d.tree.modeFor p)).after .setMode faults
  let d ← d.after .flush faults
  let d ← d.after .publish faults
  match d.publish? p with
  | some t => .ok t
  | none => .error (.publish, d)

/-- Write a file in one step: the one at the path is replaced, and its mode stays. The step that failed, if one did,
and the tree afterwards. -/
def FileTree.write (t : FileTree) (p : Path) (bytes : List UInt8) (faults : Faults) : Option WriteStep × FileTree :=
  if faults .create then (some .create, t)
  else
    match Draft.create? t p with
    | none => (some .create, t)
    | some d =>
      match d.complete p bytes faults with
      | .ok t' => (none, t')
      | .error (step, d') => (some step, d'.discard)

end ReactCatalog
