import ReactCatalog.Files.Path

/-!
# File trees

A directory tree with files, directories and symbolic links, seen from a working directory in it.
-/

namespace ReactCatalog

abbrev Name := List UInt8

inductive Entry where
  | file (bytes : List UInt8) (mode : Nat)
  | directory (mode : Nat) (children : List (Name × Entry))
  | link (target : Path)
  deriving Inhabited

/-- Where something is: names from the top, none of them a link. -/
abbrev Trail := List Name

/-- The mode of a directory that is made anew. -/
def directoryMode : Nat := 0o755

structure FileTree where
  /-- The top directory, with everything below it. -/
  top : Entry := .directory directoryMode []
  /-- The working directory. -/
  workingDirectory : Trail := []
  deriving Inhabited

/-- Why something cannot be found or read. -/
inductive ReadError where
  | notFound
  | notDirectory
  | isDirectory
  | tooManyLinks
  | notText
  deriving DecidableEq, Repr, Inhabited

def ReadError.message : ReadError → String
  | notFound => "No such file or directory (os error 2)"
  | notDirectory => "Not a directory (os error 20)"
  | isDirectory => "Is a directory (os error 21)"
  | tooManyLinks => "Too many levels of symbolic links (os error 40)"
  | notText => "stream did not contain valid UTF-8"

namespace Entry

/-- What names lead to from an entry. -/
def find? : Entry → Trail → Option Entry
  | e, [] => some e
  | .directory _ children, n :: rest => (List.lookup n children).bind fun e => find? e rest
  | _, _ :: _ => none

/-- Put an entry under a name, in place of the one there. -/
def setChild (n : Name) (e : Entry) : List (Name × Entry) → List (Name × Entry)
  | [] => [(n, e)]
  | c :: rest => if c.1 = n then (n, e) :: rest else c :: setChild n e rest

/-- Put an entry under a name or, if there is none to put, take away what is there. -/
def putChild (n : Name) : Option Entry → List (Name × Entry) → List (Name × Entry)
  | some e, children => setChild n e children
  | none, children => children.filter fun c => c.1 != n

/-- Change what is at a location, if directories lead to it. -/
def alter (f : Option Entry → Option Entry) : Entry → Trail → Entry
  | .directory mode children, [n] => .directory mode (putChild n (f (List.lookup n children)) children)
  | .directory mode children, n :: rest =>
    match List.lookup n children with
    | some e => .directory mode (setChild n (alter f e rest) children)
    | none => .directory mode children
  | e, _ => e

/-- Make sure that directories lead to a location. -/
def makeDirectories : Entry → Trail → Entry
  | .directory mode children, n :: rest =>
    let below := (List.lookup n children).getD (.directory directoryMode [])
    .directory mode (setChild n (makeDirectories below rest) children)
  | e, _ => e

/-- The mode of an entry. -/
def mode : Entry → Nat
  | file _ m | directory m _ => m
  | link _ => 0o777

def withMode (m : Nat) : Entry → Entry
  | file bytes _ => file bytes m
  | directory _ children => directory m children
  | link target => link target

mutual

/-- Every path below a directory, directories with a slash at the end. -/
def listing (above : Path) : List (Name × Entry) → List Path
  | [] => []
  | (n, e) :: rest => listingOf (above.join ⟨n⟩) e ++ listing above rest

def listingOf (p : Path) : Entry → List Path
  | .directory _ children => ⟨p.bytes ++ [Path.slash]⟩ :: listing p children
  | _ => [p]

end

end Entry

namespace FileTree

/-- An empty working directory. -/
def empty : FileTree where
  top := .directory directoryMode [(Text.utf8 "work", .directory directoryMode [])]
  workingDirectory := [Text.utf8 "work"]

/-- How many links may be followed on the way to one entry. -/
def linkLimit : Nat := 40

def isDirectoryAt (t : FileTree) (here : Trail) : Bool :=
  match t.top.find? here with
  | some (.directory _ _) => true
  | _ => false

/-- What one piece of a path does to a walk. -/
inductive Move where
  /-- It leads to a location. -/
  | arrive (next : Trail)
  /-- It is a link, and leads along other pieces. -/
  | follow (next : Trail) (pieces : List Name)
  | lost (cause : ReadError)

def move (t : FileTree) (here : Trail) (n : Name) : Move :=
  if !t.isDirectoryAt here then .lost .notDirectory
  else if n = [] ∨ n = [Path.dot] then .arrive here
  else if n = [Path.dot, Path.dot] then .arrive here.dropLast
  else
    match t.top.find? (here ++ [n]) with
    | none => .lost .notFound
    | some (.link target) => .follow (if target.isAbsolute then [] else here) (Path.segments target.bytes)
    | some _ => .arrive (here ++ [n])

/-- Walk from a directory along pieces of a path, given what becomes of a walk at a link. -/
def walkWith (t : FileTree) (follow : Trail → List Name → Except ReadError Trail) :
    Trail → List Name → Except ReadError Trail
  | here, [] => .ok here
  | here, n :: rest =>
    match t.move here n with
    | .arrive next => walkWith t follow next rest
    | .follow next pieces => follow next (pieces ++ rest)
    | .lost cause => .error cause

/-- Walk from a directory along pieces of a path, following so many links. -/
def walk (t : FileTree) : Nat → Trail → List Name → Except ReadError Trail
  | 0 => t.walkWith fun _ _ => .error .tooManyLinks
  | links + 1 => t.walkWith (walk t links)

/-- Where a path starts. -/
def start (t : FileTree) (p : Path) : Trail := if p.isAbsolute then [] else t.workingDirectory

/-- The location that a path leads to. -/
def locate (t : FileTree) (p : Path) : Except ReadError Trail :=
  if p.bytes = [] then .error .notFound else walk t linkLimit (t.start p) (Path.segments p.bytes)

/-- What a path leads to. -/
def find (t : FileTree) (p : Path) : Except ReadError Entry := do
  let here ← t.locate p
  match t.top.find? here with
  | some e => pure e
  | none => throw .notFound

def isFile (t : FileTree) (p : Path) : Bool :=
  match t.find p with
  | .ok (.file _ _) => true
  | _ => false

def isDirectory (t : FileTree) (p : Path) : Bool :=
  match t.find p with
  | .ok (.directory _ _) => true
  | _ => false

/-- The path leads to a file or a directory. -/
def isPresent (t : FileTree) (p : Path) : Bool := (t.find p).isOk

/-- The bytes and the mode of the file that a path leads to. -/
def file? (t : FileTree) (p : Path) : Option (List UInt8 × Nat) :=
  match t.find p with
  | .ok (.file bytes mode) => some (bytes, mode)
  | _ => none

/-- The text of the file that a path leads to. -/
def readText (t : FileTree) (p : Path) : Except ReadError String := do
  match ← t.find p with
  | .file bytes _ =>
    match Text.decode? bytes with
    | some s => pure s
    | none => throw .notText
  | _ => throw .isDirectory

/-- Where the last piece of a path is to be; links are followed up to it only. -/
def target? (t : FileTree) (p : Path) : Option Trail := do
  let pieces := Path.segments p.bytes
  let last ← pieces.getLast?
  if last = [] ∨ last = [Path.dot] ∨ last = [Path.dot, Path.dot] then none
  else
    match walk t linkLimit (t.start p) pieces.dropLast with
    | .ok here => if t.isDirectoryAt here then some (here ++ [last]) else none
    | .error _ => none

/-- Put an entry at a location, in place of what is there. -/
def set (t : FileTree) (here : Trail) (e : Entry) : FileTree := { t with top := t.top.alter (fun _ => some e) here }

/-- Take away what is at a location. -/
def unset (t : FileTree) (here : Trail) : FileTree := { t with top := t.top.alter (fun _ => none) here }

/-- The names of a path, from the top on. -/
private def trail (t : FileTree) (p : Path) : Trail :=
  t.start p ++ p.parts.filterMap fun
    | .name n => some n
    | _ => none

/-- Put an entry at a path, with the directories that lead to it. -/
def put (t : FileTree) (p : Path) (e : Entry) : FileTree :=
  let here := t.trail p
  { t with top := t.top.makeDirectories here.dropLast }.set here e

/-- Make sure that a directory is there. -/
def makeDirectory (t : FileTree) (p : Path) : FileTree := { t with top := t.top.makeDirectories (t.trail p) }

/-- Give what is at a path a mode. -/
def setMode (t : FileTree) (p : Path) (m : Nat) : FileTree :=
  { t with top := t.top.alter (fun e => e.map (Entry.withMode m)) (t.trail p) }

/-- Take away what is at a path; none if nothing is. -/
def remove? (t : FileTree) (p : Path) : Option FileTree := do
  let here ← t.target? p
  let _ ← t.top.find? here
  pure (t.unset here)

/-- Every path below the working directory, directories with a slash at the end. -/
def paths (t : FileTree) : List Path :=
  match t.top.find? t.workingDirectory with
  | some (.directory _ children) => Entry.listing ⟨[]⟩ children
  | _ => []

end FileTree

end ReactCatalog
