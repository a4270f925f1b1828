import ReactCatalog.Catalog.Event
import ReactCatalog.Files.Glob

/-!
# Candidates

The files of a directory that are to be documented: those with one of the given extensions whose relative name no
pattern excludes. Subdirectories are searched if asked for, but never hidden ones and those for packages.
-/

namespace ReactCatalog

/-- A file to be documented, with its name relative to the input directory. -/
structure Candidate where
  path : Path
  relative : String
  deriving DecidableEq, Repr, Inhabited

/-- Exclusion patterns that are well formed; none if no pattern is given at all. -/
def readPatterns (patterns : List String) : Option (List (List Glob.Token)) × List Event :=
  if patterns.isEmpty then (none, [])
  else
    (some (patterns.filterMap Glob.read?),
      (patterns.filter fun p => (Glob.read? p).isNone).map .patternInvalid)

/-- Some pattern covers the relative name. -/
def isExcluded (patterns : Option (List (List Glob.Token))) (relative : String) : Bool :=
  (patterns.getD []).any fun ts => Glob.covers ts (Text.utf8 relative)

/-- Which files are candidates. -/
structure CandidateFilter where
  extensions : List String
  exclude : Option (List (List Glob.Token)) := none
  recursive : Bool := false

/-- A directory that is never entered. -/
def isSkippedDirectory (name : Name) : Bool :=
  let text := Text.decodeLossy name
  Text.startsWith text "." || text == "node_modules"

/-- The path has one of the extensions. -/
def hasExtension (extensions : List String) (p : Path) : Bool :=
  match p.extensionText? with
  | some ext => extensions.contains ext
  | none => false

/-- The name of a file relative to a directory, with slashes between the parts. -/
def relativeName (root p : Path) : Option String :=
  (Path.partsBelow? root p).map fun parts => "/".intercalate (parts.map partName)
where
  partName : Path.Part → String
    | .root => "/"
    | .here => "."
    | .up => ".."
    | .name n => Text.decodeLossy n

mutual

/-- Everything below a directory that is to be looked at. -/
def entriesBelow (recursive : Bool) (above : Path) : List (Name × Entry) → List Path
  | [] => []
  | (n, e) :: rest => entriesOf recursive (above.join ⟨n⟩) n e ++ entriesBelow recursive above rest

def entriesOf (recursive : Bool) (p : Path) (n : Name) : Entry → List Path
  | .directory _ children =>
    if isSkippedDirectory n then []
    else if recursive then p :: entriesBelow recursive p children
    else [p]
  | _ => [p]

end

/-- What is found at a path that is to be searched. -/
def entriesUnder (t : FileTree) (recursive : Bool) (root : Path) : List Path × List Event :=
  match t.find root with
  | .ok (.directory _ children) => (entriesBelow recursive root children, [])
  | .ok _ => ([], [])
  | .error e => ([], [.entryUnreadable root e])

/-- The candidate that an entry is, if it is one. -/
def candidate? (t : FileTree) (filter : CandidateFilter) (root p : Path) : Option Candidate :=
  if t.isFile p && hasExtension filter.extensions p then
    match relativeName root p with
    | some relative => if isExcluded filter.exclude relative then none else some ⟨p, relative⟩
    | none => none
  else none

def sortCandidates (cs : List Candidate) : List Candidate :=
  cs.mergeSort fun a b => decide (a.relative ≤ b.relative)

/-- The candidates under a directory, sorted by their relative names. -/
def collectCandidates (t : FileTree) (filter : CandidateFilter) (root : Path) : List Candidate × List Event :=
  let (paths, events) := entriesUnder t filter.recursive root
  (sortCandidates (paths.filterMap (candidate? t filter root)), events)

end ReactCatalog
