import ReactCatalog.Catalog.Candidates
import ReactCatalog.Catalog.Outcome
import ReactCatalog.Files.Draft
import ReactCatalog.Json.Printer

/-!
# Generating a catalog

Every candidate of a directory is documented, and the records are written to one file. A file that cannot be
documented does not stop the others.
-/

namespace ReactCatalog

structure Options where
  inputDir : Path
  output : Path
  extensions : List String := ["jsx"]
  exclude : List String := []
  recursive : Bool := false
  /-- Leave out files of which nothing is known. -/
  dropFailed : Bool := false
  /-- Write an empty catalog rather than none. -/
  allowEmpty : Bool := false
  deriving DecidableEq, Repr, Inhabited

/-- Which files the options ask for. -/
def Options.filter (o : Options) : CandidateFilter := ⟨o.extensions, (readPatterns o.exclude).1, o.recursive⟩

/-- Why no catalog is written. -/
inductive GenerateError where
  | directoryNotFound (path : Path)
  | noCandidates (path : Path) (extensions : List String)
  | unwritable (path : Path)
  deriving DecidableEq, Repr

def GenerateError.message : GenerateError → String
  | directoryNotFound p => "Input directory not found: " ++ p.display
  | noCandidates p exts =>
    let list := ", ".intercalate exts
    s!"No candidate files with extension(s) {list} in {p.display}"
  | unwritable p => "Failed to write " ++ p.display

/-- What there is to say of a module: the annotation attached to it, or why it has no identifier. -/
def annotationFor (registry : Registry) (root p : Path) : Except String (Option (Dictionary Json)) :=
  match moduleOfPath? root p with
  | some module => .ok (registry.read module)
  | none => .error (moduleOfPathError p)

/-- What comes of one candidate. -/
def processFile (t : FileTree) (registry : Registry) (root : Path) (c : Candidate) : FileOutcome :=
  ⟨c.relative, extract t.readText c.path, annotationFor registry root c.path⟩

def outcomeEvents (o : FileOutcome) : List Event :=
  [.processing o.file] ++
    (match o.extracted with
      | .error e => [.extractionFailed o.file e]
      | .ok _ => []) ++
    (match o.annotated with
      | .error e => [.annotationFailed o.file e]
      | .ok _ => [])

/-- What has been made of the outcomes so far: a report that counts them, the records of the catalog, and what there is
to tell of those that have none. -/
structure Tally where
  report : Report
  records : List Record := []
  events : List Event := []

namespace Tally

def keep (x : Tally) (o : FileOutcome) : Tally := { x with records := x.records ++ [o.record] }

/-- Take one outcome into account. -/
def add (dropFailed : Bool) (x : Tally) (o : FileOutcome) : Tally :=
  let r := x.report
  match o.status with
  | .complete => { x with report := { r with complete := r.complete + 1 } }.keep o
  | .incomplete => { x with report := { r with incomplete := r.incomplete + 1 } }.keep o
  | .failed =>
    let r := { r with failed := r.failed + 1 }
    if dropFailed then
      { x with report := { r with dropped := r.dropped + 1 }, events := x.events ++ [.dropping o.file] }
    else { x with report := r }.keep o

/-- The report, with the number of records. -/
def finish (x : Tally) : Report := { x.report with written := x.records.length }

end Tally

/-- Go through all outcomes. -/
def tally (o : Options) (os : List FileOutcome) : Tally :=
  os.foldl (Tally.add o.dropFailed) { report := { output := o.output } }

/-- The text of a catalog. -/
def catalogText (rs : List Record) : String := (Json.array (rs.map Record.toJson)).pretty

/-- What a run did: its result, the tree after it, and what it had to tell. -/
structure Generated where
  result : Except GenerateError Report
  tree : FileTree
  events : List Event

/-- The outcomes of all candidates, in their order. -/
def outcomes (t : FileTree) (registry : Registry) (o : Options) (cs : List Candidate) : List FileOutcome :=
  cs.map (processFile t registry o.inputDir)

/-- The files that the options ask for, in the order of their relative names. -/
def candidatesFor (t : FileTree) (o : Options) : List Candidate := (collectCandidates t o.filter o.inputDir).1

/-- Document the candidates of a directory and write the catalog. -/
def generate (t : FileTree) (registry : Registry) (o : Options) (faults : Faults := .none) : Generated :=
  if !t.isDirectory o.inputDir then ⟨.error (.directoryNotFound o.inputDir), t, []⟩
  else
    let unsupported := (o.extensions.filter fun e => (Language.ofExtension? e).isNone).map .extensionUnsupported
    let (cs, walkEvents) := collectCandidates t o.filter o.inputDir
    let events := unsupported ++ (readPatterns o.exclude).2 ++ walkEvents
    if cs.isEmpty && !o.allowEmpty then ⟨.error (.noCandidates o.inputDir o.extensions), t, events⟩
    else
      let os := outcomes t registry o cs
      let x := tally o os
      let events := events ++ [.documenting cs.length o.inputDir] ++ os.flatMap outcomeEvents ++ x.events
      match t.write o.output (Text.utf8 (catalogText x.records)) faults with
      | (some _, t') => ⟨.error (.unwritable o.output), t', events⟩
      | (none, t') => ⟨.ok x.finish, t', events ++ [.wrote x.finish]⟩

end ReactCatalog
