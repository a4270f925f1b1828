import ReactCatalog.Catalog.Manifest
import ReactCatalog.Command.Arguments

/-!
# Running the command

From the words of a command line to the catalog: the configuration is loaded, then the annotations, then the
catalog is generated.
-/

namespace ReactCatalog

/-- Why a run fails. -/
inductive RunError where
  | configMissing (path : Path)
  | manifest (path : Path) (cause : ManifestError)
  | generate (directory : Path) (cause : GenerateError)
  deriving DecidableEq, Repr

def RunError.message : RunError → String
  | configMissing p => "Config file not found: " ++ p.display
  | manifest p e => e.message p
  | generate dir e => s!"Failed to generate documentation from {dir.display}: " ++ e.message

/-- What a run did. -/
structure RunResult where
  result : Except RunError Report
  tree : FileTree
  events : List Event

namespace RunResult

/-- What is written to the standard output. -/
def output (r : RunResult) : String :=
  match r.result with
  | .ok report => s!"Documentation generated at {report.output.display}\n"
  | .error _ => ""

end RunResult

/-- The configuration that a run uses. -/
def configFor (t : FileTree) (a : Arguments) : Except RunError Config × List Event :=
  match a.config with
  | some p =>
    if t.isFile p then
      let (c, events) := Config.loadFile t p
      (.ok c, events)
    else (.error (.configMissing p), [])
  | none =>
    let (c, events) := Config.load t a.inputDir
    (.ok c, events)

/-- The annotations that a run uses. Those of the command line come before those of the configuration. -/
def registryFor (t : FileTree) (a : Arguments) (c : Config) : Except RunError Registry × List Event :=
  match a.annotations <|> c.annotations with
  | none => (.ok .empty, [])
  | some p =>
    match Manifest.load t p with
    | (.ok r, events) => (.ok r, events)
    | (.error e, events) => (.error (.manifest p e), events)

/-- Generate the catalog that a command line asks for. -/
def run (t : FileTree) (a : Arguments) (faults : Faults := .none) : RunResult :=
  match configFor t a with
  | (.error e, events) => ⟨.error e, t, events⟩
  | (.ok c, events) =>
    match registryFor t a c with
    | (.error e, more) => ⟨.error e, t, events ++ more⟩
    | (.ok registry, more) =>
      let events := events ++ more ++ [.annotationsLoaded registry.size]
      let g := generate t registry (a.options c) faults
      let result := match g.result with
        | .ok report => .ok report
        | .error e => .error (.generate a.inputDir e)
      ⟨result, g.tree, events ++ g.events⟩

/-! ## The executable -/

/-- Names of environment variables. -/
def levelVariable : String := "COMPDOC_LOG_LEVEL"

def filterVariable : String := "RUST_LOG"

/-- The level that a word names. A word that names none means `info`, with a warning. -/
def levelOf (word : String) : Level × Option String :=
  match Level.ofName? word with
  | some l => (l, none)
  | none => (.info, some s!"Warning: Invalid log level '{word}', using 'info'")

/-- What is told, and a warning about it. A filter from the surroundings comes before the level. -/
def filterFor (a : Arguments) (environment : String → Option String) : LogFilter × Option String :=
  let (level, warning) := levelOf (a.level (environment levelVariable))
  match environment filterVariable with
  | some text => (.ofText text, warning)
  | none => (⟨[("", Level.error.rank), ("compdoc", level.rank)]⟩, warning)

/-- What the executable does: usage errors, or a run with what is told of it. -/
inductive Execution where
  | usage (e : UsageError)
  | ran (warning : Option String) (events : List Event) (result : RunResult)

/-- Execute the command. -/
def execute (t : FileTree) (words : List String) (environment : String → Option String)
    (faults : Faults := .none) : Execution :=
  match Arguments.parse words with
  | .error e => .usage e
  | .ok a =>
    let (filter, warning) := filterFor a environment
    let r := run t a faults
    .ran warning (r.events.filter filter.tells) r

/-- The exit code of the executable. -/
def Execution.exitCode : Execution → Nat
  | usage e => e.exitCode
  | ran _ _ r =>
    match r.result with
    | .ok _ => 0
    | .error _ => 1

end ReactCatalog
