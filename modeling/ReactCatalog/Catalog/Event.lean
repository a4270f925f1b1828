import ReactCatalog.Component.Extract
import ReactCatalog.Text.Visible

/-!
# Events

What a run has to tell while it goes on, each at a level, and the filters that choose what is told.
-/

namespace ReactCatalog

inductive Level where
  | error
  | warn
  | info
  | debug
  | trace
  deriving DecidableEq, Repr, Inhabited

namespace Level

/-- Higher ranks tell more. -/
def rank : Level → Nat
  | error => 1
  | warn => 2
  | info => 3
  | debug => 4
  | trace => 5

def name : Level → String
  | error => "ERROR"
  | warn => "WARN"
  | info => "INFO"
  | debug => "DEBUG"
  | trace => "TRACE"

def ofName? (s : String) : Option Level :=
  [error, warn, info, debug, trace].find? fun l => l.name == s.map Char.toUpper

end Level

/-- What happened to how many files. -/
structure Report where
  output : Path
  written : Nat := 0
  complete : Nat := 0
  incomplete : Nat := 0
  failed : Nat := 0
  /-- Failed files left out of the output. -/
  dropped : Nat := 0
  deriving DecidableEq, Repr, Inhabited

inductive Event where
  | configInvalid (path : Path)
  | configUnreadable (path : Path) (cause : ReadError)
  | patternInvalid (pattern : String)
  | entryUnreadable (path : Path) (cause : ReadError)
  | extensionUnsupported (extension : String)
  | annotationRegistered (module name : String)
  | annotationsLoaded (count : Nat)
  | documenting (count : Nat) (directory : Path)
  | processing (file : String)
  | extractionFailed (file : String) (cause : ExtractError)
  | annotationFailed (file : String) (cause : String)
  | dropping (file : String)
  | wrote (report : Report)

namespace Event

def level : Event → Level
  | configInvalid _ | configUnreadable _ _ | patternInvalid _ | entryUnreadable _ _ => .warn
  | extensionUnsupported _ | extractionFailed _ _ | annotationFailed _ _ => .warn
  | documenting _ _ | wrote _ => .info
  | annotationRegistered _ _ | annotationsLoaded _ | processing _ | dropping _ => .debug

/-- The part of the program that tells it. -/
def origin : Event → String
  | configInvalid _ | configUnreadable _ _ => "compdoc::config"
  | patternInvalid _ | entryUnreadable _ _ => "compdoc::candidates"
  | annotationRegistered _ _ => "compdoc::annotation"
  | _ => "compdoc::commands::generate"

def message : Event → String
  | configInvalid _ => "Failed to parse config: not a configuration"
  | configUnreadable _ e => "Failed to read config: " ++ e.message
  | patternInvalid p => s!"Invalid exclude pattern '{p}': not a pattern"
  | entryUnreadable p e => s!"Skipping unreadable entry: IO error for operation on {p.display}: {e.message}"
  | extensionUnsupported ext =>
    let supported := ", ".intercalate Language.allExtensions
    s!"Extension '{ext}' has no analyzer (supported: {supported})"
  | annotationRegistered _ _ => "registered annotation"
  | annotationsLoaded n => s!"Loaded {n} annotation records"
  | documenting n dir => s!"Documenting {n} files from {dir.display}"
  | processing _ => "processing"
  | extractionFailed _ e => "Static extraction failed: " ++ e.message
  | annotationFailed _ cause => "Metadata read failed: " ++ cause
  | dropping _ => "dropping undocumented file"
  | wrote r =>
    s!"Wrote {r.written} records (complete: {r.complete}, partial: {r.incomplete}, failed: {r.failed}, " ++
      s!"dropped: {r.dropped})"

/-- What else belongs to the event, by name. -/
def details : Event → List (String × String)
  | configInvalid p | configUnreadable p _ => [("path", p.display)]
  | annotationRegistered module name => [("module", module), ("name", s!"Some({Text.quoteVisible name})")]
  | processing f | extractionFailed f _ | annotationFailed f _ | dropping f => [("file", f)]
  | _ => []

/-- The event as a line. -/
def line (level : Level) (message : String) (details : List (String × String)) : String :=
  level.name ++ " " ++ message ++ String.join (details.map fun d => " " ++ d.1 ++ "=" ++ d.2)

def render (e : Event) : String := line e.level e.message e.details

end Event

/-! ## Filters -/

/-- What is told: for events of an origin with a given beginning, those up to a rank. The longest beginning
counts, and of equal ones the last. -/
structure LogFilter where
  rules : List (String × Nat)
  deriving Repr, Inhabited

namespace LogFilter

/-- Everything up to a level. -/
def upTo (l : Level) : LogFilter := ⟨[("", l.rank)]⟩

private def better (a b : String × Nat) : Bool := b.1.length ≤ a.1.length

/-- The rank up to which events of an origin are told. -/
def rankFor (f : LogFilter) (origin : String) : Nat :=
  let fitting := f.rules.filter fun r => Text.startsWith origin r.1
  ((fitting.foldl (fun best r => match best with
    | none => some r
    | some b => if better r b then some r else some b) none).map Prod.snd).getD 0

def tells (f : LogFilter) (e : Event) : Bool := e.level.rank ≤ f.rankFor e.origin

/-- The rank that a word or a digit stands for. -/
private def rank? (s : String) : Option Nat :=
  match s with
  | "0" => some 0
  | "1" => some 1
  | "2" => some 2
  | "3" => some 3
  | "4" => some 4
  | "5" => some 5
  | _ => if s.map Char.toUpper = "OFF" then some 0 else (Level.ofName? s).map Level.rank

private def isOriginChar (c : Char) : Bool := Text.isWord c || c == ':' || c == '-'

/-- One rule: a rank for everything, or an origin with a rank, which is the highest if it is left out. -/
private def rule? (s : String) : Option (String × Nat) :=
  match rank? s with
  | some n => some ("", n)
  | none =>
    let origin := String.ofList (s.toList.takeWhile isOriginChar)
    match s.toList.dropWhile isOriginChar with
    | [] => if origin.isEmpty then none else some (origin, Level.trace.rank)
    | '=' :: r =>
      if origin.isEmpty then none
      else if r.isEmpty then some (origin, Level.trace.rank)
      else (rank? (String.ofList r)).map fun n => (origin, n)
    | _ => none

/-- Rules with commas between them. What is no rule is passed over; without any, only errors are told. -/
def ofText (s : String) : LogFilter :=
  match (Text.splitOnChar ',' s).filterMap rule? with
  | [] => upTo .error
  | rules => ⟨rules⟩

end LogFilter

end ReactCatalog
