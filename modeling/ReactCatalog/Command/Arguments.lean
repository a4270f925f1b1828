import ReactCatalog.Catalog.Config
import ReactCatalog.Catalog.Generate

/-!
# Command line

Options may stand before, between and after the two positional arguments. A value follows its option as the next
word, or in the same word. Only options for lists may be repeated. After `--` every word is positional.
-/

namespace ReactCatalog

/-- What a word of the command line can set. -/
inductive Argument where
  | inputDir
  | output
  | ext
  | exclude
  | recursive
  | annotations
  | dropFailed
  | allowEmpty
  | config
  | verbose
  | quiet
  | logLevel
  | help
  | version
  deriving DecidableEq, Repr, Inhabited

namespace Argument

def takesValue : Argument → Bool
  | ext | exclude | annotations | config | logLevel => true
  | _ => false

/-- The value names a file, so it cannot be empty. -/
def isPath : Argument → Bool
  | inputDir | output | annotations | config => true
  | _ => false

def isRepeatable : Argument → Bool
  | ext | exclude => true
  | _ => false

def ofLong? : String → Option Argument
  | "ext" => some ext
  | "exclude" => some exclude
  | "recursive" => some recursive
  | "annotations" => some annotations
  | "drop-failed" => some dropFailed
  | "allow-empty" => some allowEmpty
  | "config" => some config
  | "verbose" => some verbose
  | "quiet" => some quiet
  | "log-level" => some logLevel
  | "help" => some help
  | "version" => some version
  | _ => none

def ofShort? : Char → Option Argument
  | 'e' => some ext
  | 'r' => some recursive
  | 'c' => some config
  | 'v' => some verbose
  | 'q' => some quiet
  | 'h' => some help
  | 'V' => some version
  | _ => none

/-- The positional argument after `n` others. -/
def positional? : Nat → Option Argument
  | 0 => some inputDir
  | 1 => some output
  | _ => none

end Argument

/-- Why a command line leads to no run. -/
inductive UsageError where
  | missingRequired
  | unknownArgument
  | conflict
  | invalidValue
  | tooManyValues
  | displayHelp
  | displayVersion
  deriving DecidableEq, Repr, Inhabited

namespace UsageError

def exitCode : UsageError → Nat
  | displayHelp | displayVersion => 0
  | _ => 2

/-- The usage of the command is shown. -/
def showsUsage : UsageError → Bool
  | invalidValue | displayVersion => false
  | _ => true

end UsageError

/-- What has been read of a command line. -/
structure Matches where
  /-- Arguments with their values, in the order in which they were settled. -/
  settled : List (Argument × String) := []
  /-- An argument with the values seen so far. -/
  pending : Option (Argument × List String) := none
  /-- How many positional arguments have been seen. -/
  positionals : Nat := 0
  deriving Repr

namespace Matches

def has (m : Matches) (a : Argument) : Bool := m.settled.any fun s => s.1 == a

def values (m : Matches) (a : Argument) : List String := (m.settled.filter fun s => s.1 == a).map Prod.snd

/-- Settle an argument with its values. -/
def accept (m : Matches) (a : Argument) (vs : List String) : Except UsageError Matches :=
  if m.has a && !a.isRepeatable then .error .conflict
  else if a.isPath && vs.any String.isEmpty then .error .invalidValue
  else .ok { m with settled := m.settled ++ vs.map fun v => (a, v) }

/-- Settle the pending argument. It must have got a value. -/
def settle (m : Matches) : Except UsageError Matches :=
  match m.pending with
  | none => .ok m
  | some (_, []) => .error .invalidValue
  | some (a, vs) => { m with pending := none }.accept a vs

/-- An argument with the value given in the same word, or a flag. -/
def give (m : Matches) (a : Argument) (v : String) : Except UsageError Matches := do
  let m ← m.settle
  match a with
  | .help => throw .displayHelp
  | .version => throw .displayVersion
  | _ => m.accept a [v]

/-- An argument whose value is the next word. -/
def await (m : Matches) (a : Argument) : Except UsageError Matches := do
  let m ← m.settle
  pure { m with pending := some (a, []) }

/-- Take a word as a value: of the argument that waits for one, or else the next positional. -/
def takeWord (m : Matches) (onlyPositional : Bool) (w : String) : Except UsageError Matches :=
  match m.pending, onlyPositional with
  | some (a, []), false => .ok { m with pending := some (a, [w]) }
  | _, _ =>
    match Argument.positional? m.positionals with
    | none => .error .unknownArgument
    | some a => do
      let m ← m.settle
      pure { m with pending := some (a, [w]), positionals := m.positionals + 1 }

/-- A word that starts with two dashes. -/
def takeLong (m : Matches) (w : List Char) : Except UsageError Matches :=
  let name := String.ofList (w.takeWhile (· != '='))
  let value? := match w.dropWhile (· != '=') with
    | _ :: v => some (String.ofList v)
    | [] => none
  match Argument.ofLong? name with
  | none => .error .unknownArgument
  | some a =>
    match a.takesValue, value? with
    | true, some v => m.give a v
    | true, none => m.await a
    | false, some _ => .error .tooManyValues
    | false, none => m.give a "true"

/-- Letters after one dash: flags, and at last an option with the rest as its value. -/
def takeShort (m : Matches) : List Char → Except UsageError Matches
  | [] => .ok m
  | c :: rest =>
    match Argument.ofShort? c with
    | none => .error .unknownArgument
    | some a =>
      if a.takesValue then
        match rest with
        | [] => m.await a
        | '=' :: v => m.give a (String.ofList v)
        | v => m.give a (String.ofList v)
      else do takeShort (← m.give a "true") rest

/-- Read words up to the end. -/
def takeWords : Bool → Matches → List String → Except UsageError Matches
  | _, m, [] => .ok m
  | onlyPositional, m, w :: rest => do
    if onlyPositional then takeWords true (← m.takeWord true w) rest
    else
      match w.toList with
      | ['-', '-'] => takeWords true m rest
      | '-' :: '-' :: name => takeWords false (← m.takeLong name) rest
      | ['-'] => takeWords false (← m.takeWord false w) rest
      | '-' :: letters => takeWords false (← m.takeShort letters) rest
      | _ => takeWords false (← m.takeWord false w) rest

end Matches

/-- A command line that leads to a run. -/
structure Arguments where
  inputDir : Path
  output : Path
  extensions : List String := []
  exclude : List String := []
  recursive : Bool := false
  annotations : Option Path := none
  dropFailed : Bool := false
  allowEmpty : Bool := false
  config : Option Path := none
  verbose : Bool := false
  quiet : Bool := false
  logLevel : Option String := none
  deriving DecidableEq, Repr, Inhabited

namespace Arguments

private def path? (m : Matches) (a : Argument) : Option Path := (m.values a).head?.map Path.ofString

/-- The arguments that words stand for. -/
def parse (words : List String) : Except UsageError Arguments := do
  let m ← Matches.takeWords false {} words
  let m ← m.settle
  if m.has .verbose && m.has .quiet then throw .conflict
  match path? m .inputDir, path? m .output with
  | some inputDir, some output =>
    pure {
      inputDir, output
      extensions := m.values .ext
      exclude := m.values .exclude
      recursive := m.has .recursive
      annotations := path? m .annotations
      dropFailed := m.has .dropFailed
      allowEmpty := m.has .allowEmpty
      config := path? m .config
      verbose := m.has .verbose
      quiet := m.has .quiet
      logLevel := (m.values .logLevel).head? }
  | _, _ => throw .missingRequired

/-- The level of logging that is asked for, with `fallback` taken from the surroundings. -/
def level (a : Arguments) (fallback : Option String) : String :=
  match a.logLevel with
  | some l => l
  | none => if a.verbose then "debug" else if a.quiet then "error" else fallback.getD "info"

/-- The configuration, overridden by the command line. -/
def options (a : Arguments) (c : Config) : Options :=
  { inputDir := a.inputDir
    output := a.output
    extensions := if a.extensions.isEmpty then c.extensions else normalizeExtensions a.extensions
    exclude := c.exclude ++ a.exclude
    recursive := c.recursive || a.recursive
    dropFailed := c.dropFailed || a.dropFailed
    allowEmpty := c.allowEmpty || a.allowEmpty }

end Arguments

end ReactCatalog
