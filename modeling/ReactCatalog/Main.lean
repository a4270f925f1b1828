import ReactCatalog.Command.Run

/-!
# The executable

Reads the files that a command line asks for into a tree, executes the command on it, and writes the catalog.
-/

namespace ReactCatalog.Main

/-- The bytes of a file with its mode, or the entries of a directory. Links count as what they lead to, but links to
directories are not entered. -/
partial def readEntry (name : String) : IO Entry := do
  let here := (← IO.currentDir) / name
  if ← here.isDir then
    let entries ← here.readDir
    let children ← entries.toList.mapM fun e => do
      let child := name ++ "/" ++ e.fileName
      let isLink := (← e.path.symlinkMetadata).type == .symlink
      let isDir ← e.path.isDir
      let bytes := Text.utf8 e.fileName
      if isDir && (isLink || isSkippedDirectory bytes) then return (bytes, Entry.directory directoryMode [])
      else return (bytes, ← readEntry child)
    return .directory directoryMode children
  else
    return .file (← IO.FS.readBinFile name).toList FileTree.newFileMode

/-- Add what a path leads to, if anything, to a tree. -/
def addPath (t : FileTree) (p : Path) : IO FileTree := do
  let name := p.display
  let here := (← IO.currentDir) / name
  if ← here.pathExists then
    let real ← IO.FS.realPath name
    return t.put (.ofString real.toString) (← readEntry name)
  else return t

/-- The tree that a command line works on. -/
def treeFor (a : Arguments) : IO FileTree := do
  let here : Path := .ofString (← IO.currentDir).toString
  let names := here.parts.filterMap fun
    | .name n => some n
    | _ => none
  let start : FileTree := { workingDirectory := names }
  let t := start.makeDirectory here
  let t ← addPath t a.inputDir
  let t ← a.config.elim (pure t) (addPath t)
  let config := match (configFor t a).1 with
    | .ok c => c.annotations
    | .error _ => none
  let t ← (a.annotations <|> config).elim (pure t) (addPath t)
  let folder := (a.output.parent?.filter fun p => !p.bytes.isEmpty).getD (.ofString ".")
  let isThere ← ((← IO.currentDir) / folder.display).isDir
  let t := if isThere && !t.isPresent folder then t.makeDirectory folder else t
  if t.isPresent a.output then pure t else addPath t a.output

/-- Put the catalog where it belongs in one step. -/
def writeOutput (output : Path) (bytes : List UInt8) : IO Unit := do
  let name := output.display
  let draft := name ++ ".tmp"
  IO.FS.writeBinFile draft ⟨bytes.toArray⟩
  IO.FS.rename draft name

def usage : String := "Usage: generate-docs [OPTIONS] <INPUT_DIR> <OUTPUT>"

/-- Tell what happened, and give the exit code. -/
def finish (a : Arguments) (x : Execution) : IO UInt32 := do
  match x with
  | .usage _ => IO.eprintln usage
  | .ran warning events r =>
    warning.forM fun w => IO.eprintln w
    events.forM fun e => IO.eprintln e.render
    match r.result with
    | .ok _ =>
      match r.tree.file? a.output with
      | some (bytes, _) => writeOutput a.output bytes
      | none => pure ()
      IO.print r.output
    | .error e => IO.eprintln ("Error: " ++ e.message)
  return UInt32.ofNat x.exitCode

end ReactCatalog.Main

open ReactCatalog Main in
/-- Extract the documentation of components into a catalog. -/
def main (words : List String) : IO UInt32 := do
  match Arguments.parse words with
  | .error .displayVersion =>
    IO.println "generate-docs 0.1.0"
    return 0
  | .error e =>
    if e = .displayHelp then IO.println usage else IO.eprintln ("error: invalid command line\n\n" ++ usage)
    return UInt32.ofNat e.exitCode
  | .ok a =>
    let t ← treeFor a
    let level ← IO.getEnv levelVariable
    let filter ← IO.getEnv filterVariable
    finish a (execute t words fun name =>
      if name = levelVariable then level else if name = filterVariable then filter else none)
