import ReactCatalog.Catalog.Event
import ReactCatalog.Data.Decode
import ReactCatalog.Toml.Reader

/-!
# Configuration

Settings that are kept in a file. What the file does not say has a default, and a file that cannot be understood
counts as absent.
-/

namespace ReactCatalog

structure Config where
  extensions : List String := ["jsx"]
  exclude : List String := []
  recursive : Bool := false
  dropFailed : Bool := false
  allowEmpty : Bool := false
  /-- A manifest of annotations. -/
  annotations : Option Path := none
  deriving DecidableEq, Repr, Inhabited

/-- The name of the file in an input directory. -/
def configFileName : String := "compdoc.toml"

/-- An extension without blanks around it and dots before it. -/
def normalizeExtension (s : String) : String :=
  String.ofList ((Text.trimList s.toList).dropWhile (· == '.'))

/-- Extensions without dots, empty ones and repetitions left out. -/
def normalizeExtensions (exts : List String) : List String :=
  (exts.map normalizeExtension).foldl
    (fun acc e => if e.isEmpty || acc.contains e then acc else acc ++ [e]) []

namespace Config

open Decoder in
def decode : Decoder Config
  | 0, _ => none
  | n + 1, v => do
    match ← slots? .ignored
      ["extensions", "exclude", "recursive", "drop_failed", "allow_empty", "annotations"] v with
    | [extensions, exclude, recursive, dropFailed, allowEmpty, annotations] =>
      let standard : Config := {}
      pure {
        extensions := ← extensions.withDefault standard.extensions (list string n)
        exclude := ← exclude.withDefault [] (list string n)
        recursive := ← recursive.withDefault false (bool n)
        dropFailed := ← dropFailed.withDefault false (bool n)
        allowEmpty := ← allowEmpty.withDefault false (bool n)
        annotations := ← annotations.withDefault none fun v => (string n v).map fun s => some (Path.ofString s) }
    | _ => none

/-- How deep the decoders of a document may go. -/
def documentDepth : Nat := 1000

/-- The configuration that a text describes. -/
def ofText? (text : String) : Option Config := (Toml.read? text).bind (decode documentDepth)

/-- Extensions without dots, and the manifest seen from the directory of the configuration. -/
def settle (file : Path) (c : Config) : Config :=
  { c with
    extensions := normalizeExtensions c.extensions
    annotations := c.annotations.map fun a =>
      match file.parent? with
      | some base => base.join a
      | none => a }

/-- The configuration in a file. -/
def loadFile (t : FileTree) (file : Path) : Config × List Event :=
  if !t.isPresent file then ({}, [])
  else
    match t.readText file with
    | .error e => ({}, [.configUnreadable file e])
    | .ok text =>
      match ofText? text with
      | some c => (c.settle file, [])
      | none => ({}, [.configInvalid file])

/-- The configuration of a directory. -/
def load (t : FileTree) (directory : Path) : Config × List Event :=
  loadFile t (directory.join (.ofString configFileName))

end Config

end ReactCatalog
