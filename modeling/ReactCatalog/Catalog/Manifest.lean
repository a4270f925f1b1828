import ReactCatalog.Catalog.Annotation
import ReactCatalog.Catalog.Event
import ReactCatalog.Data.Decode
import ReactCatalog.Json.Reader
import ReactCatalog.Toml.Reader

/-!
# Manifests

A manifest is a file that lists components with the data attached to them, in TOML or in JSON.
-/

namespace ReactCatalog

/-- One component of a manifest. -/
structure ManifestEntry where
  component : ComponentRef
  data : Dictionary Json

/-- Why a manifest cannot be used. -/
inductive ManifestError where
  | unreadable (cause : ReadError)
  | malformed
  | emptyModule
  deriving DecidableEq, Repr

def ManifestError.cause : ManifestError → String
  | unreadable e => e.message
  | malformed => "not a manifest"
  | emptyModule => "component entry has an empty module"

/-- What is said of a manifest that cannot be used. -/
def manifestFailure (p : Path) : String := "Failed to load annotation manifest " ++ p.display

def ManifestError.message (p : Path) (e : ManifestError) : String := manifestFailure p ++ ": " ++ e.cause

namespace Manifest

open Decoder

def entry (surplus : Surplus) : Decoder ManifestEntry
  | 0, _ => none
  | n + 1, v => do
    match ← slots? surplus ["module", "display_name", "name", "meta"] v with
    | [module, displayName, name, data] =>
      pure {
        component := {
          module := ← module.required (string n)
          displayName := ← displayName.withDefault none (optional string n)
          name := ← name.withDefault none (optional string n) }
        data := ← data.withDefault [] (dictionary value n) }
    | _ => none

def entries (surplus : Surplus) : Decoder (List ManifestEntry)
  | 0, _ => none
  | n + 1, v => do
    match ← slots? surplus ["component"] v with
    | [component] => component.withDefault [] (list (entry surplus) n)
    | _ => none

/-- The manifest is in TOML. -/
def isToml (p : Path) : Bool :=
  match p.extensionText? with
  | some ext => ext.map Char.toLower == "toml"
  | none => false

/-- How deep a manifest in TOML may go. -/
def documentDepth : Nat := 1000

/-- The components that the text of a manifest lists. -/
def ofText? (p : Path) (text : String) : Option (List ManifestEntry) :=
  if isToml p then (Toml.read? text).bind (entries .ignored documentDepth)
  else (Json.readWritten? text).bind (entries .refused Json.depthLimit)

/-- Register components one after the other, unless one of them has a blank module. -/
def registerAll : List ManifestEntry → Registry → List Event → Except ManifestError Registry × List Event
  | [], r, events => (.ok r, events)
  | e :: rest, r, events =>
    if (Text.trim e.component.module).isEmpty then (.error .emptyModule, events)
    else
      let c := { e.component with module := moduleOfText e.component.module }
      registerAll rest (r.attach e.data c) (events ++ [.annotationRegistered c.module c.derivedName])

/-- The registry that a manifest describes. -/
def load (t : FileTree) (p : Path) : Except ManifestError Registry × List Event :=
  match t.readText p with
  | .error e => (.error (.unreadable e), [])
  | .ok text =>
    match ofText? p text with
    | none => (.error .malformed, [])
    | some entries => registerAll entries .empty []

end Manifest

end ReactCatalog
