import ReactCatalog.Data.Dictionary
import ReactCatalog.Files.Path
import ReactCatalog.Json.Value
import ReactCatalog.Text.Blank

/-!
# Annotations

Data that someone has attached to components. A component is found by its module, which is the path of its file
below the input directory, with slashes between the parts. The last annotation of a module counts.
-/

namespace ReactCatalog

/-! ## Modules -/

/-- The module identifier that is meant by a text: backslashes count as slashes, and one leading `./` is dropped. -/
def moduleOfText (s : String) : String :=
  let cs := s.toList.map fun c => if c = '\\' then '/' else c
  String.ofList ((Text.dropLeading? ['.', '/'] cs).getD cs)

/-- The text of a part of a path, if it is a name that is text. -/
def partText? : Path.Part → Option String
  | .name n => Text.decode? n
  | _ => none

/-- The module identifier of a file below a directory. Only names that are text can lead to it. -/
def moduleOfPath? (root p : Path) : Option String := do
  let names ← (← Path.partsBelow? root p).mapM partText?
  if names.isEmpty then none else some ("/".intercalate names)

/-- Why a file has no module identifier. -/
def moduleOfPathError (p : Path) : String := "Cannot derive a module identifier for " ++ p.display

/-! ## Components -/

/-- A component to which data can be attached. -/
structure ComponentRef where
  module : String
  displayName : Option String := none
  name : Option String := none
  deriving DecidableEq, Repr, Inhabited

/-- The name of a component that has none. -/
def unnamedComponent : String := "UnnamedComponent"

/-- The display name, or else the name; empty names do not count. -/
def ComponentRef.derivedName (c : ComponentRef) : String :=
  ((c.displayName.filter fun n => !n.isEmpty) <|> (c.name.filter fun n => !n.isEmpty)).getD unnamedComponent

/-- The key under which an annotation holds the component's name. -/
def nameKey : String := "name"

/-- The data attached to a component, with the component's name in it. -/
def annotationOf (c : ComponentRef) (data : Dictionary Json) : Dictionary Json :=
  Dictionary.insert nameKey (.string c.derivedName) data

/-! ## Registries -/

/-- Annotations by module. -/
structure Registry where
  annotations : Dictionary (Dictionary Json) := []
  deriving Inhabited

namespace Registry

def empty : Registry := {}

/-- Attach data to a component, in place of what was attached to its module. -/
def attach (r : Registry) (data : Dictionary Json) (c : ComponentRef) : Registry :=
  ⟨Dictionary.insert c.module (annotationOf c data) r.annotations⟩

/-- Attach data to a component, and hand the component back. -/
def withDoc (data : Dictionary Json) (c : ComponentRef) : StateM Registry ComponentRef := do
  modify fun r => r.attach data c
  pure c

/-- A decorator, which attaches its data to every component that it is applied to. -/
def doc (data : Dictionary Json) : ComponentRef → StateM Registry ComponentRef := fun c => withDoc data c

/-- What is attached to a module. -/
def read (r : Registry) (module : String) : Option (Dictionary Json) := Dictionary.find? r.annotations module

/-- The number of modules with annotations. -/
def size (r : Registry) : Nat := r.annotations.length

def isEmpty (r : Registry) : Bool := r.size == 0

end Registry

end ReactCatalog
