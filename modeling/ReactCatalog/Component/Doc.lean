import ReactCatalog.Json.Value

/-!
# Component documentation

What is known of one component: its description, name, methods and properties. `toJson` lists the parts in the
order of their declaration and leaves out what is absent; `fields` is the same with sorted keys, ready to be
merged with other data.
-/

namespace ReactCatalog

/-- Members for the parts that are present. -/
def Json.presentMembers (parts : List (String × Option Json)) : List (String × Json) :=
  parts.filterMap fun p => p.2.map fun v => (p.1, v)

/-- A type, as far as it can be read off its text. -/
inductive TypeDoc where
  | mk (name : String) (value : Option Json) (raw : Option String) (elements : Option (List TypeDoc))
  deriving Inhabited

namespace TypeDoc

/-- A type known by its name alone. -/
def named (name : String) : TypeDoc := mk name none none none

def withValue (v : Json) : TypeDoc → TypeDoc
  | mk n _ r e => mk n (some v) r e

def withRaw (r : String) : TypeDoc → TypeDoc
  | mk n v _ e => mk n v (some r) e

def withElements (es : List TypeDoc) : TypeDoc → TypeDoc
  | mk n v r _ => mk n v r (some es)

mutual

def toJson : TypeDoc → Json
  | mk n v r none =>
    .object (Json.presentMembers [("name", some (.string n)), ("value", v), ("raw", r.map .string)])
  | mk n v r (some es) =>
    .object (Json.presentMembers
      [("name", some (.string n)), ("value", v), ("raw", r.map .string), ("elements", some (.array (toJsons es)))])

def toJsons : List TypeDoc → List Json
  | [] => []
  | t :: rest => t.toJson :: toJsons rest

end

/-- The type as a value inside another one. -/
def toValue (t : TypeDoc) : Json := t.toJson.sorted

end TypeDoc

/-- A default value, as written. -/
structure DefaultValue where
  value : String
  /-- The value is not a literal. -/
  computed : Bool
  deriving DecidableEq, Repr, Inhabited

def DefaultValue.toJson (d : DefaultValue) : Json :=
  .object [("value", .string d.value), ("computed", .bool d.computed)]

/-- One property of a component. -/
structure PropDoc where
  /-- Type named by a validator. -/
  type : Option TypeDoc := none
  /-- Type named by an annotation. -/
  tsType : Option TypeDoc := none
  required : Bool := false
  defaultValue : Option DefaultValue := none
  description : String := ""
  deriving Inhabited

namespace PropDoc

def empty : PropDoc := {}

def toJson (p : PropDoc) : Json :=
  .object (
    ((p.type.map fun t => ("type", t.toJson)).toList) ++
    ((p.tsType.map fun t => ("tsType", t.toJson)).toList) ++
    [("required", .bool p.required)] ++
    ((p.defaultValue.map fun d => ("defaultValue", d.toJson)).toList) ++
    [("description", .string p.description)])

end PropDoc

structure ParameterDoc where
  name : String
  optional : Bool := false
  deriving DecidableEq, Repr, Inhabited

def ParameterDoc.toJson (p : ParameterDoc) : Json :=
  .object (("name", .string p.name) :: if p.optional then [("optional", .bool true)] else [])

/-- A method that callers may use. -/
structure MethodDoc where
  name : String
  description : Option String := none
  modifiers : List String
  params : List ParameterDoc
  deriving DecidableEq, Repr, Inhabited

def MethodDoc.toJson (m : MethodDoc) : Json :=
  .object (
    [("name", .string m.name)] ++
    ((m.description.map fun d => ("description", .string d)).toList) ++
    [("modifiers", .array (m.modifiers.map .string)), ("params", .array (m.params.map ParameterDoc.toJson))])

/-- What is known of one component. -/
structure ComponentDoc where
  description : String := ""
  displayName : Option String := none
  methods : List MethodDoc := []
  properties : Dictionary PropDoc := []
  /-- Modules whose property types are spread into this component's. -/
  composes : List String := []
  deriving Inhabited

namespace ComponentDoc

/-- Change one property, adding it if it is new. -/
def modifyProp (name : String) (f : PropDoc → PropDoc) (d : ComponentDoc) : ComponentDoc :=
  { d with properties := Dictionary.modify name .empty f d.properties }

/-- Note a module that the component's property types come from. -/
def addSource (specifier : String) (d : ComponentDoc) : ComponentDoc :=
  if d.composes.contains specifier then d else { d with composes := d.composes ++ [specifier] }

def toJson (d : ComponentDoc) : Json :=
  .object (
    [("description", .string d.description)] ++
    ((d.displayName.map fun n => ("displayName", .string n)).toList) ++
    (if d.methods.isEmpty then [] else [("methods", .array (d.methods.map MethodDoc.toJson))]) ++
    [("properties", .object (d.properties.map fun p => (p.1, p.2.toJson)))] ++
    (if d.composes.isEmpty then [] else [("composes", .array (d.composes.map .string))]))

/-- The parts under sorted keys. -/
def fields (d : ComponentDoc) : Dictionary Json := d.toJson.sorted.members

end ComponentDoc

end ReactCatalog
