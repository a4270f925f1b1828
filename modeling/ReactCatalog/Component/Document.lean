import ReactCatalog.Component.Definition
import ReactCatalog.Component.Method
import ReactCatalog.Component.PropType
import ReactCatalog.Component.TypeNote

/-!
# Documenting a component

The documentation of a component is put together from its definition and from what the module assigns to its
names. Properties come from four places, in this order: validators, annotated types, defaults in the first
parameter, default properties. A later default replaces an earlier one, and annotated types decide whether a
property is required only where no validator does.
-/

namespace ReactCatalog

/-- What a component's static members say. -/
structure Statics where
  propTypes : List Place := []
  defaultProps : List Place := []
  displayName : Option String := none

namespace Statics

/-- Take note of one static member. -/
def record (s : Statics) (name : String) (value : Place) : Statics :=
  match name with
  | "propTypes" => { s with propTypes := s.propTypes ++ [value] }
  | "defaultProps" => { s with defaultProps := s.defaultProps ++ [value] }
  | "displayName" => { s with displayName := value.bare.stringValue? <|> s.displayName }
  | _ => s

def addDefaults (s : Statics) (object : Option Place) : Statics :=
  { s with defaultProps := s.defaultProps ++ object.toList }

/-- Members of a class declared `static`: fields, and getters that return an object. -/
def ofClassMember (s : Statics) (p : Place) : Statics :=
  if p.hasSymbol "static" then
    match p.classMemberName? with
    | none => s
    | some name =>
      let value? := match p.kind with
        | .fieldDefinition | .publicFieldDefinition => p.field? .value
        | .methodDefinition => if p.hasSymbol "get" then p.returnedObject? else none
        | _ => none
      (value?.map (s.record name)).getD s
  else s

def ofClass (p : Place) : Statics :=
  match p.field? .body with
  | some body => body.namedChildren.foldl ofClassMember {}
  | none => {}

/-- Members of the object given to a class factory. Defaults are what `getDefaultProps` returns. -/
def ofObjectMember (s : Statics) (p : Place) : Statics :=
  match ((p.field? .key) <|> (p.field? .name)).bind Place.propertyKey? with
  | none => s
  | some name =>
    match p.kind with
    | .methodDefinition => if name = "getDefaultProps" then s.addDefaults p.returnedObject? else s
    | .pair =>
      match p.field? .value with
      | none => s
      | some v => if name = "getDefaultProps" then s.addDefaults v.bare.returnedObject? else s.record name v
    | _ => s

def ofObject (p : Place) : Statics := p.namedChildren.foldl ofObjectMember {}

/-- A top-level assignment to a member of one of the component's names. -/
def ofStatement (names : List String) (s : Statics) (p : Place) : Statics :=
  match p.assignment? with
  | none => s
  | some (left, right) =>
    if left.kind = .memberExpression then
      match left.field? .object, left.fieldText? .property with
      | some object, some name =>
        if object.kind = .identifier ∧ object.text ∈ names then s.record name right else s
      | _, _ => s
    else s

/-- Add what the module assigns to the names of the component. -/
def addAssigned (s : Statics) (program : Place) (names : List String) : Statics :=
  program.namedChildren.foldl (ofStatement names) s

end Statics

/-! ## Validators -/

/-- How deep spread objects of validators are followed. -/
def spreadLimit : Nat := 4

/-- Add the properties of an object of validators. Spread names of the module are followed; of spread imports the
module is noted. -/
def applyValidators (scope : Scope) : Nat → Place → ComponentDoc → ComponentDoc
  | spreads, object, doc => object.namedChildren.foldl (member spreads) doc
where
  member : Nat → ComponentDoc → Place → ComponentDoc
    | spreads, doc, p =>
      match p.kind with
      | .pair =>
        match (p.field? .key).bind Place.propertyKey?, p.field? .value with
        | some name, some value =>
          let (type, required) := propType value
          doc.modifyProp name fun prop =>
            { prop with
              type := some type
              required := required
              description := p.docblock?.getD prop.description }
        | _, _ => doc
      | .shorthandPropertyIdentifier => doc.modifyProp p.text fun prop => { prop with type := some (customType p) }
      | .spreadElement =>
        match spreads, p.namedChildren.head?.map Place.bare with
        | spreads + 1, some v =>
          match v.kind with
          | .memberExpression =>
            match v.field? .object with
            | some object => if object.kind = .identifier then addImported doc object.text else doc
            | none => doc
          | .identifier =>
            match scope.object? v with
            | some object => object.namedChildren.foldl (member spreads) doc
            | none => addImported doc v.text
          | _ => doc
        | _, _ => doc
      | _ => doc
  addImported (doc : ComponentDoc) (name : String) : ComponentDoc :=
    ((scope.importOf? name).map doc.addSource).getD doc

/-! ## Annotated types -/

/-- The first parameter of a function. -/
def firstParameter? (function : Place) : Option Place :=
  (function.field? .parameter) <|>
    (function.field? .parameters).bind fun ps => ps.namedChildren.find? fun p => p.kind != .comment

/-- Types of components whose first type argument is the type of the properties. -/
def componentTypes : List String :=
  ["FC", "FunctionComponent", "VFC", "VoidFunctionComponent", "ComponentType"]

def isTypedParameter (p : Place) : Bool := p.kind == .requiredParameter || p.kind == .optionalParameter

def firstTypeArgument? (p : Place) : Option Place :=
  (p.field? .typeArguments).bind fun a => a.namedChildren.head?

def declaredPropsType? (declarator : Place) : Option Place := do
  let type ← (← declarator.field? .type).namedChildren.head?
  if type.kind ≠ .genericType then none
  else
    let name ← type.fieldText? .name
    let last := (Text.splitOnChar '.' name).getLast?.getD name
    if componentTypes.contains last then firstTypeArgument? type else none

/-- Where the type of a component's properties is written. -/
def propsType? (d : Definition) : Option Place :=
  match d.kind with
  | .ofFunction =>
    (((firstParameter? d.place).filter isTypedParameter).bind fun p => p.field? .type) <|>
      d.declarator.bind declaredPropsType?
  | .ofClass => do
    let heritage ← d.place.children.find? fun c => c.kind == .classHeritage
    let args ← heritage.preorder.find? fun c => c.kind == .typeArguments
    args.namedChildren.head?
  | .ofFactory => none

/-- Add a member of the annotated type. -/
def applyTypeMember (doc : ComponentDoc) (m : TypeMember) : ComponentDoc :=
  doc.modifyProp m.name fun prop =>
    { prop with
      required := if prop.type.isNone then !m.optional else prop.required
      tsType := some m.type
      description := if prop.description.isEmpty then m.description.getD prop.description else prop.description }

/-! ## Default values -/

def defaultOf (value : Place) : DefaultValue := ⟨value.text, !value.isLiteral⟩

def setDefault (doc : ComponentDoc) (name : String) (d : DefaultValue) : ComponentDoc :=
  doc.modifyProp name fun prop => { prop with defaultValue := some d }

/-- The pattern of a parameter without its annotation and its own default. -/
def parameterPattern? (p : Place) : Option Place := do
  let p ← if isTypedParameter p then p.field? .pattern else some p
  if p.kind = .assignmentPattern then p.field? .left else some p

def patternDefault? (p : Place) : Option (String × DefaultValue) :=
  match p.kind with
  | .objectAssignmentPattern => do
    let name ← p.fieldText? .left
    pure (name, defaultOf (← p.field? .right))
  | .pairPattern => do
    let key ← p.field? .key
    let value ← p.field? .value
    if value.kind = .assignmentPattern then pure (← key.propertyKey?, defaultOf (← value.field? .right)) else none
  | _ => none

/-- Defaults written in the destructured first parameter of a function. -/
def parameterDefaults (function : Place) : List (String × DefaultValue) :=
  match (firstParameter? function).bind parameterPattern? with
  | some p => if p.kind = .objectPattern then p.namedChildren.filterMap patternDefault? else []
  | none => []

def memberDefault? (p : Place) : Option (String × DefaultValue) :=
  match p.kind with
  | .pair => do
    let key ← p.field? .key
    let value ← p.field? .value
    pure (← key.propertyKey?, defaultOf value)
  | .shorthandPropertyIdentifier => some (p.text, ⟨p.text, true⟩)
  | _ => none

/-- Defaults that an object gives. -/
def objectDefaults (object : Place) : List (String × DefaultValue) := object.namedChildren.filterMap memberDefault?

def applyDefaults (doc : ComponentDoc) (ds : List (String × DefaultValue)) : ComponentDoc :=
  ds.foldl (fun doc d => setDefault doc d.1 d.2) doc

/-! ## The whole -/

/-- The object given to a class factory. -/
def factoryObject? (call : Place) : Option Place := do
  (← (← call.field? .arguments).namedChildren.head?).asObject?

/-- The static members in the definition itself. -/
def ownStatics (d : Definition) : Statics :=
  match d.kind with
  | .ofClass => .ofClass d.place
  | .ofFactory => ((factoryObject? d.place).map .ofObject).getD {}
  | .ofFunction => {}

/-- The public methods of a component. -/
def methodsOf (d : Definition) : List MethodDoc :=
  match d.kind with
  | .ofClass => classMethods d.place
  | .ofFactory => ((factoryObject? d.place).map objectMethods).getD []
  | .ofFunction => []

/-- The static members of a component, its own and assigned ones. -/
def staticsOf (program : Place) (d : Definition) : Statics := (ownStatics d).addAssigned program d.names

/-- The documentation of a component. -/
def document (program : Place) (scope : Scope) (d : Definition) : ComponentDoc :=
  let statics := staticsOf program d
  let doc : ComponentDoc :=
    { description := d.place.docblock?.getD ""
      displayName := statics.displayName <|> d.identifier?
      methods := methodsOf d }
  let doc := (statics.propTypes.filterMap scope.object?).foldl
    (fun doc object => applyValidators scope spreadLimit object doc) doc
  let doc := (((propsType? d).map (typeMembers program)).getD []).foldl applyTypeMember doc
  let doc := if d.kind = .ofFunction then applyDefaults doc (parameterDefaults d.place) else doc
  (statics.defaultProps.filterMap scope.object?).foldl (fun doc object => applyDefaults doc (objectDefaults object)) doc

end ReactCatalog
