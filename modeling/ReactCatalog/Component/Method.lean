import ReactCatalog.Component.Doc
import ReactCatalog.Component.Docblock
import ReactCatalog.Component.Value

/-!
# Methods

The methods of a component that its users may call: not those that the framework calls, not private ones, and not
members with a meaning of their own.
-/

namespace ReactCatalog

/-- Methods that the framework calls. -/
def lifecycleNames : List String :=
  ["constructor", "render", "componentDidMount", "componentDidUpdate", "componentWillUnmount",
   "shouldComponentUpdate", "getSnapshotBeforeUpdate", "componentDidCatch", "getDerivedStateFromProps",
   "getDerivedStateFromError", "componentWillMount", "componentWillReceiveProps", "componentWillUpdate",
   "UNSAFE_componentWillMount", "UNSAFE_componentWillReceiveProps", "UNSAFE_componentWillUpdate",
   "getDefaultProps", "getInitialState", "getChildContext"]

/-- Members with a meaning of their own. -/
def reservedNames : List String :=
  ["propTypes", "defaultProps", "displayName", "contextTypes", "childContextTypes", "contextType", "mixins",
   "statics"]

/-- A method of this name is for users of the component. -/
def isPublicName (name : String) : Bool :=
  !Text.startsWith name "#" && !lifecycleNames.contains name && !reservedNames.contains name

/-- The name of a member of a class. -/
def Place.classMemberName? (p : Place) : Option String := do
  (← (p.field? .name) <|> (p.field? .property)).propertyKey?

/-- The name of a member of an object. -/
def Place.objectMemberName? (p : Place) : Option String := do
  (← (p.field? .name) <|> (p.field? .key)).propertyKey?

def parameterDoc? (p : Place) : Option ParameterDoc :=
  match p.kind with
  | .identifier | .restPattern | .objectPattern | .arrayPattern => some ⟨p.text, false⟩
  | .assignmentPattern => (p.fieldText? .left).map fun t => ⟨t, true⟩
  | .requiredParameter => (p.fieldText? .pattern).map fun t => ⟨t, (p.field? .value).isSome⟩
  | .optionalParameter => (p.fieldText? .pattern).map fun t => ⟨t, true⟩
  | _ => none

/-- The parameters of a function. -/
def parameterDocs (function : Place) : List ParameterDoc :=
  match function.field? .parameter with
  | some p => [⟨p.text, false⟩]
  | none =>
    match function.field? .parameters with
    | some ps => ps.namedChildren.filterMap parameterDoc?
    | none => []

/-- Modifiers written before a member or the function it holds. -/
def modifiersOf (member function : Place) : List String :=
  (["static", "async", "get", "set"].filter fun w => member.hasSymbol w || function.hasSymbol w) ++
    if member.hasSymbol "*" then ["generator"] else []

/-- The documentation of a member whose function is `function`. -/
def methodDoc (name : String) (member function : Place) : MethodDoc :=
  ⟨name, member.docblock?, modifiersOf member function, parameterDocs function⟩

/-- The function that a member holds: a method itself, or the function that a member of one of the kinds is given. -/
def memberFunction? (fields : List Kind) (p : Place) : Option Place :=
  if p.kind = .methodDefinition then some p
  else if p.kind ∈ fields then ((p.field? .value).map Place.bare).filter Place.isFunctionLiteral
  else none

def publicMethod? (fields : List Kind) (name? : Place → Option String) (member : Place) : Option MethodDoc := do
  let name ← name? member
  let function ← memberFunction? fields member
  if isPublicName name then pure (methodDoc name member function) else none

/-- Members of a class that may be given a function. -/
def classFields : List Kind := [.fieldDefinition, .publicFieldDefinition]

/-- The public methods of a class. -/
def classMethods (p : Place) : List MethodDoc :=
  match p.field? .body with
  | some body => body.namedChildren.filterMap (publicMethod? classFields Place.classMemberName?)
  | none => []

/-- Members of an object that may be given a function. -/
def objectFields : List Kind := [.pair]

/-- The public methods of an object that describes a class. -/
def objectMethods (object : Place) : List MethodDoc :=
  object.namedChildren.filterMap (publicMethod? objectFields Place.objectMemberName?)

end ReactCatalog
