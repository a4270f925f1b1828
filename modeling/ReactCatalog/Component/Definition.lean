import ReactCatalog.Component.Scope
import ReactCatalog.Text.WordChar

/-!
# Component definitions

A module's component is found from what the module exports: each exported value is followed through names and
wrapping calls to a class, a function or a class factory. A definition exported several times counts once.
-/

namespace ReactCatalog

/-- How a component is defined. -/
inductive DefinitionKind where
  /-- A class that extends a component class or has a method `render`. -/
  | ofClass
  /-- A function that makes elements. -/
  | ofFunction
  /-- A call of a class factory. -/
  | ofFactory
  deriving DecidableEq, Repr, Inhabited

structure Definition where
  place : Place
  kind : DefinitionKind
  /-- Top-level names bound to the component, outermost first. -/
  names : List String
  /-- The declarator through which the definition was reached. -/
  declarator : Option Place
  deriving Inhabited

/-- The name in the definition itself, or else the innermost name bound to it. -/
def Definition.identifier? (d : Definition) : Option String :=
  (d.place.fieldText? .name) <|> d.names.getLast?

/-- Why there is no single definition. -/
inductive DefinitionError where
  | noComponent
  | multipleComponents (count : Nat)
  deriving DecidableEq, Repr

/-! ## Classes -/

private def skipBlanks (cs : List Char) : List Char := cs.dropWhile Text.isBlank

private def endsWord (cs : List Char) : Bool := !((cs.head?.map Text.isWord).getD false)

/-- What may follow `extends` and blanks: `Component` or `PureComponent`, perhaps as a member of `React`. -/
private def namesComponent (cs : List Char) : Bool :=
  let cs := ((Text.dropLeading? "React".toList cs).bind fun r =>
    (Text.dropLeading? ['.'] (skipBlanks r)).map skipBlanks).getD cs
  let cs := (Text.dropLeading? "Pure".toList cs).getD cs
  match Text.dropLeading? "Component".toList cs with
  | some r => endsWord r
  | none => false

private def extendsHere (cs : List Char) : Bool :=
  match Text.dropLeading? "extends".toList cs with
  | some (c :: r) => Text.isBlank c && namesComponent (skipBlanks r)
  | _ => false

/-- Somewhere in the text the word `extends` is followed by the name of a component class. -/
def extendsComponent (text : List Char) : Bool :=
  go false text
where
  go : Bool → List Char → Bool
    | _, [] => false
    | inWord, c :: r => (!inWord && extendsHere (c :: r)) || go (Text.isWord c) r

/-- A class that extends a component class or has a method `render`. -/
def Place.isComponentClass (p : Place) : Bool :=
  (p.children.any fun c => c.kind == .classHeritage && extendsComponent c.text.toList) ||
    ((p.field? .body).map fun b => b.namedChildren.any fun m =>
      m.kind == .methodDefinition && m.fieldText? .name == some "render").getD false

/-! ## Following a value -/

/-- Wrappers that take the component first; all others take it last. -/
def wrapperNames : List String := ["memo", "forwardRef"]

def factoryNames : List String := ["createReactClass", "createClass"]

/-- The name of what a call calls; empty if it is another call. -/
def callName? (callee : Place) : Option String :=
  match callee.kind with
  | .identifier => some callee.text
  | .memberExpression => some ((callee.fieldText? .property).getD "")
  | .callExpression => some ""
  | _ => none

/-- One step from a value towards its definition. -/
inductive Step where
  /-- The value is a definition. -/
  | found (kind : DefinitionKind)
  /-- The value is a name bound to another. -/
  | name (name : String) (binding : Binding)
  /-- The value is a call that wraps another. -/
  | wrapped (value : Place)

/-- What a value without wrappers leads to. -/
def stepOf? (scope : Scope) (p : Place) : Option Step :=
  match p.kind with
  | .identifier => (scope.lookup p.text).map (.name p.text)
  | .functionDeclaration | .functionExpression | .arrowFunction | .generatorFunctionDeclaration =>
    if p.rendersElements then some (.found .ofFunction) else none
  | .classDeclaration | .classExpression => if p.isComponentClass then some (.found .ofClass) else none
  | .callExpression => do
    let name ← (← p.field? .function) |> callName?
    if factoryNames.contains name then some (.found .ofFactory)
    else
      let args := (← p.field? .arguments).namedChildren
      (if wrapperNames.contains name then args.head? else args.getLast?).map .wrapped
  | _ => none

/-- Add a name to the end of a list unless it is there. -/
def addName (names : List String) (name : String) : List String :=
  if names.contains name then names else names ++ [name]

/-- How many names and wrappers may lie between an export and the definition. -/
def hopLimit : Nat := 16

/-- Follow a value to the definition it stands for, in fewer than `hops` steps. -/
def definitionOf? (scope : Scope) : Nat → Place → List String → Option Place → Option Definition
  | 0, _, _, _ => none
  | hops + 1, p, names, declarator =>
    let v := p.bare
    match stepOf? scope v with
    | none => none
    | some (.found kind) => some ⟨v, kind, names, declarator⟩
    | some (.name n b) => definitionOf? scope hops b.value (addName names n) (b.declarator <|> declarator)
    | some (.wrapped w) => definitionOf? scope hops w names declarator

/-! ## Exports -/

/-- A value that a module exports, with the name and declarator it is exported through. -/
structure Exported where
  value : Place
  name : Option String := none
  declarator : Option Place := none

/-- Values that an exported declaration introduces. -/
def declaredValues (p : Place) : List Exported :=
  match p.kind with
  | .functionDeclaration | .generatorFunctionDeclaration | .classDeclaration => [⟨p, p.fieldText? .name, none⟩]
  | .lexicalDeclaration | .variableDeclaration =>
    (p.namedChildren.filter fun d => d.kind == .variableDeclarator).filterMap fun d =>
      (d.field? .value).map fun v => ⟨v, d.fieldText? .name, some d⟩
  | _ => []

/-- The text of an assignment target that stands for an export. -/
def isExportTarget (text : String) : Bool :=
  text == "module.exports" || Text.startsWith text "module.exports." || Text.startsWith text "exports."

/-- An expression statement that is an assignment: its two sides. -/
def Place.assignment? (p : Place) : Option (Place × Place) := do
  if p.kind ≠ .expressionStatement then none
  else
    let a ← p.namedChildren.head?
    if a.kind ≠ .assignmentExpression then none
    else pure (← a.field? .left, ← a.field? .right)

/-- Names listed in an export clause, with what they are bound to. -/
def clauseValues (scope : Scope) (p : Place) : List Exported :=
  (p.children.filter fun c => c.kind == .exportClause).flatMap fun c =>
    c.namedChildren.filterMap fun item => do
      let local_ ← item.fieldText? .name
      let b ← scope.lookup local_
      pure ⟨b.value, some local_, b.declarator⟩

/-- What one top-level statement exports. -/
def exportedBy (scope : Scope) (p : Place) : List Exported :=
  match p.kind with
  | .exportStatement =>
    if (p.field? .source).isSome then []
    else match p.field? .declaration with
      | some d => declaredValues d
      | none =>
        match p.field? .value with
        | some v => [⟨v, none, none⟩]
        | none => clauseValues scope p
  | _ =>
    match p.assignment? with
    | some (left, right) => if isExportTarget left.text then [⟨right, none, none⟩] else []
    | none => []

/-- Everything that a module exports. -/
def exportedValues (program : Place) (scope : Scope) : List Exported :=
  program.namedChildren.flatMap (exportedBy scope)

/-- Definitions without those at a place already listed. -/
def distinctDefinitions (ds : List Definition) : List Definition :=
  ds.foldl (fun acc d => if acc.any fun e => e.place.path == d.place.path then acc else acc ++ [d]) []

/-- The definitions that a module's exports lead to. -/
def definitions (program : Place) (scope : Scope) : List Definition :=
  distinctDefinitions ((exportedValues program scope).filterMap fun e =>
    definitionOf? scope (hopLimit + 1) e.value e.name.toList e.declarator)

/-- The one component that a module exports. -/
def resolve (program : Place) (scope : Scope) : Except DefinitionError Definition :=
  match definitions program scope with
  | [] => .error .noComponent
  | [d] => .ok d
  | ds => .error (.multipleComponents ds.length)

end ReactCatalog
