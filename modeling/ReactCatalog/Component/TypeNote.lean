import ReactCatalog.Component.Doc
import ReactCatalog.Component.Docblock
import ReactCatalog.Component.Value

/-!
# Type annotations

Describing annotated types, and listing the members of a type of properties: an object type, an intersection, or
the name of an interface or type alias of the same module.
-/

namespace ReactCatalog

def signatureType (form raw : String) : TypeDoc :=
  ((TypeDoc.named "signature").withValue (.string form)).withRaw raw

mutual

/-- What an annotation says of a type. -/
def annotatedType (p : Place) : TypeDoc :=
  match p.kind with
  | .typeNote | .parenthesizedType =>
    match h : p.namedChildren with
    | inner :: _ => annotatedType inner
    | [] => .named p.text
  | .literalType => (TypeDoc.named "literal").withValue (.string p.text)
  | .unionType => ((TypeDoc.named "union").withRaw p.text).withElements (alternatives p)
  | .arrayType =>
    let item := match h : p.namedChildren with
      | inner :: _ => [annotatedType inner]
      | [] => []
    ((TypeDoc.named "Array").withRaw p.text).withElements item
  | .genericType =>
    let items := match h : p.field? .typeArguments with
      | some args => args.namedChildren.attach.map fun ⟨a, _⟩ => annotatedType a
      | none => []
    ((TypeDoc.named ((p.fieldText? .name).getD p.text)).withRaw p.text).withElements items
  | .functionType => signatureType "function" p.text
  | .objectType => signatureType "object" p.text
  | _ => .named p.text
termination_by (sizeOf p.node, 1)
decreasing_by
  · exact Prod.Lex.left _ _ (Place.sizeOf_node_lt_of_mem_namedChildren (by simp [h]))
  · exact Prod.Lex.right _ (by omega)
  · exact Prod.Lex.left _ _ (Place.sizeOf_node_lt_of_mem_namedChildren (by simp [h]))
  · have := Place.sizeOf_node_lt_of_field? h
    have := Place.sizeOf_node_lt_of_mem_namedChildren ‹_›
    exact Prod.Lex.left _ _ (by omega)

/-- The alternatives of a union, with those of unions inside it in their places. -/
def alternatives (p : Place) : List TypeDoc :=
  p.namedChildren.attach.flatMap fun ⟨c, _⟩ =>
    if c.kind = .unionType then alternatives c else [annotatedType c]
termination_by (sizeOf p.node, 0)
decreasing_by
  all_goals exact Prod.Lex.left _ _ (Place.sizeOf_node_lt_of_mem_namedChildren ‹_›)

end

/-- One member of a type of properties. -/
structure TypeMember where
  name : String
  type : TypeDoc
  optional : Bool
  description : Option String
  deriving Inhabited

/-- The member that a signature declares. -/
def typeMember? (p : Place) : Option TypeMember :=
  match p.kind with
  | .propertySignature => do
    let name ← (← p.field? .name).propertyKey?
    let type := ((p.field? .type).map annotatedType).getD (.named "any")
    pure ⟨name, type, p.hasSymbol "?", p.docblock?⟩
  | .methodSignature => do
    let name ← (← p.field? .name).propertyKey?
    pure ⟨name, signatureType "function" p.text, p.hasSymbol "?", p.docblock?⟩
  | _ => none

/-- The declaration that a statement makes, itself or by exporting it. -/
def declarationIn? (p : Place) : Option Place :=
  if p.kind = .exportStatement then p.field? .declaration else some p

def isTypeDeclaration (p : Place) : Bool :=
  p.kind == .interfaceDeclaration || p.kind == .typeAliasDeclaration

/-- The first interface or type alias of that name. -/
def typeDeclaration? (program : Place) (name : String) : Option Place :=
  (program.namedChildren.filterMap declarationIn?).find? fun d =>
    isTypeDeclaration d && d.fieldText? .name == some name

/-- The types that make up a declared type: of an interface, what it extends and then its own body. -/
def declaredParts (d : Place) : List Place :=
  match d.kind with
  | .interfaceDeclaration =>
    ((d.children.filter fun c => c.kind == .extendsTypeClause).flatMap Place.namedChildren) ++
      (d.field? .body).toList
  | .typeAliasDeclaration => (d.field? .value).toList
  | _ => []

/-- How many levels of types are looked at. A name counts as two. -/
def typeLevels : Nat := 9

/-- Members of a type, inherited ones first, down to a number of levels. -/
def typeMembersTo (program : Place) : Nat → Place → List TypeMember
  | 0, _ => []
  | levels + 1, p =>
    match p.kind with
    | .typeNote | .parenthesizedType =>
      match p.namedChildren.head? with
      | some inner => typeMembersTo program levels inner
      | none => []
    | .objectType | .interfaceBody => p.namedChildren.filterMap typeMember?
    | .intersectionType => p.namedChildren.flatMap (typeMembersTo program levels)
    | .typeIdentifier => ofName levels p.text
    | .genericType => ofName levels ((p.fieldText? .name).getD "")
    | _ => []
where
  ofName : Nat → String → List TypeMember
    | 0, _ => []
    | levels + 1, name =>
      match typeDeclaration? program name with
      | some d => (declaredParts d).flatMap (typeMembersTo program levels)
      | none => []

def typeMembers (program p : Place) : List TypeMember := typeMembersTo program typeLevels p

end ReactCatalog
