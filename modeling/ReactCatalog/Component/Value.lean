import ReactCatalog.Syntax.Place
import ReactCatalog.Text.Blank

/-!
# Values in a source

Looking at expressions: what a value is once its wrappers are taken off, what a key is called, whether a value is
a literal, and whether evaluating it makes elements.
-/

namespace ReactCatalog

namespace Place

/-- Some construct that does not change what a value is, and the value inside it. -/
def inside? (p : Place) : Option Place :=
  match p.kind with
  | .parenthesizedExpression | .asExpression | .satisfiesExpression | .nonNullExpression => p.namedChildren.head?
  | .typeAssertion => p.namedChildren.getLast?
  | _ => none

theorem mem_namedChildren_of_inside? {p q : Place} (h : p.inside? = some q) : q ∈ p.namedChildren := by
  unfold inside? at h
  split at h
  all_goals first
    | exact List.mem_of_head? h
    | exact List.mem_of_getLast? h
    | cases h

theorem sizeOf_node_lt_of_inside? {p q : Place} (h : p.inside? = some q) : sizeOf q.node < sizeOf p.node :=
  sizeOf_node_lt_of_mem_namedChildren (mem_namedChildren_of_inside? h)

/-- The value without the wrappers around it. -/
def bare (p : Place) : Place :=
  match h : p.inside? with
  | some q => q.bare
  | none => p
termination_by sizeOf p.node
decreasing_by exact sizeOf_node_lt_of_inside? h

theorem sizeOf_bare_le (p : Place) : sizeOf p.bare.node ≤ sizeOf p.node := by
  fun_induction bare p with
  | case1 p q h ih => exact Nat.le_trans ih (Nat.le_of_lt (sizeOf_node_lt_of_inside? h))
  | case2 p h => exact Nat.le_refl _

def isFixedTemplate (p : Place) : Bool :=
  p.kind == .templateString && p.namedChildren.all fun c => c.kind != .templateSubstitution

/-- The text between the quotes of a string, or of a template without substitutions. -/
def stringValue? (p : Place) : Option String :=
  if p.kind = .string then some (String.ofList (p.text.toList.drop 1).dropLast)
  else if p.isFixedTemplate then some (Text.trimBoth (· == '`') p.text)
  else none

/-- The name under which a key puts a value; none for computed keys. -/
def propertyKey? (p : Place) : Option String :=
  match p.kind with
  | .propertyIdentifier | .identifier | .number | .privatePropertyIdentifier => some p.text
  | .string => p.stringValue?
  | _ => none

/-- A function written in place. -/
def isFunctionLiteral (p : Place) : Bool := p.kind == .arrowFunction || p.kind == .functionExpression

/-- A value written in place, rather than taken from elsewhere. -/
def isLiteral (p : Place) : Bool :=
  let v := p.bare
  match v.kind with
  | .string | .number | .trueLiteral | .falseLiteral | .nullLiteral | .undefined | .regex | .object | .array => true
  | .arrowFunction | .functionExpression => true
  | .templateString => v.isFixedTemplate
  | .unaryExpression => ((v.field? .argument).map fun a => a.kind == .number).getD false
  | _ => false

/-- The name by which something is called: a name, or the last name of a member. -/
def calledName? (p : Place) : Option String :=
  match p.kind with
  | .identifier => some p.text
  | .memberExpression => p.fieldText? .property
  | _ => none

/-- Elements are made here or below, other than by a class of its own. -/
def rendersElements (p : Place) : Bool :=
  match p.kind with
  | .jsxElement | .jsxSelfClosingElement => true
  | .classDeclaration | .classExpression => false
  | k =>
    (k == .callExpression && (p.field? .function).bind calledName? == some "createElement") ||
      p.children.attach.any fun ⟨c, _⟩ => c.rendersElements
termination_by sizeOf p.node
decreasing_by exact sizeOf_node_lt_of_mem_children ‹_›

/-- The value if it is an object literal. -/
def asObject? (p : Place) : Option Place := if p.bare.kind = .object then some p.bare else none

/-- The object that a function or method returns: the value of an expression body, or the first object returned
in a block. -/
def returnedObject? (p : Place) : Option Place := do
  let body ← p.field? .body
  if body.kind ≠ .statementBlock then body.asObject?
  else
    (body.namedChildren.filter fun s => s.kind == .returnStatement).findSome? fun s =>
      s.namedChildren.head?.bind asObject?

end Place

end ReactCatalog
