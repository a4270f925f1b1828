import ReactCatalog.Component.Doc
import ReactCatalog.Component.Docblock
import ReactCatalog.Component.Value

/-!
# Property validators

A validator expression such as `PropTypes.arrayOf(PropTypes.string).isRequired` names a type and says whether a
value must be given. A validator that is not understood is described by its text.
-/

namespace ReactCatalog

/-- Validators that need no argument. -/
def primitiveValidators : List String :=
  ["any", "array", "bigint", "bool", "element", "elementType", "func", "node", "number", "object", "string",
   "symbol"]

/-- A validator that is only known by its text. -/
def customType (p : Place) : TypeDoc := (TypeDoc.named "custom").withRaw p.text

/-- The validator without `.isRequired`. -/
def withoutRequired? (p : Place) : Option Place :=
  if p.kind = .memberExpression ∧ p.fieldText? .property = some "isRequired" then p.field? .object else none

/-- The first argument of a call, without wrappers. -/
def firstArgument? (p : Place) : Option Place :=
  ((p.field? .arguments).bind fun a => a.namedChildren.head?).map Place.bare

theorem sizeOf_node_lt_of_withoutRequired? {p q : Place} (h : withoutRequired? p = some q) :
    sizeOf q.node < sizeOf p.node := by
  unfold withoutRequired? at h
  split at h
  · exact Place.sizeOf_node_lt_of_field? h
  · cases h

theorem sizeOf_node_lt_of_firstArgument? {p q : Place} (h : firstArgument? p = some q) :
    sizeOf q.node < sizeOf p.node := by
  obtain ⟨a, ha, rfl⟩ := Option.map_eq_some_iff.1 h
  obtain ⟨args, h₁, h₂⟩ := Option.bind_eq_some_iff.1 ha
  have := Place.sizeOf_node_lt_of_field? h₁
  have := Place.sizeOf_node_lt_of_mem_namedChildren (List.mem_of_head? h₂)
  have := Place.sizeOf_bare_le a
  omega

def enumMember (p : Place) : Json :=
  Json.sorted (DefaultValue.toJson ⟨p.text, !p.isLiteral⟩)

def withoutComments (ps : List Place) : List Place := ps.filter fun p => p.kind != .comment

/-- The value of the pair `p`, if it has one. -/
def keyed? (p : Place) : Option (String × Place) :=
  if p.kind = .pair then do
    let key ← (← p.field? .key).propertyKey?
    let value ← p.field? .value
    pure (key, value)
  else none

theorem sizeOf_node_lt_of_keyed? {p q : Place} {k : String} (h : keyed? p = some (k, q)) :
    sizeOf q.node < sizeOf p.node := by
  unfold keyed? at h
  split at h
  · simp only [bind, Option.bind_eq_some_iff, pure, Option.some.injEq, Prod.mk.injEq] at h
    obtain ⟨_, _, _, _, v, hv, _, rfl⟩ := h
    exact Place.sizeOf_node_lt_of_field? hv
  · cases h

mutual

/-- The type that a validator names, and whether it ends in `.isRequired`. -/
def propType (p : Place) : TypeDoc × Bool :=
  match h : withoutRequired? p.bare with
  | some inner => (validatorType inner, true)
  | none => (validatorType p, false)
termination_by (sizeOf p.node, 1)
decreasing_by
  · have := sizeOf_node_lt_of_withoutRequired? h
    have := Place.sizeOf_bare_le p
    exact Prod.Lex.left _ _ (by omega)
  · exact Prod.Lex.right _ (by omega)

/-- The type that a validator names, with `.isRequired` not looked at. -/
def validatorType (p : Place) : TypeDoc :=
  let v := p.bare
  match v.kind with
  | .identifier | .memberExpression =>
    match v.calledName? with
    | some n => if primitiveValidators.contains n then .named n else customType v
    | none => customType v
  | .callExpression =>
    match (v.field? .function).bind Place.calledName?, h : firstArgument? v with
    | some "oneOf", some arg =>
      if arg.kind = .array then
        (TypeDoc.named "enum").withValue (.array ((withoutComments arg.namedChildren).map enumMember))
      else ((TypeDoc.named "enum").withValue (.string arg.text)).withRaw v.text
    | some "oneOfType", some arg =>
      if arg.kind = .array then
        (TypeDoc.named "union").withValue (.array (arg.namedChildren.attach.filterMap fun ⟨c, _⟩ =>
          if c.kind = .comment then none else some (validatorType c).toValue))
      else customType v
    | some "arrayOf", some arg => (TypeDoc.named "arrayOf").withValue (itemType arg)
    | some "objectOf", some arg => (TypeDoc.named "objectOf").withValue (itemType arg)
    | some "shape", some arg =>
      if arg.kind = .object then (TypeDoc.named "shape").withValue (shapeType arg) else customType v
    | some "exact", some arg =>
      if arg.kind = .object then (TypeDoc.named "exact").withValue (shapeType arg) else customType v
    | some "instanceOf", some arg => (TypeDoc.named "instanceOf").withValue (.string arg.text)
    | _, _ => customType v
  | _ => customType v
termination_by (sizeOf p.node, 0)
decreasing_by
  all_goals
    have := sizeOf_node_lt_of_firstArgument? h
    have : sizeOf v.node ≤ sizeOf p.node := Place.sizeOf_bare_le p
    apply Prod.Lex.left
  · have := Place.sizeOf_node_lt_of_mem_namedChildren ‹_›
    omega
  all_goals omega

/-- The type of the items of a collection. -/
def itemType (p : Place) : Json :=
  let (t, required) := propType p
  if required then t.toValue.setMember "required" (.bool true) else t.toValue
termination_by (sizeOf p.node, 2)
decreasing_by exact Prod.Lex.right _ (by omega)

/-- The types of the members of an object. -/
def shapeType (p : Place) : Json :=
  .object (Dictionary.ofList (p.namedChildren.attach.filterMap fun ⟨c, _⟩ =>
    match h : keyed? c with
    | none => none
    | some (key, value) =>
      let (t, required) := propType value
      let entry := t.toValue.setMember "required" (.bool required)
      some (key, match c.docblock? with
        | some d => entry.setMember "description" (.string d)
        | none => entry)))
termination_by (sizeOf p.node, 2)
decreasing_by
  have := sizeOf_node_lt_of_keyed? h
  have := Place.sizeOf_node_lt_of_mem_namedChildren ‹_›
  exact Prod.Lex.left _ _ (by omega)

end

end ReactCatalog
