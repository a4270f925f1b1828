import ReactCatalog.Grammar.Literal

/-!
# Patterns and parameters

A pattern names what a value is taken apart into. In a declaration the leaves are names; in an assignment they
may also be members of objects.
-/

namespace ReactCatalog.Grammar

open Rule

/-! ## Patterns -/

/-- What can be assigned to without being taken apart. -/
def assignable (g : Grammar) : Rule :=
  grow (orElse (wordAs .this "this") variableName) fun left => choice
    [wrap .memberExpression (left.map (Piece.withField .object))
       (seq [mark ".", field .property (orElse privateName (anyWord .propertyIdentifier))]),
     wrap .subscriptExpression (left.map (Piece.withField .object))
       (seq [mark "[", enclosed (g .sequence), mark "]"])]

private def arrayOf (item : Rule) : Rule := node .arrayPattern (commaList (mark "[") item (mark "]"))

def initializer (g : Grammar) : Rule := seq [mark "=", field .value (g .expression)]

private def withDefault (k : Kind) (g : Grammar) (left : Rule) : Rule :=
  node k (seq [field .left left, mark "=", field .right (g .expression)])

def restPattern (g : Grammar) : Rule :=
  node .restPattern (seq [mark "...", choice [g .binding, assignable g]])

/-- A pattern inside another, with leaves that may be members. -/
private def innerPattern (g : Grammar) : Rule :=
  choice [restPattern g, such (assignable g) fun ps => lastKind? ps != some .this, g .binding]

private def maybeDefault (g : Grammar) : Rule :=
  orElse (withDefault .assignmentPattern g (innerPattern g)) (innerPattern g)

def arrayPattern (g : Grammar) : Rule := arrayOf (maybeDefault g)

def objectPattern (g : Grammar) : Rule :=
  node .objectPattern (commaList (mark "\x7b") (choice
    [node .pairPattern (seq [field .key (g .propertyName), mark ":", field .value (maybeDefault g)]),
     restPattern g,
     withDefault .objectAssignmentPattern g (anyWord .shorthandPropertyIdentifierPattern),
     anyWord .shorthandPropertyIdentifierPattern]) (mark "\x7d"))

/-- A pattern whose leaves are names. -/
def binding (g : Grammar) : Rule := choice [objectPattern g, arrayPattern g, variableName]

/-- What a declaration introduces: a name, or names inside a pattern. -/
def declared (g : Grammar) : Rule := choice [objectPattern g, arrayPattern g, declaredName]

/-! ## Parameters -/

private def plainParameter (g : Grammar) : Rule :=
  let one := orElse (restPattern g) (g .binding)
  orElse (withDefault .assignmentPattern g one) one

def accessibility : Rule :=
  node .accessibilityModifier (keywordIn ["public", "private", "protected"])

private def patternFollows : Rule :=
  ahead (choice [anyWord .identifier, mark "\x7b", mark "[", mark "..."])

private def modifiers : Rule :=
  seq [opt (seq [accessibility, patternFollows]),
       opt (seq [node .overrideModifier (keyword "override"), patternFollows]),
       opt (seq [keyword "readonly", patternFollows])]

private def typedParameter (g : Grammar) : Rule :=
  let name := seq [many (g .decorator), modifiers,
    field .pattern (choice [restPattern g, g .binding, wordAs .this "this"])]
  let rest := seq [opt (field .type (g .typeNote)), opt (initializer g)]
  orElse (node .optionalParameter (seq [name, mark "?", rest]))
    (node .requiredParameter (seq [name, rest]))

/-- Parameters in parentheses. -/
def parameters (g : Grammar) : Rule :=
  let one : Rule := fun s pos => if s.dialect.isTyped then typedParameter g s pos else plainParameter g s pos
  node .formalParameters (seq
    [mark "(", enclosed (opt (seq [sepBy1 one (mark ","), opt (mark ",")])), mark ")"])

private def predicateName : Rule := orElse (wordAs .this "this") (anyWord .identifier)

def typePredicate (g : Grammar) : Rule :=
  node .typePredicate (seq [field .name predicateName, keyword "is", field .type (g .typ)])

def assertion (g : Grammar) : Rule :=
  node .asserts (seq [keyword "asserts", choice [typePredicate g, predicateName]])

def returnType (g : Grammar) : Rule :=
  choice
    [node .typePredicateNote (seq [mark ":", typePredicate g]),
     node .assertsNote (seq [mark ":", assertion g]),
     g .typeNote]

/-- Type parameters, parameters and return type. -/
def signature (g : Grammar) : Rule := fun s pos =>
  if s.dialect.isTyped then
    seq [opt (g .typeParameters), field .parameters (g .parameters),
      if s.returnTypes then opt (returnType g) else nothing] s pos
  else field .parameters (g .parameters) s pos

end ReactCatalog.Grammar
