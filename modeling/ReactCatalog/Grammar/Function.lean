import ReactCatalog.Grammar.Pattern

/-!
# Functions, decorators and classes as expressions
-/

namespace ReactCatalog.Grammar

open Rule

/-! ## Functions -/

def functionExpression (g : Grammar) : Rule :=
  node .functionExpression (seq
    [opt (keyword "async"), keyword "function", field .name (opt declaredName), g .signature,
     field .body (g (.block true))])

def generatorFunction (g : Grammar) : Rule :=
  node .generatorFunction (seq
    [opt (keyword "async"), keyword "function", mark "*", field .name (opt declaredName), g .signature,
     field .body (g (.block true))])

/-- An arrow function. A single name needs no parentheses. -/
def arrowFunction (g : Grammar) : Rule :=
  let body := seq [mark "=>", field .body (orElse (g (.block true)) (g .expression))]
  let name := field .parameter identifier
  node .arrowFunction (choice
    [seq [name, body],
     seq [keyword "async", name, body],
     seq [keyword "async", g .signature, body],
     seq [g .signature, body]])

/-! ## Decorators -/

private def decoratorMember : Rule :=
  grow (wordBut .identifier []) fun left =>
    wrap .memberExpression (left.map (Piece.withField .object))
      (seq [mark ".", field .property (anyWord .propertyIdentifier)])

private def decoratorCall (g : Grammar) : Rule :=
  into decoratorMember fun left =>
    orElse (wrap .callExpression (left.map (Piece.withField .function))
      (seq [optTyped (field .typeArguments (g .typeArguments)), field .arguments (g .arguments)])) (give left)

def decorator (g : Grammar) : Rule :=
  node .decorator (seq
    [mark "@",
     orElse (decoratorCall g)
       (typed (node .parenthesizedExpression (seq [mark "(", decoratorCall g, mark ")"])))])

/-! ## Classes -/

private def plainHeritage (g : Grammar) : Rule :=
  node .classHeritage (seq [keyword "extends", ending false (g .expression)])

private def extendsClause (g : Grammar) : Rule :=
  node .extendsClause (seq
    [keyword "extends",
     sepBy1 (seq [field .value (withoutInstantiations (ending false (g .expression))), opt (field .typeArguments (g .typeArguments))])
       (mark ",")])

private def implementsClause (g : Grammar) : Rule :=
  node .implementsClause (seq [keyword "implements", sepBy1 (g .typ) (mark ",")])

private def typedHeritage (g : Grammar) : Rule :=
  node .classHeritage (orElse (seq [extendsClause g, opt (implementsClause g)]) (implementsClause g))

/-- What a class extends and implements. -/
def heritage (g : Grammar) : Rule := fun s pos =>
  if s.dialect.isTyped then typedHeritage g s pos else plainHeritage g s pos

/-- A word that names a class, not one that goes on with its head. -/
def className : Rule := fun s pos =>
  wordBut (if s.dialect.isTyped then .typeIdentifier else .identifier) ["extends", "implements"] s pos

/-- From the name of a class to the end of its body. -/
def classRest (g : Grammar) (name : Rule) : Rule :=
  seq [keyword "class", field .name name, optTyped (g .typeParameters), opt (heritage g),
       field .body (g .classBody)]

def classExpression (g : Grammar) : Rule :=
  node .classExpression (seq [many (g .decorator), classRest g (opt className)])

end ReactCatalog.Grammar
