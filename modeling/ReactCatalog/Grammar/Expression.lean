import ReactCatalog.Grammar.Element

/-!
# Expressions

An operand is an expression without binary operators. Binary operators are read by precedence climbing. The
postfix forms of typed languages, `as`, `satisfies` and `!`, bind less tightly than every binary operator.
-/

namespace ReactCatalog.Grammar

open Rule

/-! ## Primary expressions -/

private def parenthesized (g : Grammar) : Rule := fun s pos =>
  let inner :=
    if s.dialect.isTyped then
      orElse (seq [g .expression, opt (field .type (g .typeNote)), nextIs ")"]) (g .sequence)
    else g .sequence
  node .parenthesizedExpression (seq [mark "(", enclosed inner, mark ")"]) s pos

def condition (g : Grammar) : Rule := parenthesized g

private def metaProperty : Rule :=
  node .metaProperty (orElse
    (seq [keyword "new", mark ".", keyword "target"])
    (seq [keyword "import", mark ".", keyword "meta"]))

private def memberName : Rule := field .property (orElse privateName (anyWord .propertyIdentifier))

private def chain : Rule := rename .optionalChain (mark "?.")

private def memberStep (left : List Piece) : Rule :=
  wrap .memberExpression (left.map (Piece.withField .object)) (seq [orElse (mark ".") chain, memberName])

private def subscriptStep (g : Grammar) (left : List Piece) : Rule :=
  wrap .subscriptExpression (left.map (Piece.withField .object))
    (seq [opt chain, mark "[", enclosed (g .sequence), mark "]"])

private def plainPrimary (g : Grammar) : Rule :=
  choice
    [parenthesized g, number, string, g .template, regex, g .object, array g,
     functionExpression g, generatorFunction g, classExpression g, metaProperty,
     wordAs .this "this", wordAs .super "super", wordAs .trueLiteral "true", wordAs .falseLiteral "false",
     wordAs .nullLiteral "null",
     seq [wordAs .importKeyword "import", ahead (orElse (mark "(") (mark "."))],
     variableName]

/-- `new` and what it applies to: members are followed, calls are not. -/
private def newExpression (g : Grammar) : Rule :=
  node .newExpression (seq
    [many1 (keyword "new"),
     grow (plainPrimary g) fun left => orElse (memberStep left) (subscriptStep g left),
     optTyped (seq [g .typeArguments, nextIs "("]), opt (field .arguments (g .arguments))])

private def primary (g : Grammar) : Rule :=
  choice [metaProperty, newExpression g, plainPrimary g]

/-! ## What follows a primary expression -/

private def callStep (g : Grammar) (left : List Piece) : Rule :=
  let callee := left.map (Piece.withField .function)
  choice
    [wrap .callExpression callee (seq
       [opt chain, optTyped (field .typeArguments (g .typeArguments)), field .arguments (g .arguments)]),
     wrap .callExpression callee (field .arguments (g .template))]

/-- The next token starts an expression. -/
private def expressionFollows : Rule :=
  ahead (choice
    [anyWord .identifier, number, string,
     markIn ["(", "[", "\x7b", "<", "!", "~", "+", "-", "++", "--", "@", "`", "/"]])

private def instantiationStep (g : Grammar) (left : List Piece) : Rule :=
  typed (given (·.instantiations) (wrap .instantiationExpression left
    (seq [field .typeArguments (g .typeArguments), notAhead expressionFollows])))

private def updateStep (left : List Piece) : Rule :=
  wrap .updateExpression (left.map (Piece.withField .argument)) (seq [goesOn ⟨true, false⟩, markIn ["++", "--"]])

private def postfixStep (g : Grammar) (left : List Piece) : Rule :=
  choice [memberStep left, subscriptStep g left, callStep g left, instantiationStep g left, updateStep left]

private def augmentedMarks : List String :=
  ["+=", "-=", "*=", "/=", "%=", "^=", "&=", "|=", ">>=", ">>>=", "<<=", "**=", "&&=", "||=", "??="]

private def isAssignable (left : List Piece) : Bool :=
  match lastKind? left with
  | some k => [Kind.identifier, .undefined, .memberExpression, .subscriptExpression, .parenthesizedExpression,
      .nonNullExpression].contains k
  | none => false

private def assignStep (g : Grammar) (left : List Piece) : Rule :=
  let target := left.map (Piece.withField .left)
  if isAssignable left then
    orElse (wrap .assignmentExpression target (seq [mark "=", field .right (g .expression)]))
      (wrap .augmentedAssignmentExpression target
        (seq [markIn augmentedMarks, field .right (g .expression)]))
  else never

/-! ## Operands -/

private def patternAssignment (g : Grammar) : Rule :=
  node .assignmentExpression (seq
    [field .left (orElse (objectPattern g) (arrayPattern g)), mark "=", field .right (g .expression)])

private def chained (g : Grammar) : Rule :=
  orElse
    (seq [grow (primary g) fun left => orElse (postfixStep g left) (assignStep g left),
      notAhead (seq [mark "="])])
    (patternAssignment g)

private def unary (g : Grammar) : Rule :=
  node .unaryExpression (seq
    [orElse (markIn ["!", "~", "-", "+"]) (keywordIn ["typeof", "void", "delete"]),
     field .argument (g .operand)])

private def prefixUpdate (g : Grammar) : Rule :=
  node .updateExpression (seq [markIn ["++", "--"], field .argument (g .operand)])

/-- `as T`, `satisfies T` and `!`. -/
private def typedStep (g : Grammar) (left : List Piece) : Rule :=
  typed (seq [goesOn ⟨true, false⟩, choice
    [wrap .asExpression left (seq [keyword "as", orElse (keyword "const") (g .typ)]),
     wrap .satisfiesExpression left (seq [keyword "satisfies", g .typ]),
     wrap .nonNullExpression left (mark "!")]])

private def awaited (g : Grammar) : Rule :=
  node .awaitExpression (seq [keyword "await", grow (g .operand) (typedStep g)])

private def yielded (g : Grammar) : Rule :=
  node .yieldExpression (seq
    [keyword "yield",
     orElse (seq [mark "*", g .expression]) (opt (seq [goesOn ⟨true, false⟩, g .expression]))])

private def typeAssertion (g : Grammar) : Rule :=
  node .typeAssertion (seq [g .typeArguments, g .operand])

def operand (g : Grammar) : Rule :=
  choice
    [arrowFunction g,
     byWord [("yield", yielded g), ("await", awaited g), ("typeof", unary g), ("void", unary g), ("delete", unary g)]
       (choice
         [given (·.dialect.hasElements) (g .element),
          given (·.dialect == .typescript) (typeAssertion g),
          unary g, prefixUpdate g,
          seq [privateName, ahead (keyword "in")],
          chained g])]

/-! ## Operators -/

/-- How tightly a binary operator binds. -/
def binaryPrecedence : List (String × Nat) :=
  [("??", 1), ("||", 2), ("&&", 3), ("|", 4), ("^", 5), ("&", 6),
   ("==", 7), ("===", 7), ("!=", 7), ("!==", 7),
   ("<", 8), ("<=", 8), (">", 8), (">=", 8), ("in", 8), ("instanceof", 8),
   ("<<", 9), (">>", 9), (">>>", 9), ("+", 10), ("-", 10), ("*", 11), ("/", 11), ("%", 11), ("**", 12)]

private def operatorAt? (s : Setting) (pos : Nat) : Option String :=
  let i := s.source.tokenStart pos
  (markAt? s.source i) <|> (wordAt? s.source i)

/-- Type arguments that belong to the clause around the expression. -/
private def surroundingArguments (g : Grammar) : Rule :=
  typed (given (!·.instantiations)
    (seq [g .typeArguments, orElse (markIn ["\x7b", ","]) (keyword "implements")]))

private def binaryStep (g : Grammar) (least : Nat) (left : List Piece) : Rule := fun s pos =>
  match operatorAt? s pos with
  | none => .stuck pos
  | some op =>
    match List.lookup op binaryPrecedence with
    | none => .stuck pos
    | some p =>
      if p < least then .stuck pos
      else
        wrap .binaryExpression (left.map (Piece.withField .left))
          (seq [notAhead (surroundingArguments g), orElse (mark op) (keyword op),
            field .right (g (.binary (if op = "**" then p else p + 1)))]) s pos

/-- Operators that bind at least as tightly as `least`; all but `**` group to the left. -/
def binary (g : Grammar) (least : Nat) : Rule := grow (g .operand) (binaryStep g least)

private def ternaryStep (g : Grammar) (left : List Piece) : Rule :=
  let rest (r : Rule) := seq [mark "?", ending false r, mark ":", g .expression]
  orElse (wrap .ternaryExpression left (rest (g .expression)))
    (typed (given (·.returnTypes)
      (wrap .ternaryExpression left (rest (seq [ahead (mark "("), withoutReturnTypes (g .expression)])))))

def expression (g : Grammar) : Rule :=
  grow (g (.binary 0)) fun left =>
    choice
      [binaryStep g 0 left, ternaryStep g left, typedStep g left,
       if lastKind? left == some .nonNullExpression then orElse (postfixStep g left) (assignStep g left) else never]

/-- Expressions separated by commas; two or more make one node. -/
def sequence (g : Grammar) : Rule :=
  into (g .expression) fun left =>
    orElse (wrap .sequenceExpression left (many1 (seq [mark ",", g .expression]))) (give left)

end ReactCatalog.Grammar
