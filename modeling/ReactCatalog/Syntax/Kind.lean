/-!
# Kinds and fields of syntax nodes

A node is named by its kind. Keywords and punctuation all have the kind `symbol`; which one it is can be read
off the node's text. Fields name the part that a child plays in its parent.
-/

namespace ReactCatalog

inductive Kind where
  | symbol | flaw
  -- whole files and trivia
  | program | hashBangLine | comment
  -- modules
  | exportStatement | exportClause | exportSpecifier | namespaceExport
  | importStatement | importClause | importSpecifier | importAttribute | importRequireClause | importAlias
  | namedImports | namespaceImport
  -- statements
  | variableDeclaration | lexicalDeclaration | variableDeclarator | expressionStatement | statementBlock
  | ifStatement | elseClause | switchStatement | switchBody | switchCase | switchDefault
  | forStatement | forInStatement | whileStatement | doStatement | tryStatement | catchClause | finallyClause
  | withStatement | breakStatement | continueStatement | debuggerStatement | returnStatement | throwStatement
  | emptyStatement | labeledStatement | statementIdentifier
  -- declarations
  | functionDeclaration | generatorFunctionDeclaration | functionSignature
  | classDeclaration | abstractClassDeclaration | module | internalModule | enumDeclaration | enumBody
  | enumAssignment | typeAliasDeclaration | interfaceDeclaration | interfaceBody | ambientDeclaration
  | extendsTypeClause
  -- expressions
  | parenthesizedExpression | identifier | undefined | this | super | number | string | stringFragment
  | escapeSequence | htmlCharacterReference | templateString | templateSubstitution
  | regex | regexPattern | regexFlags | trueLiteral | falseLiteral | nullLiteral
  | object | pair | shorthandPropertyIdentifier | spreadElement | methodDefinition | array
  | functionExpression | generatorFunction | arrowFunction | classExpression | metaProperty | importKeyword
  | callExpression | newExpression | awaitExpression | memberExpression | optionalChain | subscriptExpression
  | assignmentExpression | augmentedAssignmentExpression | ternaryExpression | binaryExpression
  | unaryExpression | updateExpression | sequenceExpression | yieldExpression
  | asExpression | satisfiesExpression | nonNullExpression | typeAssertion | instantiationExpression
  -- elements
  | jsxElement | jsxOpeningElement | jsxClosingElement | jsxSelfClosingElement | jsxText | jsxExpression
  | jsxAttribute | jsxNamespaceName
  -- patterns and parameters
  | objectPattern | arrayPattern | assignmentPattern | objectAssignmentPattern | pairPattern | restPattern
  | shorthandPropertyIdentifierPattern | formalParameters | requiredParameter | optionalParameter | arguments
  -- classes
  | classBody | classHeritage | extendsClause | implementsClause | fieldDefinition | publicFieldDefinition
  | classStaticBlock | decorator | computedPropertyName | propertyIdentifier | privatePropertyIdentifier
  | accessibilityModifier | overrideModifier | methodSignature | abstractMethodSignature
  -- types
  | typeNote | typePredicateNote | assertsNote | asserts | typePredicate
  | omittingTypeNote | addingTypeNote | optingTypeNote
  | typeArguments | typeParameters | typeParameter | constraint | defaultType
  | typeIdentifier | nestedTypeIdentifier | nestedIdentifier | predefinedType | genericType | objectType
  | propertySignature | callSignature | constructSignature | indexSignature | mappedTypeClause
  | arrayType | tupleType | restType | optionalType | unionType | intersectionType | conditionalType
  | functionType | constructorType | parenthesizedType | literalType | templateLiteralType | templateType
  | typeQuery | indexTypeQuery | lookupType | readonlyType | inferType | thisType | existentialType
  | flowMaybeType
  deriving DecidableEq, Repr, Inhabited

/-- A symbol stands for its own text; every other kind names a construct. -/
def Kind.isNamed (k : Kind) : Bool := k != .symbol

inductive Field where
  | alias | argument | arguments | body | declaration | function | key | left | name | object
  | parameter | parameters | pattern | property | right | source | type | typeArguments | value
  deriving DecidableEq, Repr, Inhabited

end ReactCatalog
