import ReactCatalog.Grammar.Expression

/-!
# Statements and declarations
-/

namespace ReactCatalog.Grammar

open Rule

private def afterWord : Semicolon := ⟨false, false⟩

private def afterExpression : Semicolon := ⟨true, false⟩

/-- Statements in braces. -/
def block (g : Grammar) (inExpression : Bool) : Rule :=
  node .statementBlock (seq
    [mark "\x7b", enclosed (many (g .statement)), mark "\x7d", opt (automatic ⟨inExpression, false⟩)])

/-! ## Variables -/

private def plainDeclarator (g : Grammar) : Rule :=
  node .variableDeclarator (seq [field .name (declared g), opt (ending true (initializer g))])

private def typedDeclarator (g : Grammar) : Rule :=
  orElse
    (node .variableDeclarator (seq
      [field .name declaredName, mark "!", field .type (ending true (g .typeNote))]))
    (node .variableDeclarator (seq
      [field .name (declared g), opt (field .type (ending true (g .typeNote))),
       opt (ending true (initializer g))]))

private def declarators (g : Grammar) : Rule := fun s pos =>
  thenWith (sepBy1 (if s.dialect.isTyped then typedDeclarator g else plainDeclarator g) (mark ","))
    (fun ps => semicolon ⟨lastHas .value ps, false⟩) s pos

private def variableDeclaration (g : Grammar) : Rule :=
  node .variableDeclaration (seq [keyword "var", declarators g])

private def lexicalDeclaration (g : Grammar) : Rule :=
  node .lexicalDeclaration (seq [keywordIn ["let", "const"], declarators g])

/-! ## Functions and classes -/

private def functionHead (star : Rule) (g : Grammar) : Rule :=
  seq [opt (keyword "async"), keyword "function", star, field .name declaredName, g .signature]

private def functionDeclaration (g : Grammar) : Rule :=
  let body := seq [field .body (g (.block false)), opt (automatic afterWord)]
  choice
    [node .functionDeclaration (seq [functionHead nothing g, body]),
     node .generatorFunctionDeclaration (seq [functionHead (mark "*") g, body]),
     typed (node .functionSignature (seq [functionHead nothing g, semicolon ⟨false, true⟩]))]

private def classDeclaration (g : Grammar) : Rule :=
  orElse
    (node .classDeclaration (seq [many (g .decorator), classRest g className, opt (automatic afterWord)]))
    (typed (node .abstractClassDeclaration
      (seq [many (g .decorator), keyword "abstract", classRest g className])))

/-! ## Declarations of types -/

private def extendsTypes (g : Grammar) : Rule :=
  node .extendsTypeClause (seq [keyword "extends", sepBy1 (field .type (g .primaryType)) (mark ",")])

private def interfaceDeclaration (g : Grammar) : Rule :=
  node .interfaceDeclaration (seq
    [keyword "interface", field .name (anyWord .typeIdentifier), opt (g .typeParameters), opt (extendsTypes g),
     field .body (rename .interfaceBody (g .objectType))])

private def typeAlias (g : Grammar) : Rule :=
  node .typeAliasDeclaration (seq
    [keyword "type", field .name (anyWord .typeIdentifier), opt (g .typeParameters), mark "=",
     field .value (ending true (g .typ)), semicolon afterWord])

private def enumDeclaration (g : Grammar) : Rule :=
  let member := into (field .name (g .propertyName)) fun left =>
    orElse (wrap .enumAssignment left (initializer g)) (give left)
  node .enumDeclaration (seq
    [opt (keyword "const"), keyword "enum", field .name declaredName,
     field .body (node .enumBody (seq
       [mark "\x7b", enclosed (opt (seq [sepBy1 member (mark ","), opt (mark ",")])), mark "\x7d"]))])

private def dottedName : Rule :=
  grow declaredName fun left =>
    wrap .nestedIdentifier (left.map (Piece.withField .object))
      (seq [mark ".", field .property (anyWord .propertyIdentifier)])

private def moduleRest (g : Grammar) : Rule :=
  seq [field .name (orElse string dottedName), opt (field .body (g (.block false)))]

private def moduleDeclaration (g : Grammar) : Rule :=
  orElse
    (node .internalModule (seq [keyword "namespace", moduleRest g]))
    (node .module (seq [keyword "module", moduleRest g]))

private def importAlias : Rule :=
  node .importAlias (seq [keyword "import", declaredName, mark "=", dottedName, semicolon afterWord])

private def ambientDeclaration (g : Grammar) : Rule :=
  node .ambientDeclaration (seq
    [keyword "declare",
     choice
       [g .declaration,
        seq [keyword "global", g (.block false)],
        seq [keyword "module", mark ".", anyWord .propertyIdentifier, mark ":", g .typ, semicolon afterWord]]])

/-- A declaration; which kind it is shows in its first word. -/
def declaration (g : Grammar) : Rule := fun s pos =>
  let classes := classDeclaration g
  let shared : List (String × Rule) :=
    [("var", variableDeclaration g), ("let", lexicalDeclaration g), ("function", functionDeclaration g),
     ("async", functionDeclaration g), ("class", classes)]
  if s.dialect.isTyped then
    byWord (shared ++
      [("const", orElse (enumDeclaration g) (lexicalDeclaration g)), ("abstract", classes),
       ("interface", interfaceDeclaration g), ("type", typeAlias g), ("enum", enumDeclaration g),
       ("namespace", moduleDeclaration g), ("module", moduleDeclaration g), ("import", importAlias),
       ("declare", ambientDeclaration g)]) classes s pos
  else byWord (("const", lexicalDeclaration g) :: shared) classes s pos

/-! ## Modules -/

private def externalName : Rule := orElse string (anyWord .identifier)

private def fromClause : Rule := seq [keyword "from", field .source string]

private def exportSpecifier : Rule := fun s pos =>
  let plain := seq [field .name externalName, opt (seq [keyword "as", field .alias externalName])]
  let rule :=
    if s.dialect.isTyped then
      orElse (seq [keywordIn ["type", "typeof"], plain, ahead (orElse (mark ",") (mark "\x7d"))]) plain
    else plain
  node .exportSpecifier rule s pos

private def exportClause : Rule :=
  node .exportClause (seq
    [mark "\x7b", opt (seq [sepBy1 exportSpecifier (mark ","), opt (mark ",")]), mark "\x7d"])

private def exportedNames : Rule :=
  seq
    [choice
       [seq [mark "*", fromClause],
        seq [node .namespaceExport (seq [mark "*", keyword "as", externalName]), fromClause],
        seq [exportClause, opt fromClause]],
     semicolon afterWord]

private def exportDefault (g : Grammar) : Rule :=
  seq
    [keyword "default",
     orElse (field .declaration (g .declaration))
       (seq [field .value (ending true (g .expression)), semicolon afterExpression])]

private def typedExports (g : Grammar) : Rule :=
  typed (choice
    [seq [keyword "type", exportClause, opt fromClause, semicolon afterWord],
     seq [mark "=", ending true (g .expression), semicolon afterExpression],
     seq [keyword "as", keyword "namespace", declaredName, semicolon afterWord]])

private def exportStatement (g : Grammar) : Rule :=
  node .exportStatement (seq
    [many (g .decorator), keyword "export",
     choice
       [exportedNames, typedExports g,
        exportDefault g,
        typed (seq [ahead (keyword "import"), importAlias]),
        field .declaration (g .declaration)]])

private def importSpecifier : Rule := fun s pos =>
  let plain := orElse
    (seq [field .name externalName, keyword "as", field .alias declaredName])
    (field .name declaredName)
  let rule :=
    if s.dialect.isTyped then
      orElse (seq [keywordIn ["type", "typeof"], plain, ahead (orElse (mark ",") (mark "\x7d"))]) plain
    else plain
  node .importSpecifier rule s pos

private def namedImports : Rule :=
  node .namedImports (seq
    [mark "\x7b", opt (seq [sepBy1 importSpecifier (mark ","), opt (mark ",")]), mark "\x7d"])

private def importClause : Rule :=
  let several := orElse (node .namespaceImport (seq [mark "*", keyword "as", declaredName])) namedImports
  node .importClause (orElse several (seq [declaredName, opt (seq [mark ",", several])]))

private def importStatement (g : Grammar) : Rule := fun s pos =>
  let bound := seq [importClause, fromClause]
  let what :=
    if s.dialect.isTyped then
      choice
        [seq [keywordIn ["type", "typeof"], bound],
         bound,
         node .importRequireClause (seq
           [declaredName, mark "=", keyword "require", mark "(", field .source string, mark ")"]),
         field .source string]
    else orElse bound (field .source string)
  let withs := if s.dialect.isTyped then ["with", "assert"] else ["with"]
  node .importStatement (seq
    [keyword "import", what, opt (node .importAttribute (seq [keywordIn withs, g .object])),
     semicolon afterWord]) s pos

/-! ## Control flow -/

private def ifStatement (g : Grammar) : Rule :=
  node .ifStatement (seq
    [keyword "if", condition g, g .statement,
     opt (node .elseClause (seq [keyword "else", g .statement]))])

private def switchStatement (g : Grammar) : Rule :=
  let oneCase := orElse
    (node .switchCase (seq [keyword "case", enclosed (g .sequence), mark ":", many (g .statement)]))
    (node .switchDefault (seq [keyword "default", mark ":", many (g .statement)]))
  node .switchStatement (seq
    [keyword "switch", condition g,
     field .body (node .switchBody (seq [mark "\x7b", many oneCase, mark "\x7d"]))])

private def forIn (g : Grammar) : Rule :=
  let left := choice
    [seq [keyword "var", field .left (declared g), opt (initializer g)],
     seq [keywordIn ["let", "const"], field .left (declared g)],
     field .left (orElse (assignable g) (g .binding))]
  node .forInStatement (seq
    [keyword "for", opt (keyword "await"), mark "(", left, keywordIn ["in", "of"],
     field .right (enclosed (g .sequence)), mark ")", field .body (g .statement)])

private def forLoop (g : Grammar) : Rule :=
  let part := orElse (node .emptyStatement (mark ";")) (seq [enclosed (g .sequence), mark ";"])
  node .forStatement (seq
    [keyword "for", mark "(",
     choice [variableDeclaration g, lexicalDeclaration g, part],
     part, opt (enclosed (g .sequence)), mark ")", field .body (g .statement)])

private def tryStatement (g : Grammar) : Rule :=
  node .tryStatement (seq
    [keyword "try", field .body (g (.block false)),
     opt (node .catchClause (seq
       [keyword "catch",
        opt (seq
          [mark "(", field .parameter (declared g), optTyped (field .type (g .typeNote)), mark ")"]),
        field .body (g (.block false))])),
     opt (node .finallyClause (seq [keyword "finally", field .body (g (.block false))]))])

private def jump (k : Kind) (w : String) : Rule :=
  node k (seq [keyword w,
    orElse (automatic afterWord) (seq [opt (anyWord .statementIdentifier), semicolon afterWord])])

private def returnStatement (g : Grammar) : Rule :=
  node .returnStatement (seq
    [keyword "return",
     orElse (semicolon afterWord) (seq [ending true (g .sequence), semicolon afterExpression])])

private def throwStatement (g : Grammar) : Rule :=
  node .throwStatement (seq [keyword "throw", ending true (g .sequence), semicolon afterExpression])

private def labeledStatement (g : Grammar) : Rule :=
  node .labeledStatement (seq
    [wordBut .statementIdentifier ("case" :: "default" :: expressionWords), mark ":",
     field .body (g .statement)])

/-- Words that open a statement of their own and so no expression. -/
private def statementWords (d : Dialect) : List String :=
  ["var", "const", "if", "switch", "for", "while", "do", "try", "with", "break", "continue", "debugger", "return",
   "throw", "case", "default"] ++ if d.isTyped then ["interface", "enum", "abstract"] else []

private def expressionStatement (g : Grammar) : Rule := fun s pos =>
  if ((nextWord? s pos).map (statementWords s.dialect).contains).getD false then .stuck pos
  else node .expressionStatement (seq [ending true (g .sequence), semicolon afterExpression]) s pos

/-- A statement; which kind it is shows in its first word or mark. -/
def statement (g : Grammar) : Rule :=
  let other := choice
    [g .declaration, exportStatement g, labeledStatement g, g (.block false), node .emptyStatement (mark ";"),
     expressionStatement g]
  byWord
    [("export", orElse (exportStatement g) other),
     ("import", orElse (importStatement g) other),
     ("if", ifStatement g), ("switch", switchStatement g),
     ("for", orElse (forIn g) (forLoop g)),
     ("while", node .whileStatement (seq [keyword "while", condition g, field .body (g .statement)])),
     ("do", node .doStatement (seq
       [keyword "do", field .body (g .statement), keyword "while", condition g, opt (semicolon afterWord)])),
     ("try", tryStatement g),
     ("with", node .withStatement (seq [keyword "with", condition g, field .body (g .statement)])),
     ("break", jump .breakStatement "break"), ("continue", jump .continueStatement "continue"),
     ("debugger", node .debuggerStatement (seq [keyword "debugger", semicolon afterWord])),
     ("return", returnStatement g), ("throw", throwStatement g)]
    other

end ReactCatalog.Grammar
