import ReactCatalog.Grammar.Member

/-!
# Types

Intersections bind more tightly than unions, unions more tightly than conditional types. A line feed before `[`
or `extends` can end a type, since a semicolon may be put in there.
-/

namespace ReactCatalog.Grammar

open Rule

/-- The type goes on: no automatic semicolon ends it here. -/
private def typeGoesOn : Rule := goesOn ⟨false, false⟩

/-! ## Names -/

private def typeWords : List String :=
  ["typeof", "keyof", "infer", "readonly", "new", "this", "import", "void", "true", "false", "null", "undefined",
   "any", "number", "boolean", "string", "symbol", "unknown", "never", "object"]

/-- A type name, with the modules it is taken from. -/
private def typeName : Rule :=
  let simple := such (wordBut .typeIdentifier typeWords) fun _ => true
  let dot := seq [mark ".", anyWord .identifier]
  let path := grow (anyWord .identifier) fun left =>
    wrap .nestedIdentifier left (seq [dot, ahead (mark ".")])
  orElse
    (seq [notAhead (keywordIn ["typeof", "keyof", "infer", "readonly", "new", "this", "import"]),
      node .nestedTypeIdentifier (seq [path, mark ".", field .name (anyWord .typeIdentifier)])])
    simple

private def namedType (g : Grammar) : Rule :=
  into typeName fun left =>
    orElse (wrap .genericType (left.map (Piece.withField .name)) (field .typeArguments (g .typeArguments)))
      (give left)

def typeArguments (g : Grammar) : Rule :=
  node .typeArguments (seq
    [sign "<", enclosed (seq [sepBy1 (g .typ) (mark ","), opt (mark ",")]), sign ">"])

private def typeParameter (g : Grammar) : Rule :=
  node .typeParameter (seq
    [opt (seq [keyword "const", ahead (anyWord .identifier)]), field .name (anyWord .typeIdentifier),
     opt (node .constraint (seq [orElse (keyword "extends") (mark ":"), g .typ])),
     opt (field .value (node .defaultType (seq [mark "=", g .typ])))])

def typeParameters (g : Grammar) : Rule :=
  node .typeParameters (seq
    [sign "<", enclosed (seq [sepBy1 (typeParameter g) (mark ","), opt (mark ",")]), sign ">"])

/-! ## Types in brackets -/

private def propertySignature (g : Grammar) : Rule :=
  node .propertySignature (seq
    [modifier .ofType accessibility, modifier .ofType (keyword "static"),
     modifier .ofType (node .overrideModifier (keyword "override")), modifier .ofType (keyword "readonly"),
     field .name (g .propertyName), opt (mark "?"), opt (field .type (g .typeNote))])

private def constructSignature (g : Grammar) : Rule :=
  node .constructSignature (seq
    [opt (keyword "abstract"), keyword "new", opt (g .typeParameters), field .parameters (g .parameters),
     opt (g .typeNote)])

private def typeMember (g : Grammar) : Rule :=
  ending true (choice
    [node .callSignature (g .signature),
     constructSignature g,
     indexSignature g,
     methodSignature g .ofType,
     propertySignature g])

/-- Members in braces; a comma, a semicolon or a line feed ends each. -/
def objectType (g : Grammar) : Rule :=
  node .objectType (seq
    [mark "\x7b",
     enclosed (seq
       [opt (orElse (mark ",") (mark ";")),
        many (seq [typeMember g, choice [semicolon ⟨false, false⟩, mark ",", nextIs "\x7d"]])]),
     mark "\x7d"])

private def tupleMember (g : Grammar) : Rule :=
  let name := field .name (anyWord .identifier)
  let note := field .type (g .typeNote)
  choice
    [node .requiredParameter (seq [node .restPattern (seq [mark "...", anyWord .identifier]), note]),
     node .requiredParameter (seq [name, note]),
     node .optionalParameter (seq [name, mark "?", note]),
     node .restType (seq [mark "...", g .typ]),
     node .optionalType (seq [g .typ, mark "?"]),
     g .typ]

private def tupleType (g : Grammar) : Rule :=
  node .tupleType (seq
    [mark "[", enclosed (seq [opt (sepBy1 (tupleMember g) (mark ",")), opt (mark ",")]), mark "]"])

/-! ## Literals and queries -/

private def literalType : Rule :=
  node .literalType (choice
    [node .unaryExpression (seq [markIn ["-", "+"], field .argument number]), number, string,
     wordAs .trueLiteral "true", wordAs .falseLiteral "false", wordAs .nullLiteral "null",
     wordAs .undefined "undefined"])

private def predefinedType : Rule :=
  node .predefinedType (orElse
    (node .symbol (seq [keyword "unique", keyword "symbol"]))
    (keywordIn ["any", "number", "boolean", "string", "symbol", "void", "unknown", "never", "object"]))

private def queryStep (g : Grammar) (left : List Piece) : Rule :=
  choice
    [wrap .memberExpression (left.map (Piece.withField .object))
       (seq [orElse (mark ".") (mark "?."), field .property (orElse privateName (anyWord .propertyIdentifier))]),
     wrap .callExpression (left.map (Piece.withField .function)) (field .arguments (g .arguments))]

/-- What an imported module offers, as a type. -/
private def importedType (g : Grammar) : Rule :=
  such (grow (wordAs .importKeyword "import") (queryStep g)) fun ps => lastKind? ps != some .importKeyword

private def typeQuery (g : Grammar) : Rule :=
  let base := grow (orElse (wordAs .this "this") (anyWord .identifier)) fun left =>
    orElse (queryStep g left)
      (wrap .subscriptExpression (left.map (Piece.withField .object))
        (seq [typeGoesOn, mark "[", choice [predefinedType, string, number], mark "]"]))
  node .typeQuery (seq
    [keyword "typeof",
     orElse (importedType g)
       (into base fun left =>
         orElse (wrap .instantiationExpression left (field .typeArguments (g .typeArguments))) (give left))])

/-! ## Primary types -/

private def primaryBase (g : Grammar) : Rule :=
  choice
    [node .parenthesizedType (seq [mark "(", enclosed (g .typ), mark ")"]),
     g .objectType, tupleType g, literalType, typeTemplate g,
     typeQuery g,
     node .indexTypeQuery (seq [keyword "keyof", g .primaryType]),
     node .flowMaybeType (seq [mark "?", g .primaryType]),
     rename .existentialType (mark "*"),
     wordAs .thisType "this",
     orElse (seq [predefinedType, notAhead (mark ".")]) (namedType g)]

/-- A type followed by any number of `[]` and `[K]`. -/
def primaryType (g : Grammar) : Rule :=
  grow (primaryBase g) fun left =>
    seq [typeGoesOn,
      orElse (wrap .arrayType left (seq [mark "[", mark "]"]))
        (wrap .lookupType left (seq [mark "[", enclosed (g .typ), mark "]"]))]

/-! ## Functions, unions and conditions -/

private def functionType (g : Grammar) : Rule :=
  node .functionType (seq
    [opt (g .typeParameters), field .parameters (g .parameters), mark "=>",
     choice [assertion g, typePredicate g, g .typ]])

private def constructorType (g : Grammar) : Rule :=
  node .constructorType (seq
    [opt (keyword "abstract"), keyword "new", opt (g .typeParameters), field .parameters (g .parameters),
     mark "=>", field .type (g .typ)])

private def readonlyType (g : Grammar) : Rule := node .readonlyType (seq [keyword "readonly", g .typ])

private def inferType (g : Grammar) : Rule :=
  node .inferType (seq
    [keyword "infer", anyWord .typeIdentifier, opt (seq [keyword "extends", g .typ, notAhead (mark "?")])])

private def typeOperand (g : Grammar) : Rule :=
  choice [functionType g, constructorType g, readonlyType g, inferType g, g .primaryType]

/-- Operands joined by one mark, grouped to the left; the mark may also come first. -/
private def joined (k : Kind) (m : String) (one : Rule) : Rule :=
  grow (orElse (node k (seq [mark m, one])) one) fun left => wrap k left (seq [mark m, one])

private def unionType (g : Grammar) : Rule :=
  joined .unionType "|" (joined .intersectionType "&" (typeOperand g))

def typ (g : Grammar) : Rule :=
  grow (unionType g) fun left =>
    wrap .conditionalType left (seq
      [typeGoesOn, keyword "extends", unionType g, mark "?", g .typ, mark ":", g .typ])

def typeNote (g : Grammar) : Rule :=
  node .typeNote (seq [mark ":", orElse (importedType g) (g .typ)])

end ReactCatalog.Grammar
