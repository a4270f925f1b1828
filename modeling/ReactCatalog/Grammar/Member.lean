import ReactCatalog.Grammar.Function

/-!
# Members of classes and objects

The words that modify a member can also name one: `static`, `async`, `get` and the like are modifiers only if a
name follows on the same line.
-/

namespace ReactCatalog.Grammar

open Rule

private def nameFollows : Rule :=
  ahead (choice [anyWord .identifier, string, number, mark "[", mark "*", privateName])

/-- Where a member stands decides whether a line feed may end its name. -/
inductive Owner where
  | ofClass | ofObject | ofType
  deriving DecidableEq

private def modifies (o : Owner) : Rule :=
  match o with
  | .ofClass | .ofType => seq [notAhead (automatic ⟨false, false⟩), nameFollows]
  | .ofObject => nameFollows

/-- A modifier, if it is one here. -/
def modifier (o : Owner) (r : Rule) : Rule := opt (seq [r, modifies o])

private def flag (o : Owner) (w : String) : Rule := modifier o (keyword w)

private def accessor (o : Owner) : Rule :=
  choice [seq [keywordIn ["get", "set"], modifies o], mark "*", nothing]

private def typedModifiers (o : Owner) : Rule :=
  seq [modifier o accessibility, flag o "static", modifier o (node .overrideModifier (keyword "override")),
       flag o "readonly", flag o "async", accessor o]

/-- A method with its body. -/
def methodDefinition (g : Grammar) (o : Owner) : Rule := fun s pos =>
  if s.dialect.isTyped then
    node .methodDefinition (seq
      [typedModifiers o, field .name (g .propertyName), opt (mark "?"), g .signature,
       field .body (g (.block false))]) s pos
  else
    node .methodDefinition (seq
      [many (g .decorator), flag o "static", flag o "async", accessor o, field .name (g .propertyName),
       field .parameters (g .parameters), field .body (g (.block false))]) s pos

/-- A method without a body. -/
def methodSignature (g : Grammar) (o : Owner) : Rule :=
  node .methodSignature (seq [typedModifiers o, field .name (g .propertyName), opt (mark "?"), g .signature])

/-! ## Objects and arrays -/

def spread (g : Grammar) : Rule := node .spreadElement (seq [mark "...", g .expression])

def object (g : Grammar) : Rule :=
  node .object (commaList (mark "\x7b") (choice
    [node .pair (seq [field .key (g .propertyName), mark ":", field .value (g .expression)]),
     spread g,
     methodDefinition g .ofObject,
     anyWord .shorthandPropertyIdentifier]) (mark "\x7d"))

def array (g : Grammar) : Rule :=
  node .array (commaList (mark "[") (orElse (spread g) (g .expression)) (mark "]"))

def arguments (g : Grammar) : Rule :=
  node .arguments (commaList (mark "(") (orElse (spread g) (g .expression)) (mark ")"))

/-! ## Class bodies -/

private def staticBlock (g : Grammar) : Rule :=
  node .classStaticBlock (seq
    [keyword "static", opt (seq [automatic ⟨false, false⟩, nextIs "\x7b"]), field .body (g (.block false))])

/-- The end of a member; its last piece tells whether an expression stands before. -/
private def memberEnd (signed : Bool) (last : List Piece) : Rule :=
  semicolon ⟨lastHas .value last, signed⟩

private def fieldDefinition (g : Grammar) : Rule :=
  node .fieldDefinition (seq
    [many (g .decorator), flag .ofClass "static", field .property (g .propertyName),
     opt (ending true (initializer g))])

private def plainMember (g : Grammar) : Rule :=
  choice
    [staticBlock g,
     seq [methodDefinition g .ofClass, opt (mark ";")],
     thenWith (fieldDefinition g) (memberEnd false),
     mark ";"]

private def abstractMethod (g : Grammar) : Rule :=
  node .abstractMethodSignature (seq
    [modifier .ofClass accessibility, seq [keyword "abstract", nameFollows],
     modifier .ofClass (node .overrideModifier (keyword "override")), accessor .ofClass,
     field .name (g .propertyName), opt (mark "?"), g .signature])

private def publicField (g : Grammar) : Rule :=
  let declare := flag .ofClass "declare"
  let access := modifier .ofClass accessibility
  node .publicFieldDefinition (seq
    [many (g .decorator),
     orElse (seq [keyword "declare", modifies .ofClass, access]) (seq [access, declare]),
     flag .ofClass "static", modifier .ofClass (node .overrideModifier (keyword "override")),
     flag .ofClass "abstract", flag .ofClass "readonly", flag .ofClass "abstract", flag .ofClass "accessor",
     field .name (g .propertyName), opt (orElse (mark "?") (mark "!")),
     opt (field .type (g .typeNote)), opt (ending true (initializer g))])

private def signSign : Rule := seq [opt (markIn ["-", "+"]), keyword "readonly"]

/-- A type annotation behind `?:`, `-?:` or `+?:`. -/
private def annotationLike (g : Grammar) : Rule :=
  choice
    [g .typeNote,
     node .omittingTypeNote (seq [sign "-?:", g .typ]),
     node .addingTypeNote (seq [sign "+?:", g .typ]),
     node .optingTypeNote (seq [sign "?:", g .typ])]

/-- `[key: K]: T`, or `[key in K]: T`. -/
def indexSignature (g : Grammar) : Rule :=
  node .indexSignature (seq
    [opt (seq [signSign, ahead (mark "[")]), mark "[",
     enclosed (orElse
       (seq [field .name (anyWord .identifier), mark ":", g .typ])
       (node .mappedTypeClause (seq
         [field .name (anyWord .typeIdentifier), keyword "in", field .type (g .typ),
          opt (seq [keyword "as", field .alias (g .typ)])]))),
     mark "]", field .type (annotationLike g)])

private def typedMember (g : Grammar) : Rule :=
  choice
    [staticBlock g,
     seq [many (g .decorator), methodDefinition g .ofClass, opt (semicolon ⟨false, false⟩)],
     seq [orElse (abstractMethod g) (methodSignature g .ofClass),
       orElse (semicolon ⟨false, true⟩) (mark ",")],
     thenWith (indexSignature g) fun ps => orElse (memberEnd false ps) (mark ","),
     thenWith (publicField g) fun ps => orElse (memberEnd false ps) (mark ","),
     mark ";"]

def classBody (g : Grammar) : Rule := fun s pos =>
  let member := if s.dialect.isTyped then typedMember g else plainMember g
  node .classBody (seq [mark "\x7b", enclosed (many member), mark "\x7d"]) s pos

end ReactCatalog.Grammar
