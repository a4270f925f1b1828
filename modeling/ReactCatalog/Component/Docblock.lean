import ReactCatalog.Syntax.Place
import ReactCatalog.Text.Blank

/-!
# Documentation comments

Only comments of the form `/** … */` document what follows them. The gutter of stars is taken off, and blank
lines at either end are dropped.
-/

namespace ReactCatalog

/-- A line without its margin: blanks, one star and one blank in front, blanks behind. -/
def docLine (line : List Char) : List Char :=
  let line := Text.trimList line
  let line := match line with
    | '*' :: r => r
    | _ => line
  let line := match line with
    | ' ' :: r => r
    | _ => line
  Text.trimEndList line

/-- The text of a documentation comment; none for any other comment. -/
def docblockText? (comment : String) : Option String := do
  let body ← Text.dropLeading? "/**".toList (Text.trimList comment.toList)
  let body ← Text.dropTrailing? "*/".toList body
  let lines := (Text.lines body).map docLine
  let lines := ((lines.dropWhile List.isEmpty).reverse.dropWhile List.isEmpty).reverse
  pure (String.ofList (List.intercalate ['\n'] lines))

namespace Place

/-- The documentation comment right before a place, with only blanks between. -/
def precedingDoc? (p : Place) : Option String := do
  let before ← p.previous?
  if before.kind = .comment ∧ (p.source.slice before.stop p.start).all Text.isBlank then
    docblockText? before.text
  else none

/-- Constructs that hand the comment before them on to what they hold. -/
def passesDocs : Kind → Bool
  | .exportStatement | .lexicalDeclaration | .variableDeclaration | .variableDeclarator | .expressionStatement
  | .assignmentExpression | .callExpression | .arguments | .parenthesizedExpression => true
  | _ => false

/-- The documentation comment of a place: right before it, or before one of the constructs around it that hand
comments on. -/
def docblock? (p : Place) : Option String :=
  go p.above p.node
where
  go : List (Node × Nat) → Node → Option String
    | [], _ => none
    | (parent, i) :: up, n =>
      match precedingDoc? ⟨p.source, n, (parent, i) :: up⟩ with
      | some d => some d
      | none => if passesDocs parent.kind then go up parent else none

end Place

end ReactCatalog
