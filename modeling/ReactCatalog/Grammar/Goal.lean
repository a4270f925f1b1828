import ReactCatalog.Grammar.Rule

/-!
# Goals of the grammar

The constructs of the language refer to each other. A `Grammar` answers every goal with a rule; each module of
the grammar states its constructs in terms of the answers to the others' goals.
-/

namespace ReactCatalog

inductive Goal where
  | statement
  | declaration
  /-- A block of statements; it may be the end of an expression. -/
  | block (inExpression : Bool)
  | expression
  /-- Expressions separated by commas. -/
  | sequence
  /-- An expression without binary operators. -/
  | operand
  /-- An expression whose binary operators bind at least this tightly. -/
  | binary (least : Nat)
  | arguments
  | template
  | object
  | propertyName
  | decorator
  | classBody
  | binding
  | parameters
  | signature
  | element
  | typ
  | primaryType
  | typeNote
  | typeArguments
  | typeParameters
  | objectType
  deriving DecidableEq, Repr

abbrev Grammar := Goal → Rule

end ReactCatalog
