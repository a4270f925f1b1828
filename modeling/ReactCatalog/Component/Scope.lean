import ReactCatalog.Component.Value
import ReactCatalog.Data.Dictionary

/-!
# Module scope

The names that a module declares at its top level, each with the value bound to it, and the names that it
imports, each with the module they come from. Of several declarations of one name the last counts.
-/

namespace ReactCatalog

/-- What a top-level name stands for. -/
structure Binding where
  value : Place
  /-- The declarator, if the name is a variable. -/
  declarator : Option Place := none
  deriving Inhabited

structure Scope where
  bindings : Dictionary Binding := []
  /-- Imported names with the modules they come from. -/
  imports : Dictionary String := []
  deriving Inhabited

namespace Scope

def lookup (s : Scope) (name : String) : Option Binding := Dictionary.find? s.bindings name

/-- The module that an imported name comes from. -/
def importOf? (s : Scope) (name : String) : Option String := Dictionary.find? s.imports name

/-- Bind a name, in place of what it was bound to. -/
def bind (s : Scope) (name : String) (b : Binding) : Scope :=
  { s with bindings := Dictionary.insert name b s.bindings }

/-- Bind the name that a declarator introduces, if it is a plain name with a value. -/
def bindDeclarator (s : Scope) (d : Place) : Scope :=
  if d.kind = .variableDeclarator then
    match d.field? .name, d.field? .value with
    | some name, some value => if name.kind = .identifier then s.bind name.text ⟨value, some d⟩ else s
    | _, _ => s
  else s

/-- Add the names that a declaration introduces. -/
def declare (s : Scope) (p : Place) : Scope :=
  match p.kind with
  | .functionDeclaration | .generatorFunctionDeclaration | .classDeclaration =>
    match p.field? .name with
    | some name => s.bind name.text ⟨p, none⟩
    | none => s
  | .lexicalDeclaration | .variableDeclaration => p.namedChildren.foldl bindDeclarator s
  | _ => s

/-- The local names that part of an import statement introduces. -/
def importedNames (p : Place) : List String :=
  match p.kind with
  | .identifier => [p.text]
  | .importSpecifier => (((p.field? .alias) <|> (p.field? .name)).map Place.text).toList
  | .namespaceImport => (p.namedChildren.head?.map Place.text).toList
  | .importClause | .namedImports => p.namedChildren.attach.flatMap fun ⟨c, _⟩ => importedNames c
  | _ => []
termination_by sizeOf p.node
decreasing_by exact Place.sizeOf_node_lt_of_mem_namedChildren ‹_›

/-- Add the names that an import statement introduces. -/
def addImport (s : Scope) (p : Place) : Scope :=
  match p.fieldText? .source with
  | none => s
  | some text =>
    let specifier := Text.trimBoth (fun c => c == '"' || c == '\'') text
    let names := p.namedChildren.flatMap importedNames
    { s with imports := names.foldl (fun d n => Dictionary.insert n specifier d) s.imports }

/-- Add the names that a top-level statement introduces. -/
def addStatement (s : Scope) (p : Place) : Scope :=
  match p.kind with
  | .exportStatement => ((p.field? .declaration).map s.declare).getD s
  | .importStatement => s.addImport p
  | _ => s.declare p

/-- The scope of a module. -/
def ofProgram (program : Place) : Scope := program.namedChildren.foldl addStatement {}

/-- The object literal that a value stands for: itself, or the one bound to a name. -/
def object? (s : Scope) (p : Place) : Option Place :=
  let v := p.bare
  match v.kind with
  | .object => some v
  | .identifier => (s.lookup v.text).bind fun b => b.value.asObject?
  | _ => none

end Scope

end ReactCatalog
