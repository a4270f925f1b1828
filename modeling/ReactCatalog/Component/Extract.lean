import ReactCatalog.Component.Document
import ReactCatalog.Files.Tree
import ReactCatalog.Grammar.Program
import ReactCatalog.Syntax.Flaw

/-!
# Extraction

The documentation of the component that a file exports, or why there is none. The extension of the file decides
how its text is read.
-/

namespace ReactCatalog

/-! ## Languages -/

/-- Languages in which components are written. -/
inductive Language where
  | javascript
  | typescript
  deriving DecidableEq, Repr, Inhabited

namespace Language

def name : Language → String
  | javascript => "javascript"
  | typescript => "typescript"

def extensions : Language → List String
  | javascript => ["js", "jsx", "mjs", "cjs"]
  | typescript => ["ts", "tsx"]

def ofExtension? (ext : String) : Option Language := [javascript, typescript].find? fun l => l.extensions.contains ext

/-- Every extension that some language has, sorted. -/
def allExtensions : List String := ["cjs", "js", "jsx", "mjs", "ts", "tsx"]

theorem mem_allExtensions_iff {ext : String} : ext ∈ allExtensions ↔ (ofExtension? ext).isSome := by
  simp only [allExtensions, ofExtension?, extensions, List.find?_isSome, List.mem_cons, List.not_mem_nil, or_false,
    exists_eq_or_imp, exists_eq_left, List.contains_eq_mem, decide_eq_true_eq]
  grind

/-- The way a text with this extension is read. -/
def dialect (l : Language) (ext : String) : Dialect :=
  match l with
  | javascript => .javascript
  | typescript => if ext = "tsx" then .tsx else .typescript

end Language

/-- The extension of a path, as text. -/
def Path.extensionText? (p : Path) : Option String := p.extension?.bind Text.decode?

def Path.language? (p : Path) : Option Language := p.extensionText?.bind Language.ofExtension?

/-- The way the file at a path is read. -/
def Path.dialect? (p : Path) : Option Dialect := do
  let ext ← p.extensionText?
  pure ((← Language.ofExtension? ext).dialect ext)

/-! ## Errors -/

/-- Why a file has no component documentation. -/
inductive ExtractError where
  | unreadable (cause : ReadError)
  | badSyntax (place : Location)
  | definition (cause : DefinitionError)
  | unsupported (extension : String)
  deriving DecidableEq, Repr

def DefinitionError.message : DefinitionError → String
  | noComponent => "No suitable component definition found"
  | multipleComponents n => s!"Multiple exported component definitions found ({n})"

def ExtractError.message : ExtractError → String
  | unreadable e => "Failed to read file: " ++ e.message
  | badSyntax l => s!"Syntax error at line {l.line}, column {l.column}"
  | definition e => e.message
  | unsupported ext => "Unsupported language for extension: " ++ ext

/-! ## Extraction -/

/-- The top of the tree of a text, unless the text has a flaw. -/
def parseProgram (d : Dialect) (text : String) : Except ExtractError Place :=
  let source := Source.ofString text
  let tree := source.parse d
  match tree.firstFlaw? with
  | some n => .error (.badSyntax (source.locate n.start))
  | none => .ok (.root source tree)

/-- The documentation of the component that a text exports. -/
def analyze (d : Dialect) (text : String) : Except ExtractError ComponentDoc := do
  let program ← parseProgram d text
  let scope := Scope.ofProgram program
  match resolve program scope with
  | .error e => .error (.definition e)
  | .ok definition => pure (document program scope definition)

/-- The documentation of the component that a file exports, given how the file is read. -/
def extract (read : Path → Except ReadError String) (p : Path) : Except ExtractError ComponentDoc :=
  match p.dialect? with
  | none => .error (.unsupported ((p.extension?.map Text.decodeLossy).getD ""))
  | some d =>
    match read p with
    | .error e => .error (.unreadable e)
    | .ok text => analyze d text

end ReactCatalog
