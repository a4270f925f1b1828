import ReactCatalog.Grammar.Goal

/-!
# Literals and names
-/

namespace ReactCatalog.Grammar

open Rule

/-! ## Strings -/

private def run (stops : Char → Bool) (s : Source) (i : Nat) : Option Nat :=
  let j := s.skipWhile (fun c => !stops c) i
  if i < j then some j else none

def escape : Rule := tight .escapeSequence Source.escapeEnd?

private def quoted (quote : Char) (inside : Rule) : Rule :=
  let q := String.singleton quote
  node .string (seq [sign q, many inside, tightSign q])

private def quotedString (quote : Char) : Rule :=
  quoted quote (choice
    [tight .stringFragment (run fun c => c == quote || c == '\\' || c == '\n' || c == '\r'), escape])

def string : Rule := orElse (quotedString '"') (quotedString '\'')

/-- Inside an attribute a string may run over lines and knows no escapes. -/
private def attributeQuoted (quote : Char) : Rule :=
  quoted quote (choice
    [tight .htmlCharacterReference Source.referenceEnd?,
     tight .stringFragment fun s i =>
       if s.get i == '&' && !(Source.isAsciiLetter (s.get (i + 1)) || s.get (i + 1) == '#') && !s.atEnd i then
         some (i + 1)
       else run (fun c => c == quote || c == '&') s i])

def attributeString : Rule := orElse (attributeQuoted '"') (attributeQuoted '\'')

/-! ## Templates -/

private def templateChars (s : Source) (i : Nat) : Option Nat :=
  let j := go (s.size - i) i
  if i < j then some j else none
where
  go : Nat → Nat → Nat
    | 0, i => i
    | fuel + 1, i =>
      let c := s.get i
      if s.atEnd i || c == '`' || c == '\\' || (c == '$' && s.get (i + 1) == '\x7b') then i else go fuel (i + 1)

private def templateOf (k : Kind) (substitution : Rule) : Rule :=
  node k (seq [sign "`", many (choice [tight .stringFragment templateChars, escape, substitution]), tightSign "`"])

def template (g : Grammar) : Rule :=
  templateOf .templateString
    (node .templateSubstitution (seq [tightSign "$\x7b", enclosed (g .sequence), mark "\x7d"]))

/-! ## Numbers and regular expressions -/

def number : Rule := token .number Source.numberEnd?

def regex : Rule :=
  node .regex (seq
    [sign "/",
     tight .regexPattern fun s i => (s.regexEnd? i).bind fun j => if i < j then some j else none,
     tightSign "/",
     opt (tight .regexFlags (run fun c => !('a' ≤ c && c ≤ 'z')))])

/-! ## Names -/

/-- Words that open an expression of their own and so are no names there. -/
def expressionWords : List String :=
  ["function", "class", "new", "await", "yield", "typeof", "void", "delete", "import", "this", "super",
   "true", "false", "null", "undefined"]

/-- A name in an expression. -/
def identifier : Rule := wordBut .identifier expressionWords

/-- A name, or the word `undefined`. -/
def variableName : Rule := orElse (wordAs .undefined "undefined") identifier

/-- A name that a declaration introduces. -/
def declaredName : Rule := anyWord .identifier

def privateName : Rule :=
  token .privatePropertyIdentifier fun s i => if s.get i == '#' then s.wordEnd? (i + 1) else none

def computedName (g : Grammar) : Rule :=
  node .computedPropertyName (seq [mark "[", enclosed (g .expression), mark "]"])

/-- The name of a property: a word of any kind, a string, a number, or an expression in brackets. -/
def propertyName (g : Grammar) : Rule :=
  choice [string, number, computedName g, privateName, anyWord .propertyIdentifier]

/-- Type templates hold types in their substitutions. -/
def typeTemplate (g : Grammar) : Rule :=
  templateOf .templateLiteralType
    (node .templateType (seq [tightSign "$\x7b", enclosed (g .typ), mark "\x7d"]))

end ReactCatalog.Grammar
