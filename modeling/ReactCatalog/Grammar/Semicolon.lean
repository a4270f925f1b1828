import ReactCatalog.Grammar.Scan

/-!
# Automatic semicolons

A statement without a semicolon may still end: at the end of the source, before a closing brace, or before a
line feed whose next token could not continue the statement. `semicolonAt?` finds the place of the semicolon
that is put in; comments passed on the way to it stay inside the statement.

The languages differ in one point. With type syntax a comment on the same line has to be passed first;
without it, a comment is looked through.
-/

namespace ReactCatalog

/-- What may follow the place where a semicolon could be put in. -/
structure Semicolon where
  /-- The text before it is an expression, so that a binary operator could follow. -/
  afterExpression : Bool
  /-- The text before it is a signature, so that a body could follow. -/
  afterSignature : Bool := false
  deriving Repr

namespace Source

/-- From `i` over blanks and comments. Fails at a slash that opens no comment. -/
private def passComments? (s : Source) (i : Nat) : Option Nat :=
  go (s.size + 1 - i) i
where
  go : Nat → Nat → Option Nat
    | 0, i => some i
    | fuel + 1, i =>
      let j := s.skipWhile Text.isAsciiBlank i
      if s.get j != '/' then some j
      else if s.get (j + 1) == '/' then go fuel (s.skipWhile (fun c => !isLineBreak c) (j + 2))
      else if s.get (j + 1) == '*' then go fuel ((s.blockEnd? (j + 2)).getD s.size)
      else none

/-- What the characters from a comment up to the next token allow. -/
private inductive Passed where
  /-- A slash that opens no comment. -/
  | blocked
  /-- One block comment on this line. -/
  | sameLine (pos : Nat)
  /-- A comment that ends its line, or a block comment over several lines. -/
  | newLine (pos : Nat)

/-- Pass comments from `i`, stopping after a block comment unless a slash follows at once. -/
private def passComment (s : Source) (i : Nat) : Passed :=
  go (s.size + 1 - i) false i
where
  go : Nat → Bool → Nat → Passed
    | 0, _, i => .newLine i
    | fuel + 1, broken, i =>
      let j := s.skipWhile Text.isAsciiBlank i
      if s.get j != '/' then .newLine j
      else if s.get (j + 1) == '/' then go fuel broken (s.skipWhile (fun c => !isLineBreak c) (j + 2))
      else if s.get (j + 1) == '*' then
        match s.blockEnd? (j + 2) with
        | none => .newLine s.size
        | some k =>
          let broken := broken || (s.slice (j + 2) k).any isLineBreak
          if s.get k == '/' then go fuel broken k else if broken then .newLine k else .sameLine k
      else .blocked

/-- The token at `i` cannot continue a statement from the line before. -/
private def startsStatement (d : Dialect) (what : Semicolon) (s : Source) (i : Nat) : Bool :=
  let c := s.get i
  if s.atEnd i then true
  else if ['`', ',', ':', ';', '*', '%', '>', '<', '=', '?', '^', '|', '&', '/'].contains c then false
  else if c == '[' || c == '(' then if d.isTyped then !what.afterExpression else false
  else if c == '.' then !d.isTyped && isDigit (s.get (i + 1))
  else if c == '\x7b' then !(d.isTyped && what.afterSignature)
  else if c == '+' then s.get (i + 1) == '+'
  else if c == '-' then s.get (i + 1) == '-'
  else if c == '!' then s.get (i + 1) != '='
  else if s.hasAt "in".toList i then
    if !isAsciiLetter (s.get (i + 2)) then false
    else !(s.hasAt "stanceof".toList (i + 2)) || isAsciiLetter (s.get (i + 10))
  else true

/-- A semicolon may be put in right after `i`, in a language with type syntax. -/
private def typedSemicolon (d : Dialect) (what : Semicolon) (s : Source) (i : Nat) : Bool :=
  let j := s.skipWhile (fun c => Text.isAsciiBlank c && c != '\n') i
  if s.atEnd j then true
  else if s.get j == '\x7d' then
    if s.get (s.skipWhile Text.isAsciiBlank (j + 1)) == ':' then what.afterExpression else true
  else if s.get j == '\n' then
    match s.passComments? (j + 1) with
    | some k => s.startsStatement d what k
    | none => false
  else false

/-- A semicolon may be put in right after `i`, in the language without type syntax. -/
private def plainSemicolon (d : Dialect) (what : Semicolon) (s : Source) (i : Nat) : Bool :=
  go (s.size + 1 - i) i
where
  onward (i : Nat) : Bool :=
    match s.passComments? (i + 1) with
    | some k => s.startsStatement d what k
    | none => false
  go : Nat → Nat → Bool
    | 0, _ => false
    | fuel + 1, i =>
      let j := s.skipWhile (fun c => Text.isAsciiBlank c && c != '\n') i
      let c := s.get j
      if s.atEnd j || c == '\x7d' then true
      else if isLineBreak c then onward j
      else if c != '/' then false
      else
        let step (k : Nat) : Bool :=
          let e := s.get k
          if s.atEnd k then false
          else if e == '\x7d' then true
          else if isLineBreak e then onward k
          else if Text.isAsciiBlank e then go fuel (k + 1)
          else false
        match s.passComment j with
        | .blocked => false
        | .newLine k =>
          if !what.afterExpression && s.get k != ',' && s.get k != '=' then true else step k
        | .sameLine k => step k

/-- The place of the semicolon put in after a token that ends at `i`. -/
def semicolonAt? (d : Dialect) (what : Semicolon) (s : Source) (i : Nat) : Option Nat :=
  go (s.size + 1 - i) i
where
  go : Nat → Nat → Option Nat
    | 0, _ => none
    | fuel + 1, i =>
      if if d.isTyped then s.typedSemicolon d what i else s.plainSemicolon d what i then some i
      else match s.commentEnd? (s.skipWhile isGap i) with
        | some k => go fuel k
        | none => none

end Source

end ReactCatalog
