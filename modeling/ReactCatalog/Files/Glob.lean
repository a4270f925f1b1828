import ReactCatalog.Text.Utf8

/-!
# Patterns for file names

A pattern is read into tokens and matched against the bytes of a relative name. `*` stands for any bytes and `?`
for any one byte, slashes included; `**` as a whole component stands for any number of components. A class lists
the bytes of its characters, and braces hold alternatives, of which empty ones do not count.

A path that ends in a dot has neither a name nor an extension. So a pattern that ends in a dot matches only if it
spells out the end of the path as such.
-/

namespace ReactCatalog.Glob

inductive Token where
  | literal (c : Char)
  | any
  | star
  /-- `**/` at the beginning. -/
  | leading
  /-- `/**` at the end. -/
  | trailing
  /-- `/**/` in between. -/
  | between
  | oneOf (negated : Bool) (ranges : List (Char × Char))
  | choice (alternatives : List (List Token))
  deriving Inhabited

/-! ## Reading patterns -/

/-- Pattern text that is being read. -/
structure Draft where
  /-- Alternatives being read, the innermost first; the last is the pattern itself. -/
  branches : List (List Token) := [[]]
  /-- How many branches there were when each open brace was read, the innermost first. -/
  braces : List Nat := []
  /-- The character read before the present one. -/
  last : Option Char := none

namespace Draft

def push (d : Draft) (t : Token) : Draft :=
  match d.branches with
  | b :: rest => { d with branches := (b ++ [t]) :: rest }
  | [] => { d with branches := [[t]] }

/-- Tokens of the innermost branch. -/
def top (d : Draft) : List Token := d.branches.headD []

def openBrace (d : Draft) : Draft := { d with branches := [] :: d.branches, braces := d.branches.length :: d.braces }

/-- Close the innermost brace. -/
def closeBrace? (d : Draft) : Option Draft :=
  match d.braces with
  | [] => none
  | n :: braces =>
    let count := d.branches.length - n
    let alternatives := (d.branches.take count).reverse
    some (push { d with branches := d.branches.drop count, braces := braces } (.choice alternatives))

def comma (d : Draft) : Draft :=
  if d.braces.isEmpty then d.push (.literal ',') else { d with branches := [] :: d.branches }

/-- Replace the last token by the one for `**` between slashes, unless it already stands for components. -/
def deepen (d : Draft) (atEnd : Bool) : Draft :=
  match d.branches with
  | b :: rest =>
    let t := match b.getLast? with
      | some .leading => .leading
      | some .trailing => .trailing
      | _ => if atEnd then .trailing else .between
    { d with branches := (b.dropLast ++ [t]) :: rest }
  | [] => d

end Draft

/-- The rest of a class after `[` and a possible `!` or `^`. A bracket or a dash that comes first is meant
literally, as is a dash at the end. -/
def readClass (first inRange : Bool) (ranges : List (Char × Char)) :
    List Char → Option (List (Char × Char) × List Char)
  | [] => none
  | c :: r =>
    let close (hi : Char) : Option (List (Char × Char)) :=
      match ranges with
      | (lo, _) :: more => if hi < lo then none else some ((lo, hi) :: more)
      | [] => none
    if c = ']' ∧ !first then
      some ((if inRange then ('-', '-') :: ranges else ranges).reverse, r)
    else if c = '-' ∧ !first ∧ !inRange then readClass false true ranges r
    else if inRange then
      match close c with
      | some ranges => readClass false false ranges r
      | none => none
    else readClass false false ((c, c) :: ranges) r

private def twoStars (d : Draft) : Draft := (d.push .star).push .star

/-- Read one token. Answers with the rest of the text. -/
def readToken (d : Draft) : List Char → Option (Draft × List Char)
  | [] => none
  | '?' :: r => some ({ d.push .any with last := some '?' }, r)
  | '*' :: '*' :: r =>
    let after (d : Draft) (r : List Char) (c : Char) : Option (Draft × List Char) := some ({ d with last := some c }, r)
    if d.top.isEmpty then
      match r with
      | [] => after (d.push .leading) [] '*'
      | '/' :: r => after (d.push .leading) r '/'
      | _ => after (twoStars d) r '*'
    else if d.last ≠ some '/' ∧ (d.branches.length ≤ 1 ∨ (d.last ≠ some ',' ∧ d.last ≠ some '\x7b')) then
      after (twoStars d) r '*'
    else
      match r with
      | [] => after (d.deepen true) [] '*'
      | '/' :: r => after (d.deepen false) r '/'
      | c :: _ =>
        if (c = ',' ∨ c = '\x7d') ∧ 2 ≤ d.branches.length then after (d.deepen true) r '*'
        else after (twoStars d) r '*'
  | '*' :: r => some ({ d.push .star with last := some '*' }, r)
  | '[' :: r =>
    let (negated, r) := match r with
      | '!' :: r => (true, r)
      | '^' :: r => (true, r)
      | _ => (false, r)
    (readClass true false [] r).map fun p => ({ d.push (.oneOf negated p.1) with last := some ']' }, p.2)
  | '\x7b' :: r => some ({ d.openBrace with last := some '\x7b' }, r)
  | '\x7d' :: r => d.closeBrace?.map fun d => ({ d with last := some '\x7d' }, r)
  | ',' :: r => some ({ d.comma with last := some ',' }, r)
  | '\\' :: r =>
    match r with
    | c :: r => some ({ d.push (.literal c) with last := some c }, r)
    | [] => none
  | c :: r => some ({ d.push (.literal c) with last := some c }, r)

private def readTokens : Nat → Draft → List Char → Option Draft
  | _, d, [] => some d
  | 0, _, _ => none
  | fuel + 1, d, cs =>
    match readToken d cs with
    | some (d, r) => readTokens fuel d r
    | none => none

/-- The tokens of a pattern; none if brackets, braces or a backslash are left open. -/
def read? (pattern : String) : Option (List Token) :=
  match readTokens pattern.length {} pattern.toList with
  | some ⟨[tokens], _, _⟩ => some tokens
  | _ => none

/-! ## Matching -/

private def slash : UInt8 := 0x2f

/-- What may be left after any number of bytes. -/
def tails : List UInt8 → List (List UInt8)
  | [] => [[]]
  | b :: r => (b :: r) :: tails r

/-- What may be left after any bytes that end in a slash. -/
def afterSlash : List UInt8 → List (List UInt8)
  | [] => []
  | b :: r => if b = slash then r :: afterSlash r else afterSlash r

private def distinct (rests : List (List UInt8)) : List (List UInt8) :=
  rests.foldl (fun acc r => if acc.any fun a => a.length == r.length then acc else acc ++ [r]) []

/-- The byte ranges of a class: the bytes of each character, with a range from the last byte of its first to the
first byte of its second character. -/
def byteRanges (r : Char × Char) : List (UInt8 × UInt8) :=
  let single (b : UInt8) := (b, b)
  let lo := String.utf8EncodeChar r.1
  let hi := String.utf8EncodeChar r.2
  if r.1 = r.2 then lo.map single
  else lo.dropLast.map single ++ [(lo.getLastD 0, hi.headD 0)] ++ (hi.drop 1).map single

mutual

/-- Nothing has to be read for it. -/
def Token.isVoid : Token → Bool
  | .choice alternatives => areVoid alternatives
  | _ => false

def isVoid : List Token → Bool
  | [] => true
  | t :: ts => t.isVoid && isVoid ts

def areVoid : List (List Token) → Bool
  | [] => true
  | a :: rest => isVoid a && areVoid rest

end

mutual

/-- What may be left of a name after the token. -/
def Token.rests : Token → List UInt8 → List (List UInt8)
  | .literal c, s =>
    let bytes := String.utf8EncodeChar c
    if bytes.isPrefixOf s then [s.drop bytes.length] else []
  | .any, s =>
    match s with
    | _ :: r => [r]
    | [] => []
  | .star, s => tails s
  | .leading, s => s :: afterSlash s
  | .trailing, s =>
    match s with
    | b :: r => if b = slash then tails r else []
    | [] => []
  | .between, s =>
    match s with
    | b :: r => if b = slash then r :: afterSlash r else []
    | [] => []
  | .oneOf negated ranges, s =>
    match s with
    | b :: r =>
      if (ranges.flatMap byteRanges).any (fun p => p.1 ≤ b && b ≤ p.2) != negated then [r] else []
    | [] => []
  | .choice alternatives, s => if areVoid alternatives then [s] else choiceRests alternatives s

/-- What may be left of a name after the tokens. -/
def rests : List Token → List UInt8 → List (List UInt8)
  | [], s => [s]
  | t :: ts, s => distinct ((t.rests s).flatMap (rests ts))

def choiceRests : List (List Token) → List UInt8 → List (List UInt8)
  | [], _ => []
  | a :: more, s => (if isVoid a then [] else rests a s) ++ choiceRests more s

end

private def isLiteral : Token → Bool
  | .literal _ => true
  | _ => false

private def isSlash : Token → Bool
  | .literal c => c == '/'
  | _ => false

private def endsInDot (ts : List Token) : Bool :=
  match ts.getLast? with
  | some (.literal c) => c == '.'
  | _ => false

/-- The pattern spells out how the whole path ends, without regard to names and extensions. -/
private def spellsEnd (ts : List Token) : Bool :=
  let after (rest : List Token) := rest.all isLiteral && 1 < rest.length
  match ts with
  | .leading :: .star :: rest => after rest
  | .star :: rest => after rest
  | .leading :: rest => rest.all isLiteral && rest.any isSlash
  | _ => ts.all isLiteral

/-- The pattern matches the relative name. -/
def covers (ts : List Token) (path : List UInt8) : Bool :=
  match ts with
  | [.leading] => true
  | _ => (rests ts path).any List.isEmpty && (!endsInDot ts || spellsEnd ts)

end ReactCatalog.Glob
