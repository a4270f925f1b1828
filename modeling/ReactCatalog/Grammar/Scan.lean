import ReactCatalog.Text.Blank
import ReactCatalog.Syntax.Node

/-!
# Scanning characters

Functions from a position in a source to the end of what stands there: blanks, comments, words, numbers,
strings, regular expressions, element text. None of them builds a tree.
-/

namespace ReactCatalog

/-- The language of a source file. -/
inductive Dialect where
  | javascript | typescript | tsx
  deriving DecidableEq, Repr, Inhabited

/-- Type syntax is part of the language. -/
def Dialect.isTyped (d : Dialect) : Bool := d != .javascript

/-- Element syntax is part of the language. -/
def Dialect.hasElements (d : Dialect) : Bool := d != .typescript

namespace Source

/-- The character at a position; NUL past the end. -/
def get (s : Source) (i : Nat) : Char := s.chars.getD i '\x00'

def atEnd (s : Source) (i : Nat) : Bool := s.size ≤ i

/-- First position from `i` on whose character fails `p`. -/
def skipWhile (s : Source) (p : Char → Bool) (i : Nat) : Nat :=
  if h : i < s.size then if p (s.get i) then s.skipWhile p (i + 1) else i else i
termination_by s.size - i
decreasing_by omega

/-- The text `t` stands at `i`. -/
def hasAt (s : Source) (t : List Char) (i : Nat) : Bool :=
  match t with
  | [] => true
  | c :: r => !s.atEnd i && s.get i == c && s.hasAt r (i + 1)

def isLineBreak (c : Char) : Bool := c == '\n' || c == '\u2028' || c == '\u2029'

/-- Blanks that may separate tokens: White_Space and three characters of no width. -/
def isGap (c : Char) : Bool :=
  Text.isBlank c || c == '\ufeff' || c == '\u2060' || c == '\u200b'

/-- After the `*/` that ends a block comment whose inside starts at `i`. -/
def blockEnd? (s : Source) (i : Nat) : Option Nat :=
  if _h : i < s.size then
    if s.get i == '*' && s.get (i + 1) == '/' then some (i + 2) else s.blockEnd? (i + 1)
  else none
termination_by s.size - i
decreasing_by omega

/-- The end of the comment that starts at `i`. -/
def commentEnd? (s : Source) (i : Nat) : Option Nat :=
  if s.get i == '/' then
    if s.get (i + 1) == '/' then some (s.skipWhile (fun c => !(isLineBreak c || c == '\r')) (i + 2))
    else if s.get (i + 1) == '*' then s.blockEnd? (i + 2)
    else none
  else none

/-- The spans of the comments from `i` on, with only gaps between them, and the start of the next token. -/
def trivia (s : Source) (i : Nat) : List Span × Nat :=
  go (s.size - i) i
where
  go : Nat → Nat → List Span × Nat
    | 0, i => ([], s.skipWhile isGap i)
    | fuel + 1, i =>
      let j := s.skipWhile isGap i
      match s.commentEnd? j with
      | some k => let r := go fuel k; (⟨j, k⟩ :: r.1, r.2)
      | none => ([], j)

/-- Start of the next token. -/
def tokenStart (s : Source) (i : Nat) : Nat := (s.trivia i).2

/-! ## Words -/

private def wordBreaks : List Char := ":;`\"'@#.,|^&<=>+-*/\\%?!~()[]\x7b\x7d".toList

/-- Characters of words other than escapes. -/
def isWordChar (c : Char) : Bool :=
  0x1f < c.toNat && !isGap c && !wordBreaks.contains c

def isDigit (c : Char) : Bool := '0' ≤ c && c ≤ '9'

def isHexDigit (c : Char) : Bool :=
  isDigit c || ('a' ≤ c && c ≤ 'f') || ('A' ≤ c && c ≤ 'F')

def isAsciiLetter (c : Char) : Bool := ('a' ≤ c && c ≤ 'z') || ('A' ≤ c && c ≤ 'Z')

/-- The end of a Unicode escape `\uXXXX` or `\u{X…}` at `i`. -/
def unicodeEscapeEnd? (s : Source) (i : Nat) : Option Nat :=
  if s.get i == '\\' && s.get (i + 1) == 'u' then
    if s.get (i + 2) == '\x7b' then
      let j := s.skipWhile isHexDigit (i + 3)
      if i + 3 < j && s.get j == '\x7d' then some (j + 1) else none
    else if [2, 3, 4, 5].all fun k => isHexDigit (s.get (i + k)) then some (i + 6) else none
  else none

/-- The end of the rest of a word. -/
def wordRest (s : Source) (i : Nat) : Nat :=
  go (s.size - i) i
where
  go : Nat → Nat → Nat
    | 0, i => i
    | fuel + 1, i =>
      if s.atEnd i then i
      else if isWordChar (s.get i) then go fuel (i + 1)
      else match s.unicodeEscapeEnd? i with
        | some j => go fuel j
        | none => i

/-- The end of the word that starts at `i`. -/
def wordEnd? (s : Source) (i : Nat) : Option Nat :=
  if s.atEnd i || isDigit (s.get i) then none
  else
    let j := s.wordRest i
    if i < j then some j else none

/-! ## Numbers -/

/-- Digits of one class, single underscores allowed between them. -/
def digitsEnd? (s : Source) (p : Char → Bool) (i : Nat) : Option Nat :=
  if p (s.get i) then some (go (s.size - i) (i + 1)) else none
where
  go : Nat → Nat → Nat
    | 0, i => i
    | fuel + 1, i =>
      if p (s.get i) then go fuel (i + 1)
      else if s.get i == '_' && p (s.get (i + 1)) then go fuel (i + 2)
      else i

def exponentEnd? (s : Source) (i : Nat) : Option Nat :=
  if s.get i == 'e' || s.get i == 'E' then
    if s.get (i + 1) == '+' || s.get (i + 1) == '-' then s.digitsEnd? isDigit (i + 2)
    else s.digitsEnd? isDigit (i + 1)
  else none

private def bigEnd (s : Source) (i : Nat) : Nat := if s.get i == 'n' then i + 1 else i

private def radixEnd? (s : Source) (letters : List Char) (p : Char → Bool) (i : Nat) : Option Nat :=
  if s.get i == '0' && letters.contains (s.get (i + 1)) then (s.digitsEnd? p (i + 2)).map s.bigEnd else none

private def decimalEnd? (s : Source) (i : Nat) : Option Nat :=
  if s.get i == '.' then
    (s.digitsEnd? isDigit (i + 1)).map fun j => (s.exponentEnd? j).getD j
  else
    (s.digitsEnd? isDigit i).map fun j =>
      let plain := !(s.get i == '0' && i + 1 < j && (s.get (i + 1) == '0' || s.get (i + 1) == '_'))
      if plain && s.get j == '.' then
        let k := (s.digitsEnd? isDigit (j + 1)).getD (j + 1)
        (s.exponentEnd? k).getD k
      else match if plain then s.exponentEnd? j else none with
        | some k => k
        | none => s.bigEnd j

/-- The end of the number that starts at `i`. -/
def numberEnd? (s : Source) (i : Nat) : Option Nat :=
  (s.radixEnd? ['x', 'X'] isHexDigit i) <|>
  (s.radixEnd? ['b', 'B'] (fun c => c == '0' || c == '1') i) <|>
  (s.radixEnd? ['o', 'O'] (fun c => '0' ≤ c && c ≤ '7') i) <|>
  s.decimalEnd? i

/-! ## Inside strings, templates, regular expressions and elements -/

/-- The end of the escape that starts with the backslash at `i`. -/
def escapeEnd? (s : Source) (i : Nat) : Option Nat :=
  let c := s.get (i + 1)
  if s.get i != '\\' || s.atEnd (i + 1) then none
  else if c == 'x' then
    if isHexDigit (s.get (i + 2)) && isHexDigit (s.get (i + 3)) then some (i + 4) else none
  else if c == 'u' then s.unicodeEscapeEnd? i
  else if '0' ≤ c && c ≤ '7' then
    let octal := fun k => '0' ≤ s.get (i + k) && s.get (i + k) ≤ '7'
    if octal 2 then some (if octal 3 then i + 4 else i + 3) else some (i + 2)
  else if c == '\r' && isLineBreak (s.get (i + 2)) then some (i + 3)
  else some (i + 2)

/-- The end of the pattern of a regular expression, up to its closing slash. -/
def regexEnd? (s : Source) (i : Nat) : Option Nat :=
  go (s.size - i) false i
where
  go : Nat → Bool → Nat → Option Nat
    | 0, _, _ => none
    | fuel + 1, inClass, i =>
      let c := s.get i
      if s.atEnd i || c == '\n' then none
      else if c == '\\' then if s.atEnd (i + 1) || s.get (i + 1) == '\n' then none else go fuel inClass (i + 2)
      else if inClass then go fuel (c != ']') (i + 1)
      else if c == '[' then go fuel true (i + 1)
      else if c == '/' then some i
      else go fuel false (i + 1)

/-- The end of a character reference such as `&amp;` at `i`. -/
def referenceEnd? (s : Source) (i : Nat) : Option Nat :=
  let closed (start least most : Nat) (p : Char → Bool) : Option Nat :=
    let j := s.skipWhile p start
    if least ≤ j - start && j - start ≤ most && s.get j == ';' then some (j + 1) else none
  if s.get i == '&' then
    if s.get (i + 1) == '#' then
      if s.get (i + 2) == 'x' || s.get (i + 2) == 'X' then closed (i + 3) 1 6 isHexDigit
      else closed (i + 2) 1 5 isDigit
    else closed (i + 1) 1 30 isAsciiLetter
  else none

/-- The end of element text at `i`. Blanks from a line feed on are no text by themselves. -/
def elementTextEnd? (s : Source) (i : Nat) : Option Nat :=
  let j := s.skipWhile (fun c => !(c == '<' || c == '>' || c == '\x7b' || c == '\x7d' || c == '&')) i
  if (scan (s.slice i j) false) then some j else none
where
  scan : List Char → Bool → Bool
    | [], _ => false
    | c :: r, fresh =>
      if c == '\n' then scan r true
      else if fresh && Text.isAsciiBlank c then scan r true
      else true

end Source

end ReactCatalog
