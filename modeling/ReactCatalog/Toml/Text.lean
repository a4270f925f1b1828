/-!
# Texts and keys in TOML

Reading strings and keys. A reader takes what it can from the beginning and answers with the rest.
-/

namespace ReactCatalog.Toml

def isWs (c : Char) : Bool := c == ' ' || c == '\t'

def skipWs (cs : List Char) : List Char := cs.dropWhile isWs

/-- One line end. -/
def newline? : List Char → Option (List Char)
  | '\n' :: r => some r
  | '\r' :: '\n' :: r => some r
  | _ => none

/-- A character that may stand in comments and literal strings. -/
def isPrintable (c : Char) : Bool := c == '\t' || (0x20 ≤ c.toNat && c.toNat != 0x7f)

/-- A comment, up to the end of its line. -/
def comment? : List Char → Option (List Char)
  | '#' :: r => some (r.dropWhile isPrintable)
  | _ => none

private def hexValue? (c : Char) : Option Nat :=
  if '0' ≤ c && c ≤ '9' then some (c.toNat - '0'.toNat)
  else if 'a' ≤ c && c ≤ 'f' then some (c.toNat - 'a'.toNat + 10)
  else if 'A' ≤ c && c ≤ 'F' then some (c.toNat - 'A'.toNat + 10)
  else none

/-- The character with a code of `n` hexadecimal digits. -/
private def scalar? (n : Nat) (cs : List Char) : Option (Char × List Char) := do
  let digits ← (cs.take n).mapM hexValue?
  let code := digits.foldl (fun a d => a * 16 + d) 0
  if digits.length = n ∧ code.isValidChar then pure (Char.ofNat code, cs.drop n) else none

/-- The character of an escape, after the backslash. -/
def escape? : List Char → Option (Char × List Char)
  | 'b' :: r => some ('\x08', r)
  | 't' :: r => some ('\t', r)
  | 'n' :: r => some ('\n', r)
  | 'f' :: r => some ('\x0c', r)
  | 'r' :: r => some ('\r', r)
  | '"' :: r => some ('"', r)
  | '\\' :: r => some ('\\', r)
  | 'u' :: r => scalar? 4 r
  | 'U' :: r => scalar? 8 r
  | _ => none

/-- The rest of a string in double quotes, after the opening one. -/
def basicRest? : Nat → List Char → List Char → Option (String × List Char)
  | 0, _, _ => none
  | _ + 1, _, [] => none
  | fuel + 1, acc, c :: r =>
    if c = '"' then some (String.ofList acc.reverse, r)
    else if c = '\\' then
      match escape? r with
      | some (d, r) => basicRest? fuel (d :: acc) r
      | none => none
    else if isPrintable c then basicRest? fuel (c :: acc) r
    else none

/-- The rest of a string in single quotes, after the opening one. -/
def literalRest? (cs : List Char) : Option (String × List Char) :=
  let body := cs.takeWhile fun c => isPrintable c && c != '\''
  match cs.drop body.length with
  | '\'' :: r => some (String.ofList body, r)
  | _ => none

/-- Drop blanks and line ends. -/
private def skipLines : Nat → List Char → List Char
  | 0, cs => cs
  | fuel + 1, cs =>
    match newline? (skipWs cs) with
    | some r => skipLines fuel r
    | none => skipWs cs

/-- The rest of a string in three double quotes. A backslash at the end of a line joins it to the next. Up to two
quotes may stand before the closing three. -/
def longBasicRest? : Nat → List Char → List Char → Option (String × List Char)
  | 0, _, _ => none
  | _ + 1, _, [] => none
  | fuel + 1, acc, c :: r =>
    if c = '"' then
      let quotes := 1 + (r.takeWhile (· == '"')).length
      if 6 ≤ quotes then some (String.ofList (acc.reverse ++ ['"', '"']), r.drop 4)
      else if 3 ≤ quotes then
        some (String.ofList (acc.reverse ++ List.replicate (quotes - 3) '"'), r.drop (quotes - 1))
      else longBasicRest? fuel (c :: acc) r
    else if c = '\\' then
      match newline? (skipWs r) with
      | some r' => longBasicRest? fuel acc (skipLines r'.length r')
      | none =>
        match escape? r with
        | some (d, r) => longBasicRest? fuel (d :: acc) r
        | none => none
    else
      match newline? (c :: r) with
      | some r' => longBasicRest? fuel ('\n' :: acc) r'
      | none => if isPrintable c then longBasicRest? fuel (c :: acc) r else none

/-- The rest of a string in three single quotes. -/
def longLiteralRest? : Nat → List Char → List Char → Option (String × List Char)
  | 0, _, _ => none
  | _ + 1, _, [] => none
  | fuel + 1, acc, c :: r =>
    if c = '\'' then
      let quotes := 1 + (r.takeWhile (· == '\'')).length
      if 6 ≤ quotes then some (String.ofList (acc.reverse ++ ['\'', '\'']), r.drop 4)
      else if 3 ≤ quotes then
        some (String.ofList (acc.reverse ++ List.replicate (quotes - 3) '\''), r.drop (quotes - 1))
      else longLiteralRest? fuel (c :: acc) r
    else
      match newline? (c :: r) with
      | some r' => longLiteralRest? fuel ('\n' :: acc) r'
      | none => if isPrintable c then longLiteralRest? fuel (c :: acc) r else none

private def withoutFirstNewline (cs : List Char) : List Char := (newline? cs).getD cs

/-- A string of any of the four forms. -/
def string? : List Char → Option (String × List Char)
  | '"' :: '"' :: '"' :: r => longBasicRest? (r.length + 1) [] (withoutFirstNewline r)
  | '\'' :: '\'' :: '\'' :: r => longLiteralRest? (r.length + 1) [] (withoutFirstNewline r)
  | '"' :: r => basicRest? (r.length + 1) [] r
  | '\'' :: r => literalRest? r
  | _ => none

def isBareKey (c : Char) : Bool := c.isAlphanum || c == '-' || c == '_'

/-- One part of a key. -/
def simpleKey? : List Char → Option (String × List Char)
  | '"' :: r => basicRest? (r.length + 1) [] r
  | '\'' :: r => literalRest? r
  | cs =>
    let word := cs.takeWhile isBareKey
    if word.isEmpty then none else some (String.ofList word, cs.drop word.length)

/-- How many parts a key may have, and how deep values may nest. -/
def depthLimit : Nat := 79

/-- Parts of a key with dots between them and blanks around them. -/
def key? (cs : List Char) : Option (List String × List Char) :=
  go depthLimit cs
where
  go : Nat → List Char → Option (List String × List Char)
    | 0, _ => none
    | more + 1, cs =>
      match simpleKey? (skipWs cs) with
      | none => none
      | some (k, r) =>
        match skipWs r with
        | '.' :: r => (go more r).map fun p => (k :: p.1, p.2)
        | r => some ([k], r)

end ReactCatalog.Toml
