import ReactCatalog.Json.Value

/-!
# Writing JSON

Two layouts: compact, and spread over lines with two blanks for each level. Only what must be escaped is escaped.
-/

namespace ReactCatalog.Json

/-! ## Numbers -/

/-- How a decimal is laid out: plainly from the least to the greatest of these leading exponents, otherwise with
an exponent that always has a sign. -/
structure FloatLayout where
  leastPlain : Int
  greatestPlain : Int

/-- Numbers from a hundred-thousandth to below ten thousand million million are written plainly. -/
def floatLayout : FloatLayout := ⟨-5, 15⟩

private def zeros (n : Nat) : String := String.ofList (List.replicate n '0')

/-- The digits of a decimal with its point in place. -/
private def plainDecimal (digits : List Char) (top : Int) : String :=
  if top < 0 then "0." ++ zeros ((-top).toNat - 1) ++ String.ofList digits
  else
    let whole := top.toNat + 1
    if digits.length ≤ whole then String.ofList digits ++ zeros (whole - digits.length) ++ ".0"
    else String.ofList (digits.take whole) ++ "." ++ String.ofList (digits.drop whole)

private def scientific (digits : List Char) (top : Int) : String :=
  let head := String.ofList (digits.take 1)
  let tail := digits.drop 1
  let mantissa := if tail.isEmpty then head else head ++ "." ++ String.ofList tail
  mantissa ++ "e" ++ (if top < 0 then "-" else "+") ++ toString top.natAbs

def printDouble (x : Double) : String :=
  let d := x.shortest
  let digits := Nat.toDigits 10 d.digits
  let top := d.exponent + digits.length - 1
  let size :=
    if x.isZero then "0.0"
    else if floatLayout.leastPlain ≤ top ∧ top ≤ floatLayout.greatestPlain then plainDecimal digits top
    else scientific digits top
  if x.negative then "-" ++ size else size

/-! ## Strings -/

def hexDigit (n : Nat) : Char := "0123456789abcdef".toList.getD n '0'

/-- One character inside quotes. -/
def escapeChar (c : Char) : List Char :=
  match c with
  | '"' => ['\\', '"']
  | '\\' => ['\\', '\\']
  | '\n' => ['\\', 'n']
  | '\r' => ['\\', 'r']
  | '\t' => ['\\', 't']
  | '\x08' => ['\\', 'b']
  | '\x0c' => ['\\', 'f']
  | c => if c.toNat < 0x20 then ['\\', 'u', '0', '0', hexDigit (c.toNat / 16), hexDigit (c.toNat % 16)] else [c]

def quote (s : String) : String := String.ofList ('"' :: s.toList.flatMap escapeChar ++ ['"'])

/-! ## Values -/

def scalar : Json → String
  | .bool true => "true"
  | .bool false => "false"
  | .int n => toString n
  | .float x => printDouble x
  | .string s => quote s
  | _ => "null"

mutual

/-- The compact layout. -/
def compact : Json → String
  | .array items => "[" ++ compactItems items ++ "]"
  | .object members => "\x7b" ++ compactMembers members ++ "\x7d"
  | v => scalar v

def compactItems : List Json → String
  | [] => ""
  | [v] => compact v
  | v :: rest => compact v ++ "," ++ compactItems rest

def compactMembers : List (String × Json) → String
  | [] => ""
  | [(k, v)] => quote k ++ ":" ++ compact v
  | (k, v) :: rest => quote k ++ ":" ++ compact v ++ "," ++ compactMembers rest

end

def newLine (depth : Nat) : String := "\n" ++ String.ofList (List.replicate (2 * depth) ' ')

mutual

/-- The layout over lines, starting at a level. -/
def prettyAt (depth : Nat) : Json → String
  | .array [] => "[]"
  | .array (v :: rest) =>
    "[" ++ newLine (depth + 1) ++ prettyAt (depth + 1) v ++ prettyItems (depth + 1) rest ++ newLine depth ++ "]"
  | .object [] => "\x7b\x7d"
  | .object ((k, v) :: rest) =>
    "\x7b" ++ newLine (depth + 1) ++ quote k ++ ": " ++ prettyAt (depth + 1) v ++
      prettyMembers (depth + 1) rest ++ newLine depth ++ "\x7d"
  | v => scalar v

/-- Further items, each after a comma. -/
def prettyItems (depth : Nat) : List Json → String
  | [] => ""
  | v :: rest => "," ++ newLine depth ++ prettyAt depth v ++ prettyItems depth rest

/-- Further members, each after a comma. -/
def prettyMembers (depth : Nat) : List (String × Json) → String
  | [] => ""
  | (k, v) :: rest =>
    "," ++ newLine depth ++ quote k ++ ": " ++ prettyAt depth v ++ prettyMembers depth rest

end

/-- The layout over lines. -/
def pretty (v : Json) : String := prettyAt 0 v

end ReactCatalog.Json
