import ReactCatalog.Data.Written

/-!
# Reading JSON

`readWritten?` accepts exactly one value with blanks around it. Numbers too large for a double and strings with half
of a surrogate pair are written values that stand for none, and so are objects with such keys. `read?` asks for
the value itself: arrays and objects nest at most 127 deep, and the last of several members with one key stays.

A number without fraction and exponent is whole if it fits into 64 bits, with `-0` as the only exception. Every
other number is a double: its digits as far as they fit into 64 bits, made a double, then multiplied or divided
by a power of ten.
-/

namespace ReactCatalog.Json

namespace Reader

abbrev Result (α : Type) := Option (α × List Char)

def isBlank (c : Char) : Bool := c == ' ' || c == '\n' || c == '\t' || c == '\r'

def skip (cs : List Char) : List Char := cs.dropWhile isBlank

def isDigit (c : Char) : Bool := '0' ≤ c && c ≤ '9'

def digitValue (c : Char) : Nat := c.toNat - '0'.toNat

/-! ## Numbers -/

def maxWord : Nat := Nat.pow 2 64 - 1

/-- Digits taken into a 64-bit significand; how many were taken and what is left when the next one does not fit. -/
def takeDigits (n taken : Nat) : List Char → Nat × Nat × List Char
  | c :: r =>
    if isDigit c then
      let m := n * 10 + digitValue c
      if maxWord < m then (n, taken, c :: r) else takeDigits m (taken + 1) r
    else (n, taken, c :: r)
  | [] => (n, taken, [])

/-- Multiply or divide by a power of ten, in steps that a double can hold. -/
def scale? : Nat → Double → Int → Option Double
  | 0, x, _ => some x
  | fuel + 1, x, e =>
    if e.natAbs ≤ 308 then
      (Double.powerOfTen? e.natAbs).bind fun p => if 0 ≤ e then x.mul? p else x.div? p
    else if x.isZero then some x
    else if 0 ≤ e then none
    else ((Double.powerOfTen? 308).bind x.div?).bind fun y => scale? fuel y (e + 308)

def float? (negative : Bool) (significand : Nat) (e : Int) : Option Double :=
  ((Double.ofNat? significand).bind fun x => scale? 5 x e).map fun x => if negative then x.neg else x

def floatOrBroken (negative : Bool) (significand : Nat) (e : Int) : Written :=
  ((float? negative significand e).map .float).getD .broken

def exponent? (negative : Bool) (significand : Nat) (e : Int) (cs : List Char) : Result Written :=
  let (down, cs) := match cs with
    | '+' :: r => (false, r)
    | '-' :: r => (true, r)
    | _ => (false, cs)
  let digits := cs.takeWhile isDigit
  let rest := cs.dropWhile isDigit
  if digits.isEmpty then none
  else
    let n := digits.foldl (fun n c => n * 10 + digitValue c) 0
    if Nat.pow 2 31 ≤ n ∧ significand ≠ 0 ∧ !down then some (.broken, rest)
    else if Nat.pow 2 31 ≤ n then some (.float ⟨negative, 0, Double.minExponent⟩, rest)
    else some (floatOrBroken negative significand (if down then e - n else e + n), rest)

def exponentOr? (negative : Bool) (significand : Nat) (e : Int) (cs : List Char) : Result Written :=
  match cs with
  | 'e' :: r => exponent? negative significand e r
  | 'E' :: r => exponent? negative significand e r
  | _ => some (floatOrBroken negative significand e, cs)

def fraction? (negative : Bool) (significand : Nat) (e : Int) (cs : List Char) : Result Written :=
  let (n, taken, rest) := takeDigits significand 0 cs
  if taken = 0 ∧ !(rest.head?.map isDigit).getD false then none
  else exponentOr? negative n (e - taken) (rest.dropWhile isDigit)

def whole (negative : Bool) (n : Nat) : Written :=
  if !negative then .int n
  else if n = 0 ∨ Nat.pow 2 63 < n then .float (((Double.ofNat? n).getD .zero).neg)
  else .int (-n)

/-- A number after the digits before its point, of which some may be too many for the significand. -/
def afterDigits? (negative : Bool) (n dropped : Nat) (cs : List Char) : Result Written :=
  match cs with
  | '.' :: r => fraction? negative n dropped r
  | 'e' :: _ => exponentOr? negative n dropped cs
  | 'E' :: _ => exponentOr? negative n dropped cs
  | _ => if dropped = 0 then some (whole negative n, cs)
    else some (floatOrBroken negative n dropped, cs)

/-- A number after its sign. -/
def unsigned? (negative : Bool) (cs : List Char) : Result Written :=
  match cs with
  | '0' :: r => if (r.head?.map isDigit).getD false then none else afterDigits? negative 0 0 r
  | c :: _ =>
    if isDigit c then
      let (n, _, rest) := takeDigits 0 0 cs
      let more := rest.takeWhile isDigit
      afterDigits? negative n more.length (rest.dropWhile isDigit)
    else none
  | [] => none

def number? : List Char → Result Written
  | '-' :: r => unsigned? true r
  | cs => unsigned? false cs

/-! ## Strings -/

def hexValue? (c : Char) : Option Nat :=
  if isDigit c then some (digitValue c)
  else if 'a' ≤ c && c ≤ 'f' then some (c.toNat - 'a'.toNat + 10)
  else if 'A' ≤ c && c ≤ 'F' then some (c.toNat - 'A'.toNat + 10)
  else none

def unit? : List Char → Option (Nat × List Char)
  | a :: b :: c :: d :: r => do
    let a ← hexValue? a
    let b ← hexValue? b
    let c ← hexValue? c
    let d ← hexValue? d
    pure (((a * 16 + b) * 16 + c) * 16 + d, r)
  | _ => none

/-- The character of a `\u` escape; two escapes make one character beyond the basic plane, and half of such a pair
is none. -/
def unicode? (cs : List Char) : Option (Option Char × List Char) := do
  let (n, r) ← unit? cs
  if 0xdc00 ≤ n ∧ n ≤ 0xdfff then pure (none, r)
  else if 0xd800 ≤ n ∧ n ≤ 0xdbff then
    match r with
    | '\\' :: 'u' :: r' =>
      let (m, r') ← unit? r'
      if 0xdc00 ≤ m ∧ m ≤ 0xdfff then
        pure (some (Char.ofNat (0x10000 + (n - 0xd800) * 0x400 + (m - 0xdc00))), r')
      else pure (none, r)
    | _ => pure (none, r)
  else pure (some (Char.ofNat n), r)

def escape? : List Char → Result (Option Char)
  | '"' :: r => some (some '"', r)
  | '\\' :: r => some (some '\\', r)
  | '/' :: r => some (some '/', r)
  | 'b' :: r => some (some '\x08', r)
  | 'f' :: r => some (some '\x0c', r)
  | 'n' :: r => some (some '\n', r)
  | 'r' :: r => some (some '\r', r)
  | 't' :: r => some (some '\t', r)
  | 'u' :: r => unicode? r
  | _ => none

/-- The rest of a string after its opening quote. -/
def stringRest? : Nat → List (Option Char) → List Char → Result (Option String)
  | 0, _, _ => none
  | _ + 1, _, [] => none
  | fuel + 1, acc, c :: r =>
    if c == '"' then some ((acc.reverse.mapM id).map String.ofList, r)
    else if c == '\\' then
      match escape? r with
      | some (d, r) => stringRest? fuel (d :: acc) r
      | none => none
    else if c.toNat < 0x20 then none
    else stringRest? fuel (some c :: acc) r

/-- A string in quotes; none if some escape is no character. -/
def string? : List Char → Result (Option String)
  | '"' :: r => stringRest? (r.length + 1) [] r
  | _ => none

/-! ## Values -/

def word? (w : String) (v : Written) (cs : List Char) : Result Written :=
  if w.toList.isPrefixOf cs then some (v, cs.drop w.length) else none

def items? (item : List Char → Result Written) : Nat → List Written → List Char → Result Written
  | 0, _, _ => none
  | fuel + 1, acc, cs =>
    match item cs with
    | none => none
    | some (v, r) =>
      match skip r with
      | ',' :: r => items? item fuel (v :: acc) r
      | ']' :: r => some (.array (v :: acc).reverse, r)
      | _ => none

def member? (item : List Char → Result Written) (cs : List Char) :
    Option ((Option String × Written) × List Char) := do
  let (k, r) ← string? (skip cs)
  match skip r with
  | ':' :: r =>
    let (v, r) ← item r
    pure ((k, v), r)
  | _ => none

/-- Members under keys that are strings. -/
def objectOf (members : List (Option String × Written)) : Written :=
  match members.mapM fun m => m.1.map fun k => (k, m.2) with
  | some ms => .object ms
  | none => .broken

def members? (item : List Char → Result Written) :
    Nat → List (Option String × Written) → List Char → Result Written
  | 0, _, _ => none
  | fuel + 1, acc, cs =>
    match member? item cs with
    | none => none
    | some (m, r) =>
      match skip r with
      | ',' :: r => members? item fuel (m :: acc) r
      | '\x7d' :: r => some (objectOf (m :: acc).reverse, r)
      | _ => none

/-- A value, with containers nested less than `depth` deep. -/
def value? : Nat → List Char → Result Written
  | depth, cs =>
    match skip cs with
    | '"' :: r => (string? ('"' :: r)).map fun p => ((p.1.map .string).getD .broken, p.2)
    | '[' :: r =>
      match depth with
      | 0 => none
      | depth + 1 =>
        match skip r with
        | ']' :: r => some (.array [], r)
        | _ => items? (value? depth) (r.length + 1) [] r
    | '\x7b' :: r =>
      match depth with
      | 0 => none
      | depth + 1 =>
        match skip r with
        | '\x7d' :: r => some (.object [], r)
        | _ => members? (value? depth) (r.length + 1) [] r
    | 't' :: r => word? "true" (.bool true) ('t' :: r)
    | 'f' :: r => word? "false" (.bool false) ('f' :: r)
    | 'n' :: r => word? "null" .null ('n' :: r)
    | cs => number? cs

end Reader

/-- How deep arrays and objects may nest. -/
def depthLimit : Nat := 127

/-- Read one value, as written. -/
def readWritten? (text : String) : Option Written :=
  let cs := text.toList
  match Reader.value? (cs.length + 1) cs with
  | some (v, r) => if (Reader.skip r).isEmpty then some v else none
  | none => none

/-- Read one value. -/
def read? (text : String) : Option Json := (readWritten? text).bind (Written.value? depthLimit)

end ReactCatalog.Json
