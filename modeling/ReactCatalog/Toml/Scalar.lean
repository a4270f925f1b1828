import ReactCatalog.Data.Written

/-!
# Numbers and dates in TOML

Whole numbers fit into 64 bits with a sign. Digits may be set apart by single underscores. A date or time is kept
as text, in one way of writing it.
-/

namespace ReactCatalog.Toml

private def isDigit (c : Char) : Bool := '0' ≤ c && c ≤ '9'

private def digitValue (c : Char) : Nat :=
  if isDigit c then c.toNat - '0'.toNat else c.toLower.toNat - 'a'.toNat + 10

/-- Digits with single underscores between them, at least one. -/
private def digits? (isOne : Char → Bool) (cs : List Char) : Option (List Char × List Char) :=
  match cs with
  | c :: r => if isOne c then some (go [c] r) else none
  | [] => none
where
  go (acc : List Char) : List Char → List Char × List Char
    | '_' :: c :: r => if isOne c then go (c :: acc) r else (acc.reverse, '_' :: c :: r)
    | c :: r => if isOne c then go (c :: acc) r else (acc.reverse, c :: r)
    | [] => (acc.reverse, [])

private def numeral (base : Nat) (ds : List Char) : Nat := ds.foldl (fun n c => n * base + digitValue c) 0

private def sign (cs : List Char) : Bool × List Char :=
  match cs with
  | '+' :: r => (false, r)
  | '-' :: r => (true, r)
  | _ => (false, cs)

/-- A whole number in decimal: its sign, its digits without leading zeros, and the rest. -/
private def decimal? (cs : List Char) : Option (Bool × List Char × List Char) :=
  let (negative, r) := sign cs
  match r with
  | '0' :: r => some (negative, ['0'], r)
  | _ => (digits? isDigit r).map fun p => (negative, p.1, p.2)

private def inBase? (base : Nat) (isOne : Char → Bool) (cs : List Char) : Option (Written × List Char) := do
  let (ds, r) ← digits? isOne cs
  let n := numeral base ds
  if n < Nat.pow 2 63 then pure (.int n, r) else none

private def isHex (c : Char) : Bool := isDigit c || ('a' ≤ c && c ≤ 'f') || ('A' ≤ c && c ≤ 'F')

def integer? : List Char → Option (Written × List Char)
  | '0' :: 'x' :: r => inBase? 16 isHex r
  | '0' :: 'o' :: r => inBase? 8 (fun c => '0' ≤ c && c ≤ '7') r
  | '0' :: 'b' :: r => inBase? 2 (fun c => c == '0' || c == '1') r
  | cs => do
    let (negative, ds, r) ← decimal? cs
    let n := numeral 10 ds
    if negative then (if n ≤ Nat.pow 2 63 then pure (.int (-n), r) else none)
    else if n < Nat.pow 2 63 then pure (.int n, r)
    else none

/-- An exponent; none if there is no mark of one. -/
private def exponentPart? : List Char → Option (Option (Int × List Char))
  | c :: r =>
    if c = 'e' ∨ c = 'E' then
      let (down, r) := sign r
      (digits? isDigit r).map fun p =>
        let n : Int := numeral 10 p.1
        some (if down then -n else n, p.2)
    else some none
  | [] => some none

/-- A finite number: none if it is too large, except below zero, where it counts as beyond every bound. -/
private def floatOf? (negative : Bool) (n : Nat) (e : Int) : Option Written :=
  match Double.ofDecimal? n e with
  | some x => some (.float { x with negative := negative })
  | none => if negative then some .unbounded else none

private def finite? (cs : List Char) : Option (Written × List Char) := do
  let (negative, whole, r) ← decimal? cs
  match r with
  | '.' :: r =>
    let (fraction, r) ← digits? isDigit r
    let n := numeral 10 (whole ++ fraction)
    match ← exponentPart? r with
    | some (e, r) => pure (← floatOf? negative n (e - fraction.length), r)
    | none => pure (← floatOf? negative n (-fraction.length), r)
  | _ =>
    match ← exponentPart? r with
    | some (e, r) => pure (← floatOf? negative (numeral 10 whole) e, r)
    | none => none

def float? (cs : List Char) : Option (Written × List Char) :=
  match (sign cs).2 with
  | 'i' :: 'n' :: 'f' :: r => some (.unbounded, r)
  | 'n' :: 'a' :: 'n' :: r => some (.unbounded, r)
  | _ => finite? cs

/-! ## Dates and times -/

/-- A number of exactly `n` digits. -/
private def fixed? (n : Nat) (cs : List Char) : Option (Nat × List Char) :=
  let ds := cs.take n
  if ds.length = n ∧ ds.all isDigit then some (numeral 10 ds, cs.drop n) else none

private def within? (lo hi : Nat) (cs : List Char) : Option (Nat × List Char) := do
  let (n, r) ← fixed? 2 cs
  if lo ≤ n ∧ n ≤ hi then pure (n, r) else none

private def expect? (c : Char) : List Char → Option (List Char)
  | d :: r => if c = d then some r else none
  | [] => none

private def daysIn (year month : Nat) : Nat :=
  if month = 2 then (if year % 4 = 0 ∧ (year % 100 ≠ 0 ∨ year % 400 = 0) then 29 else 28)
  else if [4, 6, 9, 11].contains month then 30
  else 31

private def padded (width n : Nat) : String :=
  let s := toString n
  String.ofList (List.replicate (width - s.length) '0') ++ s

private def date? (cs : List Char) : Option (String × List Char) := do
  let (year, r) ← fixed? 4 cs
  let (month, r) ← within? 1 12 (← expect? '-' r)
  let (day, r) ← within? 1 31 (← expect? '-' r)
  if day ≤ daysIn year month then pure (s!"{padded 4 year}-{padded 2 month}-{padded 2 day}", r) else none

/-- At most nine places of a second, without zeros at the end. -/
private def secondFraction : List Char → String × List Char
  | '.' :: r =>
    let ds := r.takeWhile isDigit
    if ds.isEmpty then ("", '.' :: r)
    else
      let kept := ((ds.take 9).reverse.dropWhile (· == '0')).reverse
      (if kept.isEmpty then "" else String.ofList ('.' :: kept), r.drop ds.length)
  | cs => ("", cs)

private def time? (cs : List Char) : Option (String × List Char) := do
  let (hour, r) ← within? 0 23 cs
  let (minute, r) ← within? 0 59 (← expect? ':' r)
  let (second, r) ← within? 0 60 (← expect? ':' r)
  let (fraction, r) := secondFraction r
  pure (s!"{padded 2 hour}:{padded 2 minute}:{padded 2 second}{fraction}", r)

/-- The distance from universal time; none if it is not given. -/
private def offset? (cs : List Char) : Option (String × List Char) :=
  match cs with
  | c :: r =>
    if c = 'Z' ∨ c = 'z' then some ("Z", r)
    else if c = '+' ∨ c = '-' then do
      let (hour, r) ← within? 0 23 r
      let (minute, r) ← within? 0 59 (← expect? ':' r)
      let mark := if c = '-' ∧ 0 < hour * 60 + minute then "-" else "+"
      pure (s!"{mark}{padded 2 hour}:{padded 2 minute}", r)
    else some ("", cs)
  | [] => some ("", [])

private def dateTime? (cs : List Char) : Option (String × List Char) := do
  let (date, r) ← date? cs
  match r with
  | c :: rest =>
    if c = 'T' ∨ c = 't' ∨ c = ' ' then
      match time? rest with
      | some (time, rest) =>
        let (offset, rest) ← offset? rest
        pure (date ++ "T" ++ time ++ offset, rest)
      | none => pure (date, r)
    else pure (date, r)
  | [] => pure (date, r)

/-- The key under which a date or time stands when it is taken for a value. -/
def dateKey : String := "$__toml_private_datetime"

def dateOrTime? (cs : List Char) : Option (Written × List Char) :=
  ((dateTime? cs) <|> (time? cs)).map fun p => (.object [(dateKey, .string p.1)], p.2)

end ReactCatalog.Toml
