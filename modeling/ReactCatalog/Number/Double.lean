/-!
# Double-precision numbers

A finite double is a sign, a mantissa below 2^53 and a power of two. All arithmetic is on natural numbers:
`ofRatio?` rounds a quotient to the nearest double, ties to the even mantissa, and the other operations are
exact until that last step. `shortest` gives the fewest decimal digits that round back to the same double, and
of those the nearest.
-/

namespace ReactCatalog

/-- The number `± mantissa · 2 ^ exponent`. The mantissa has 53 bits, unless the exponent is the least one. -/
structure Double where
  negative : Bool
  mantissa : Nat
  exponent : Int
  deriving DecidableEq, Repr, Inhabited

namespace Double

def minExponent : Int := -1074

def maxExponent : Int := 971

def zero : Double := ⟨false, 0, minExponent⟩

def isZero (x : Double) : Bool := x.mantissa == 0

def neg (x : Double) : Double := { x with negative := !x.negative }

/-- `num / den` divided by `2 ^ e`, as a ratio of natural numbers. -/
private def scaled (num den : Nat) (e : Int) : Nat × Nat :=
  if 0 ≤ e then (num, den * Nat.pow 2 e.toNat) else (num * Nat.pow 2 (-e).toNat, den)

/-- The integer nearest to `num / den`, ties to even. -/
def roundRatio (num den : Nat) : Nat :=
  let q := num / den
  let r := num % den
  if 2 * r < den then q else if den < 2 * r then q + 1 else q + q % 2

/-- The double nearest to `num / den`; none if it is too large. -/
def ofRatio? (num den : Nat) : Option Double :=
  if num = 0 then some zero
  else
    let guess : Int := (num.log2 : Int) - den.log2 - 52
    let e := max guess minExponent
    let s := scaled num den e
    let e := if s.1 / s.2 < Nat.pow 2 52 then max (e - 1) minExponent else e
    let s := scaled num den e
    let m := roundRatio s.1 s.2
    let (m, e) := if m = Nat.pow 2 53 then (Nat.pow 2 52, e + 1) else (m, e)
    if maxExponent < e then none else some ⟨false, m, e⟩

/-- The size of a double as a ratio. -/
def toRatio (x : Double) : Nat × Nat :=
  if 0 ≤ x.exponent then (x.mantissa * Nat.pow 2 x.exponent.toNat, 1) else (x.mantissa, Nat.pow 2 (-x.exponent).toNat)

def ofNat? (n : Nat) : Option Double := ofRatio? n 1

private def signed (negative : Bool) (x : Double) : Double := { x with negative := negative }

def mul? (a b : Double) : Option Double :=
  let x := a.toRatio
  let y := b.toRatio
  (ofRatio? (x.1 * y.1) (x.2 * y.2)).map (signed (a.negative != b.negative))

def div? (a b : Double) : Option Double :=
  let x := a.toRatio
  let y := b.toRatio
  if y.1 = 0 then none
  else (ofRatio? (x.1 * y.2) (x.2 * y.1)).map (signed (a.negative != b.negative))

/-- The double nearest to a power of ten. -/
def powerOfTen? (n : Nat) : Option Double := ofNat? (Nat.pow 10 n)

/-- The double nearest to `digits · 10 ^ e`; none if it is too large. -/
def ofDecimal? (digits : Nat) (e : Int) : Option Double :=
  if digits = 0 then some zero
  else if e < -400 - (digits.log2 : Int) then some zero
  else if 400 < e then none
  else if 0 ≤ e then ofRatio? (digits * Nat.pow 10 e.toNat) 1
  else ofRatio? digits (Nat.pow 10 (-e).toNat)

/-! ## Shortest decimal -/

/-- The exponent of the leading decimal digit of `num / den`. -/
private def leading (num den : Nat) : Int :=
  if den ≤ num then ((Nat.toDigits 10 (num / den)).length : Int) - 1
  else go 400 num 0
where
  go : Nat → Nat → Int → Int
    | 0, _, e => e
    | fuel + 1, n, e => if den ≤ n then e else go fuel (n * 10) (e - 1)

/-- A decimal: `digits · 10 ^ exponent`. -/
structure Decimal where
  digits : Nat
  exponent : Int
  deriving DecidableEq, Repr

/-- The decimal with `n` digits nearest to a positive double, if it reads back. -/
private def withDigits? (x : Double) (top : Int) (n : Nat) : Option Decimal :=
  let e := top + 1 - n
  let v := x.toRatio
  -- in units of a quarter of the last binary place over the common denominator
  let unit := Nat.pow 2 x.exponent.toNat
  let low := if x.mantissa = Nat.pow 2 52 ∧ minExponent < x.exponent then unit else 2 * unit
  let high := 2 * unit
  let (gridNum, gridDen) := if 0 ≤ e then (Nat.pow 10 e.toNat, 1) else (1, Nat.pow 10 (-e).toNat)
  let value := 4 * v.1 * gridDen
  let lo := value / (4 * v.2 * gridNum)
  let even := x.mantissa % 2 == 0
  let place (c : Nat) := 4 * c * gridNum * v.2
  let fits (c : Nat) : Bool :=
    let p := place c
    let a := value - low * gridDen
    let b := value + high * gridDen
    if even then a ≤ p && p ≤ b else a < p && p < b
  let below := value - place lo
  let above := place (lo + 1) - value
  let nearer := if below < above then lo else if above < below then lo + 1 else lo + lo % 2
  let other := if nearer = lo then lo + 1 else lo
  if fits nearer then some ⟨nearer, e⟩ else if fits other then some ⟨other, e⟩ else none

private def stripZeros : Nat → Decimal → Decimal
  | 0, d => d
  | fuel + 1, d =>
    if d.digits ≠ 0 ∧ d.digits % 10 = 0 then stripZeros fuel ⟨d.digits / 10, d.exponent + 1⟩ else d

/-- The shortest decimal that reads back as the size of `x`. -/
def shortest (x : Double) : Decimal :=
  if x.mantissa = 0 then ⟨0, 0⟩
  else
    let v := x.toRatio
    let top := leading v.1 v.2
    match (List.range 17).findSome? fun n => x.withDigits? top (n + 1) with
    | some d => stripZeros 20 d
    | none => ⟨x.mantissa, x.exponent⟩

end Double

end ReactCatalog
