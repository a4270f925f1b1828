/-!
# UTF-8

Bytes read as text. What is not well formed is cut into maximal pieces, each of which may stand as a replacement
character.
-/

namespace ReactCatalog.Text

/-- The bytes of a text. -/
def utf8 (s : String) : List UInt8 := s.toList.flatMap String.utf8EncodeChar

/-- Number of bytes after a lead byte, and the range of the first of them; none for bytes that lead nothing. -/
def leadOf? (b : UInt8) : Option (Nat × Nat × Nat) :=
  let n := b.toNat
  if n < 0x80 then some (0, 0, 0)
  else if n < 0xc2 then none
  else if n < 0xe0 then some (1, 0x80, 0xbf)
  else if n = 0xe0 then some (2, 0xa0, 0xbf)
  else if n = 0xed then some (2, 0x80, 0x9f)
  else if n < 0xf0 then some (2, 0x80, 0xbf)
  else if n = 0xf0 then some (3, 0x90, 0xbf)
  else if n < 0xf4 then some (3, 0x80, 0xbf)
  else if n = 0xf4 then some (3, 0x80, 0x8f)
  else none

/-- Take up to `more` further bytes onto `code`, the first from the given range. Says how many were taken. -/
def takeFurther : (more lo hi code : Nat) → List UInt8 → Option Char × Nat
  | 0, _, _, code, _ => (some (Char.ofNat code), 0)
  | _ + 1, _, _, _, [] => (none, 0)
  | more + 1, lo, hi, code, b :: rest =>
    if lo ≤ b.toNat ∧ b.toNat ≤ hi then
      let (c, n) := takeFurther more 0x80 0xbf (code * 64 + b.toNat % 64) rest
      (c, n + 1)
    else (none, 0)

/-- The character that starts with a byte, and how many bytes after it belong to it. -/
def leadingScalar (b : UInt8) (rest : List UInt8) : Option Char × Nat :=
  match leadOf? b with
  | none => (none, 0)
  | some (0, _, _) => (some (Char.ofNat b.toNat), 0)
  | some (more, lo, hi) => takeFurther more lo hi (b.toNat % Nat.pow 2 (6 - more)) rest

/-- The characters of a text, and nothing for each piece that is none. -/
def scalars : List UInt8 → List (Option Char)
  | [] => []
  | b :: rest =>
    let (c, n) := leadingScalar b rest
    c :: scalars (rest.drop n)
termination_by bs => bs.length
decreasing_by simp only [List.length_cons, List.length_drop]; omega

/-- The text that bytes stand for, if they are well formed. -/
def decode? (bs : List UInt8) : Option String := ((scalars bs).mapM id).map String.ofList

/-- The text that bytes stand for, with replacement characters where they are not well formed. -/
def decodeLossy (bs : List UInt8) : String := String.ofList ((scalars bs).map fun c => c.getD '�')

end ReactCatalog.Text
