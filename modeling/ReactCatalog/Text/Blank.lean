/-!
# Blank characters

`isBlank` is the Unicode property White_Space, a fixed list of 25 code points. Trimming removes a maximal run
of blanks from one end or from both.
-/

namespace ReactCatalog.Text

/-- Ranges of code points with the property White_Space. -/
def blankRanges : List (Nat × Nat) :=
  [(0x09, 0x0d), (0x20, 0x20), (0x85, 0x85), (0xa0, 0xa0), (0x1680, 0x1680), (0x2000, 0x200a),
   (0x2028, 0x2029), (0x202f, 0x202f), (0x205f, 0x205f), (0x3000, 0x3000)]

def isBlank (c : Char) : Bool :=
  blankRanges.any fun r => r.1 ≤ c.toNat && c.toNat ≤ r.2

/-- The blanks among the first 128 code points: tab to carriage return, and space. -/
def isAsciiBlank (c : Char) : Bool :=
  c == ' ' || (0x09 ≤ c.toNat && c.toNat ≤ 0x0d)

def dropEndWhile (p : Char → Bool) (cs : List Char) : List Char :=
  (cs.reverse.dropWhile p).reverse

theorem getLast?_dropEndWhile {p : Char → Bool} {cs : List Char} {c : Char}
    (h : (dropEndWhile p cs).getLast? = some c) : p c = false := by
  rw [dropEndWhile, List.getLast?_reverse] at h
  have hnot := List.head?_dropWhile_not p cs.reverse
  rw [h] at hnot
  exact hnot

def trimStartList (cs : List Char) : List Char := cs.dropWhile isBlank

def trimEndList (cs : List Char) : List Char := dropEndWhile isBlank cs

def trimList (cs : List Char) : List Char := trimEndList (trimStartList cs)

/-- Remove blanks from both ends. -/
def trim (s : String) : String := String.ofList (trimList s.toList)

/-- Remove from both ends every character that satisfies `p`. -/
def trimBoth (p : Char → Bool) (s : String) : String :=
  String.ofList (dropEndWhile p (s.toList.dropWhile p))

/-- The text after a leading `p`, if `s` starts with it. -/
def dropLeading? : List Char → List Char → Option (List Char)
  | [], s => some s
  | _ :: _, [] => none
  | a :: p, b :: s => if a = b then dropLeading? p s else none

theorem dropLeading?_eq_some_iff {lead cs rest : List Char} :
    dropLeading? lead cs = some rest ↔ cs = lead ++ rest := by
  induction lead generalizing cs with
  | nil => simp [dropLeading?]
  | cons a lead ih =>
    cases cs with
    | nil => simp [dropLeading?]
    | cons b cs =>
      rw [dropLeading?]
      by_cases hab : a = b
      · simp [hab, ih]
      · simp [hab, Ne.symm hab]

/-- The text before a trailing `p`, if `s` ends with it. -/
def dropTrailing? (p s : List Char) : Option (List Char) :=
  (dropLeading? p.reverse s.reverse).map List.reverse

theorem dropTrailing?_eq_some_iff {trail cs rest : List Char} :
    dropTrailing? trail cs = some rest ↔ cs = rest ++ trail := by
  rw [dropTrailing?, Option.map_eq_some_iff]
  simp only [dropLeading?_eq_some_iff]
  constructor
  · rintro ⟨r, hr, rfl⟩
    simpa using congrArg List.reverse hr
  · rintro rfl
    exact ⟨rest.reverse, List.reverse_append, List.reverse_reverse rest⟩

def startsWith (s p : String) : Bool := (dropLeading? p.toList s.toList).isSome

/-- The lines of a text: each ends at a line feed, with a carriage return before it dropped; a final line feed
opens no further line. -/
def lines (s : List Char) : List (List Char) :=
  go s []
where
  go : List Char → List Char → List (List Char)
    | [], [] => []
    | [], acc => [acc.reverse]
    | '\n' :: r, acc => chop acc :: go r []
    | c :: r, acc => go r (c :: acc)
  chop : List Char → List Char
    | '\r' :: acc => acc.reverse
    | acc => acc.reverse

/-- The pieces of a text between occurrences of `c`. -/
def splitOnChar (c : Char) (s : String) : List String :=
  go s.toList []
where
  go : List Char → List Char → List String
    | [], acc => [String.ofList acc.reverse]
    | d :: r, acc => if d = c then String.ofList acc.reverse :: go r [] else go r (d :: acc)

end ReactCatalog.Text
