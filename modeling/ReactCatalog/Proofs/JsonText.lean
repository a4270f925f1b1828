import Mathlib.Algebra.Ring.Int.Defs
import ReactCatalog.Json.Printer
import ReactCatalog.Json.Reader
import ReactCatalog.Proofs.Utf8

/-!
# JSON text

Both layouts write one text, with blanks or without (`Layout.text`). Whatever follows such a text, and whatever blanks
stand before it, the reader gives back the value that was written and stops where its text ends (`Reader.Reads`). This
needs nothing of the value but that its numbers are whole (`Whole`); members come back in their order, also those that
share a key (`readWritten?_compact`, `readWritten?_pretty`).
-/

namespace ReactCatalog.Json

/-! ## Values -/

/-- A property that arrays and objects take over from what they hold is one of all values. -/
@[elab_as_elim]
theorem induct {motive : Json → Prop} (null : motive .null) (bool : ∀ b, motive (.bool b))
    (int : ∀ n, motive (.int n)) (float : ∀ x, motive (.float x)) (string : ∀ s, motive (.string s))
    (array : ∀ items, (∀ v ∈ items, motive v) → motive (.array items))
    (object : ∀ members, (∀ m ∈ members, motive m.2) → motive (.object members)) (v : Json) : motive v :=
  @Json.rec motive (fun items => ∀ v ∈ items, motive v) (fun members => ∀ m ∈ members, motive m.2)
    (fun m => motive m.2) null bool int float string array object
    (fun _ h => absurd h List.not_mem_nil)
    (fun _ _ hv hrest w hw => (List.mem_cons.1 hw).elim (fun h => h ▸ hv) (hrest w))
    (fun _ h => absurd h List.not_mem_nil)
    (fun _ _ hm hrest n hn => (List.mem_cons.1 hn).elim (fun h => h ▸ hm) (hrest n))
    (fun _ _ hv => hv) v

/-- Every number is a whole number of 64 bits, signed or not, or zero with a minus sign. -/
inductive Whole : Json → Prop
  | null : Whole .null
  | bool (b : Bool) : Whole (.bool b)
  | int {n : Int} : -2 ^ 63 ≤ n → n < 2 ^ 64 → Whole (.int n)
  | minusZero : Whole (.float Double.zero.neg)
  | string (s : String) : Whole (.string s)
  | array {items : List Json} : (∀ v ∈ items, Whole v) → Whole (.array items)
  | object {members : List (String × Json)} : (∀ m ∈ members, Whole m.2) → Whole (.object members)

mutual

/-- How deep arrays and objects nest. -/
def depth : Json → Nat
  | .array items => depthItems items + 1
  | .object members => depthMembers members + 1
  | _ => 0

def depthItems : List Json → Nat
  | [] => 0
  | v :: rest => max v.depth (depthItems rest)

def depthMembers : List (String × Json) → Nat
  | [] => 0
  | (_, v) :: rest => max v.depth (depthMembers rest)

end

theorem depth_array_le_iff {items : List Json} {n : Nat} :
    (Json.array items).depth ≤ n + 1 ↔ ∀ v ∈ items, v.depth ≤ n := by
  have hitems : depthItems items ≤ n ↔ ∀ v ∈ items, v.depth ≤ n := by
    induction items with
    | nil => simp [depthItems]
    | cons v rest ih => simp [depthItems, ih]
  rw [depth, Nat.add_le_add_iff_right, hitems]

theorem depth_object_le_iff {members : List (String × Json)} {n : Nat} :
    (Json.object members).depth ≤ n + 1 ↔ ∀ m ∈ members, m.2.depth ≤ n := by
  have hmembers : depthMembers members ≤ n ↔ ∀ m ∈ members, m.2.depth ≤ n := by
    induction members with
    | nil => simp [depthMembers]
    | cons m rest ih => simp only [depthMembers, Nat.max_le, ih, List.forall_mem_cons]
  rw [depth, Nat.add_le_add_iff_right, hmembers]

theorem quote_append (s : String) (rest : List Char) :
    (quote s).toList ++ rest = '"' :: (s.toList.flatMap escapeChar ++ '"' :: rest) := by
  simp [quote]

/-! ## Layouts -/

/-- Where a text has blanks: before each item or member and before the end of a container, by its level, and before the
value of a member. -/
structure Layout where
  newLine : Nat → List Char
  gap : List Char
  newLine_blank : ∀ depth, ∀ c ∈ newLine depth, Reader.isBlank c = true
  gap_blank : ∀ c ∈ gap, Reader.isBlank c = true

namespace Layout

/-- No blanks at all. -/
def tight : Layout := ⟨fun _ => [], [], by simp, by simp⟩

/-- A line for each item or member. -/
def spread : Layout where
  newLine depth := '\n' :: List.replicate (2 * depth) ' '
  gap := [' ']
  newLine_blank := by
    intro depth c hc
    rcases List.mem_cons.1 hc with rfl | hc
    · rfl
    · rw [List.eq_of_mem_replicate hc]
      rfl
  gap_blank := List.forall_mem_singleton.2 rfl

mutual

/-- A value on some level. -/
def text (l : Layout) (depth : Nat) : Json → List Char
  | .array [] => ['[', ']']
  | .array (v :: rest) =>
    '[' :: (l.newLine (depth + 1) ++ (l.text (depth + 1) v ++
      (l.moreItems (depth + 1) rest ++ (l.newLine depth ++ [']']))))
  | .object [] => ['\x7b', '\x7d']
  | .object ((k, v) :: rest) =>
    '\x7b' :: (l.newLine (depth + 1) ++ ((quote k).toList ++ (':' :: (l.gap ++ (l.text (depth + 1) v ++
      (l.moreMembers (depth + 1) rest ++ (l.newLine depth ++ ['\x7d'])))))))
  | v => (scalar v).toList

def moreItems (l : Layout) (depth : Nat) : List Json → List Char
  | [] => []
  | v :: rest => ',' :: (l.newLine depth ++ (l.text depth v ++ l.moreItems depth rest))

def moreMembers (l : Layout) (depth : Nat) : List (String × Json) → List Char
  | [] => []
  | (k, v) :: rest =>
    ',' :: (l.newLine depth ++ ((quote k).toList ++ (':' :: (l.gap ++ (l.text depth v ++ l.moreMembers depth rest)))))

end

end Layout

theorem toList_compactItems {depth : Nat} {v : Json} {rest : List Json}
    (h : ∀ w ∈ v :: rest, w.compact.toList = Layout.tight.text depth w) :
    (compactItems (v :: rest)).toList = Layout.tight.text depth v ++ Layout.tight.moreItems depth rest := by
  induction rest generalizing v with
  | nil => simp [compactItems, Layout.moreItems, h v]
  | cons w rest ih =>
    have hv := h v List.mem_cons_self
    have hrest := ih fun u hu => h u (List.mem_cons_of_mem _ hu)
    simp [compactItems, Layout.moreItems, Layout.tight, hv, hrest]

theorem toList_compactMembers {depth : Nat} {k : String} {v : Json} {rest : List (String × Json)}
    (h : ∀ m ∈ (k, v) :: rest, m.2.compact.toList = Layout.tight.text depth m.2) :
    (compactMembers ((k, v) :: rest)).toList = (quote k).toList ++
      (':' :: (Layout.tight.text depth v ++ Layout.tight.moreMembers depth rest)) := by
  induction rest generalizing k v with
  | nil => simp [compactMembers, Layout.moreMembers, h (k, v)]
  | cons m rest ih =>
    obtain ⟨j, w⟩ := m
    have hv := h (k, v) List.mem_cons_self
    have hrest := ih fun u hu => h u (List.mem_cons_of_mem _ hu)
    simp [compactMembers, Layout.moreMembers, Layout.tight, hv, hrest]

/-- The compact layout has no blanks. -/
theorem toList_compact (v : Json) (depth : Nat) : v.compact.toList = Layout.tight.text depth v := by
  induction v using Json.induct generalizing depth with
  | null | bool _ | int _ | float _ | string _ => rfl
  | array items ih =>
    cases items with
    | nil => rfl
    | cons v rest =>
      have hitems := toList_compactItems fun w hw => ih w hw (depth + 1)
      simp [compact, Layout.text, Layout.tight, hitems]
  | object members ih =>
    cases members with
    | nil => rfl
    | cons m rest =>
      obtain ⟨k, v⟩ := m
      have hmembers := toList_compactMembers fun m hm => ih m hm (depth + 1)
      simp [compact, Layout.text, Layout.tight, hmembers]

theorem toList_newLine (depth : Nat) : (newLine depth).toList = Layout.spread.newLine depth := by
  simp [newLine, Layout.spread]

theorem toList_prettyItems {depth : Nat} {items : List Json}
    (h : ∀ w ∈ items, (w.prettyAt depth).toList = Layout.spread.text depth w) :
    (prettyItems depth items).toList = Layout.spread.moreItems depth items := by
  induction items with
  | nil => rfl
  | cons v rest ih =>
    have hv := h v List.mem_cons_self
    have hrest := ih fun u hu => h u (List.mem_cons_of_mem _ hu)
    simp [prettyItems, Layout.moreItems, toList_newLine, hv, hrest]

theorem toList_prettyMembers {depth : Nat} {members : List (String × Json)}
    (h : ∀ m ∈ members, (m.2.prettyAt depth).toList = Layout.spread.text depth m.2) :
    (prettyMembers depth members).toList = Layout.spread.moreMembers depth members := by
  induction members with
  | nil => rfl
  | cons m rest ih =>
    obtain ⟨k, v⟩ := m
    have hv := h (k, v) List.mem_cons_self
    have hrest := ih fun u hu => h u (List.mem_cons_of_mem _ hu)
    simp [prettyMembers, Layout.moreMembers, toList_newLine, hv, hrest, Layout.spread]

/-- The layout over lines. -/
theorem toList_prettyAt (v : Json) (depth : Nat) : (v.prettyAt depth).toList = Layout.spread.text depth v := by
  induction v using Json.induct generalizing depth with
  | null | bool _ | int _ | float _ | string _ => rfl
  | array items ih =>
    cases items with
    | nil => simp [prettyAt, Layout.text]
    | cons v rest =>
      have hv := ih v List.mem_cons_self (depth + 1)
      have hrest := toList_prettyItems fun w hw => ih w (List.mem_cons_of_mem _ hw) (depth + 1)
      simp [prettyAt, Layout.text, toList_newLine, hv, hrest]
  | object members ih =>
    cases members with
    | nil => simp [prettyAt, Layout.text]
    | cons m rest =>
      obtain ⟨k, v⟩ := m
      have hv := ih (k, v) List.mem_cons_self (depth + 1)
      have hrest := toList_prettyMembers fun w hw => ih w (List.mem_cons_of_mem _ hw) (depth + 1)
      simp [prettyAt, Layout.text, toList_newLine, hv, hrest, Layout.spread]

namespace Layout

variable (l : Layout)

theorem length_text_le_moreItems (depth : Nat) {v : Json} {items : List Json} (h : v ∈ items) :
    (l.text depth v).length ≤ (l.moreItems depth items).length := by
  induction items with
  | nil => cases h
  | cons w rest ih =>
    simp only [moreItems, List.length_cons, List.length_append]
    rcases List.mem_cons.1 h with rfl | h
    · omega
    · have hrest := ih h
      omega

theorem length_text_le_moreMembers (depth : Nat) {m : String × Json} {members : List (String × Json)}
    (h : m ∈ members) : (l.text depth m.2).length ≤ (l.moreMembers depth members).length := by
  induction members with
  | nil => cases h
  | cons w rest ih =>
    simp only [moreMembers, List.length_cons, List.length_append]
    rcases List.mem_cons.1 h with rfl | h
    · omega
    · have hrest := ih h
      omega

/-- A text is longer than its value is deep. -/
theorem depth_le_length_text (v : Json) (depth : Nat) : v.depth ≤ (l.text depth v).length := by
  induction v using Json.induct generalizing depth with
  | null | bool _ | int _ | float _ | string _ => exact Nat.zero_le _
  | array items ih =>
    cases items with
    | nil => simp [Json.depth, depthItems, text]
    | cons v rest =>
      refine depth_array_le_iff.2 fun w hw => (ih w hw (depth + 1)).trans ?_
      simp only [List.length_append]
      rcases List.mem_cons.1 hw with rfl | hw
      · omega
      · have hrest := l.length_text_le_moreItems (depth + 1) hw
        omega
  | object members ih =>
    cases members with
    | nil => simp [Json.depth, depthMembers, text]
    | cons m rest =>
      obtain ⟨k, v⟩ := m
      refine depth_object_le_iff.2 fun w hw => (ih w hw (depth + 1)).trans ?_
      simp only [List.length_append, List.length_cons]
      rcases List.mem_cons.1 hw with rfl | hw
      · show (l.text (depth + 1) v).length ≤ _
        omega
      · have hrest := l.length_text_le_moreMembers (depth + 1) hw
        omega

end Layout

/-! ## Numbers -/

namespace Reader

theorem eq_of_isBlank {c : Char} (h : isBlank c = true) : c = ' ' ∨ c = '\n' ∨ c = '\t' ∨ c = '\r' := by
  simpa [isBlank, or_assoc] using h

theorem skip_blanks {blanks : List Char} (h : ∀ c ∈ blanks, isBlank c = true) (cs : List Char) :
    skip (blanks ++ cs) = skip cs :=
  List.dropWhile_append_of_pos h

theorem skip_cons {c : Char} (h : isBlank c = false) (cs : List Char) : skip (c :: cs) = c :: cs :=
  List.dropWhile_cons_of_neg (by simp [h])

/-- A number does not go on here. -/
def Ends (rest : List Char) : Prop := ∀ c ∈ rest.head?, isDigit c = false ∧ c ≠ '.' ∧ c ≠ 'e' ∧ c ≠ 'E'

theorem isDigit_of_mem_toDigits {n : Nat} {c : Char} (h : c ∈ Nat.toDigits 10 n) : isDigit c = true := by
  have hc := Nat.isDigit_of_mem_toDigits (by decide) (by decide) h
  simp only [Char.isDigit, Bool.and_eq_true, decide_eq_true_eq] at hc
  simp only [isDigit, Bool.and_eq_true, decide_eq_true_eq]
  exact hc

theorem exists_cons_toDigits (n : Nat) : ∃ c cs, Nat.toDigits 10 n = c :: cs ∧ isDigit c = true := by
  obtain ⟨c, cs, hcs⟩ := List.exists_cons_of_ne_nil (Nat.toDigits_ne_nil (n := n) (b := 10))
  exact ⟨c, cs, hcs, isDigit_of_mem_toDigits (hcs ▸ List.mem_cons_self)⟩

theorem takeDigits_append {digits rest : List Char} (hdigits : ∀ c ∈ digits, isDigit c = true)
    (hrest : ∀ c ∈ rest.head?, isDigit c = false) (n taken : Nat) (hmax : Nat.ofDigitChars 10 digits n ≤ maxWord) :
    takeDigits n taken (digits ++ rest) = (Nat.ofDigitChars 10 digits n, taken + digits.length, rest) := by
  induction digits generalizing n taken with
  | nil =>
    cases rest with
    | nil => rfl
    | cons c rest => simp [takeDigits, hrest c rfl]
  | cons c digits ih =>
    have hstep : n * 10 + digitValue c = 10 * n + (c.toNat - '0'.toNat) := by
      rw [Nat.mul_comm]
      rfl
    rw [Nat.ofDigitChars_cons] at hmax ⊢
    -- the digits to come only make the number larger
    have hfits : n * 10 + digitValue c ≤ maxWord := by
      rw [Nat.ofDigitChars_eq_ofDigitChars_zero] at hmax
      have hpow : 1 ≤ 10 ^ digits.length := Nat.one_le_pow _ _ (by decide)
      have hle := Nat.le_mul_of_pos_left (10 * n + (c.toNat - '0'.toNat)) hpow
      omega
    rw [List.cons_append, takeDigits, if_pos (hdigits c List.mem_cons_self)]
    show (if maxWord < n * 10 + digitValue c then _ else _) = _
    rw [if_neg (Nat.not_lt.2 hfits), hstep, ih (fun d hd => hdigits d (List.mem_cons_of_mem _ hd)) _ _ hmax,
      List.length_cons, Nat.add_assoc, Nat.add_comm 1]

theorem toDigits_ne_zero_cons {n : Nat} (hn : 0 < n) (digits : List Char) : Nat.toDigits 10 n ≠ '0' :: digits := by
  induction n using Nat.strongRecOn generalizing digits with
  | _ n ih =>
    rcases Nat.lt_or_ge n 10 with hlt | hge
    · rw [Nat.toDigits_of_lt_base hlt]
      have hdigit : ∀ m < 10, 0 < m → m.digitChar ≠ '0' := by decide
      intro h
      exact hdigit n hlt hn (List.cons.inj h).1
    · rw [Nat.toDigits_of_base_le (by decide) hge]
      obtain ⟨c, cs, hcs, _⟩ := exists_cons_toDigits (n / 10)
      intro h
      rw [hcs, List.cons_append] at h
      exact ih (n / 10) (by omega) (by omega) cs (by rw [hcs, (List.cons.inj h).1])

theorem digit_ne {c : Char} (h : isDigit c = true) :
    c ≠ '-' ∧ c ≠ '"' ∧ c ≠ '[' ∧ c ≠ '\x7b' ∧ c ≠ 't' ∧ c ≠ 'f' ∧ c ≠ 'n' := by
  refine ⟨?_, ?_, ?_, ?_, ?_, ?_, ?_⟩ <;> (rintro rfl; revert h; decide)

theorem afterDigits?_ends (negative : Bool) (n : Nat) {rest : List Char} (hrest : Ends rest) :
    afterDigits? negative n 0 rest = some (whole negative n, rest) := by
  unfold afterDigits?
  split
  · exact absurd rfl (hrest _ rfl).2.1
  · exact absurd rfl (hrest _ rfl).2.2.1
  · exact absurd rfl (hrest _ rfl).2.2.2
  · rfl

theorem Ends.takeWhile {rest : List Char} (h : Ends rest) : rest.takeWhile isDigit = [] := by
  cases rest with
  | nil => rfl
  | cons c rest => simp [(h c rfl).1]

theorem Ends.dropWhile {rest : List Char} (h : Ends rest) : rest.dropWhile isDigit = rest := by
  cases rest with
  | nil => rfl
  | cons c rest => simp [(h c rfl).1]

/-- What comes of digits, if there are not too many. -/
theorem unsigned?_digits (negative : Bool) {n : Nat} (hn : n ≤ maxWord) {rest : List Char} (hrest : Ends rest) :
    unsigned? negative (Nat.toDigits 10 n ++ rest) = some (whole negative n, rest) := by
  have hdigits : ∀ c ∈ Nat.toDigits 10 n, isDigit c = true := fun c => isDigit_of_mem_toDigits
  have hhead : ∀ c ∈ rest.head?, isDigit c = false := fun c hc => (hrest c hc).1
  have htake := takeDigits_append hdigits hhead 0 0 (by rwa [Nat.ofDigitChars_ten_toDigits])
  rw [Nat.ofDigitChars_ten_toDigits] at htake
  rcases Nat.eq_zero_or_pos n with rfl | hpos
  · rw [Nat.toDigits_zero, List.singleton_append, unsigned?]
    have hnext : (rest.head?.map isDigit).getD false = false := by
      cases rest with
      | nil => rfl
      | cons c rest => exact hhead c rfl
    rw [hnext]
    exact afterDigits?_ends negative 0 hrest
  · obtain ⟨c, cs, hcs, hc⟩ := exists_cons_toDigits n
    unfold unsigned?
    split
    · next r heq =>
      rw [hcs] at heq
      exact absurd (by rw [hcs, (List.cons.inj heq).1]) (toDigits_ne_zero_cons hpos cs)
    · next c' r _ heq =>
      rw [hcs] at heq
      rw [← (List.cons.inj heq).1, if_pos hc, htake]
      show afterDigits? negative n (rest.takeWhile isDigit).length (rest.dropWhile isDigit) = _
      rw [hrest.takeWhile, hrest.dropWhile]
      exact afterDigits?_ends negative n hrest
    · next heq =>
      rw [hcs] at heq
      cases heq

theorem number?_of_digit {c : Char} (hc : isDigit c = true) (cs : List Char) :
    number? (c :: cs) = unsigned? false (c :: cs) := by
  unfold number?
  split
  · next heq => exact absurd (List.cons.inj heq).1 (digit_ne hc).1
  · rfl

theorem number?_int {n : Int} (hlow : -2 ^ 63 ≤ n) (hhigh : n < 2 ^ 64) {rest : List Char} (hrest : Ends rest) :
    number? ((toString n).toList ++ rest) = some (.int n, rest) := by
  cases n with
  | ofNat m =>
    have hm : m ≤ maxWord := by
      have : (m : Int) < 2 ^ 64 := hhigh
      show m ≤ 2 ^ 64 - 1
      omega
    have htext : (toString (Int.ofNat m)).toList = Nat.toDigits 10 m := by
      show m.repr.toList = _
      exact Nat.toList_repr
    obtain ⟨c, cs, hcs, hc⟩ := exists_cons_toDigits m
    have hread := unsigned?_digits false hm hrest
    rw [htext]
    rw [hcs] at hread ⊢
    rw [List.cons_append] at hread ⊢
    rw [number?_of_digit hc, hread]
    rfl
  | negSucc m =>
    have hm : m + 1 ≤ 2 ^ 63 := by
      have : -2 ^ 63 ≤ Int.negSucc m := hlow
      omega
    have htext : (toString (Int.negSucc m)).toList = '-' :: Nat.toDigits 10 (m + 1) := by
      show ("-" ++ (m + 1).repr).toList = _
      rw [String.toList_append, Nat.toList_repr]
      rfl
    rw [htext, List.cons_append, number?, unsigned?_digits true (by show m + 1 ≤ 2 ^ 64 - 1; omega) hrest]
    have hwhole : whole true (m + 1) = .int (Int.negSucc m) := by
      have hsize : ¬(m + 1 = 0 ∨ Nat.pow 2 63 < m + 1) := by
        show ¬(m + 1 = 0 ∨ 2 ^ 63 < m + 1)
        omega
      unfold whole
      rw [if_neg hsize]
      rfl
    rw [hwhole]

/-- The only whole number that is a double, with its sign. -/
theorem number?_minusZero {rest : List Char} (hrest : Ends rest) :
    number? ((printDouble Double.zero.neg).toList ++ rest) = some (.float Double.zero.neg, rest) := by
  have htext : (printDouble Double.zero.neg).toList = ['-', '0', '.', '0'] := by decide +kernel
  have hdigits : takeDigits 0 0 ('0' :: rest) = (0, 1, rest) := by
    have hzero : ∀ c ∈ ['0'], isDigit c = true := List.forall_mem_singleton.2 rfl
    exact takeDigits_append hzero (fun c hc => (hrest c hc).1) 0 0 (by decide)
  have hexponent : exponentOr? true 0 (0 - 1) rest = some (.float Double.zero.neg, rest) := by
    unfold exponentOr?
    split
    · exact absurd rfl (hrest _ rfl).2.2.1
    · exact absurd rfl (hrest _ rfl).2.2.2
    · rfl
  rw [htext]
  show fraction? true 0 0 ('0' :: rest) = _
  unfold fraction?
  rw [hdigits]
  simpa [hrest.dropWhile] using hexponent

/-! ## Strings -/

theorem hexValue?_hexDigit : ∀ n < 16, hexValue? (hexDigit n) = some n := by decide

/-- One character is read back from what it is written as. -/
theorem stringRest?_escapeChar (c : Char) (fuel : Nat) (acc : List (Option Char)) (rest : List Char) :
    stringRest? (fuel + 1) acc (escapeChar c ++ rest) = stringRest? fuel (some c :: acc) rest := by
  unfold escapeChar
  split
  case h_8 h1 h2 h3 h4 h5 h6 h7 =>
    split
    · next hlow =>
      have hhigh := hexValue?_hexDigit (c.toNat / 16) (by omega)
      have hlast := hexValue?_hexDigit (c.toNat % 16) (by omega)
      have hunit : unit? ('0' :: '0' :: hexDigit (c.toNat / 16) :: hexDigit (c.toNat % 16) :: rest) =
          some (c.toNat, rest) := by
        have hzero : hexValue? '0' = some 0 := rfl
        have hsum : c.toNat / 16 * 16 + c.toNat % 16 = c.toNat := by omega
        simp [unit?, hzero, hhigh, hlast, hsum]
      have hescape : escape? ('u' :: '0' :: '0' :: hexDigit (c.toNat / 16) :: hexDigit (c.toNat % 16) :: rest) =
          some (some c, rest) := by
        have hlow' : ¬(0xdc00 ≤ c.toNat ∧ c.toNat ≤ 0xdfff) ∧ ¬(0xd800 ≤ c.toNat ∧ c.toNat ≤ 0xdbff) := by omega
        simp [escape?, unicode?, hunit, hlow'.1, hlow'.2]
      simp [stringRest?, hescape]
    · next hhigh =>
      have hquote : c ≠ '"' := h1
      have hslash : c ≠ '\\' := h2
      simp [stringRest?, hquote, hslash, hhigh]
  all_goals rfl

theorem stringRest?_flatMap (cs : List Char) {fuel : Nat} (hfuel : cs.length < fuel) (acc : List (Option Char))
    (rest : List Char) :
    stringRest? fuel acc (cs.flatMap escapeChar ++ '"' :: rest) =
      some (((acc.reverse ++ cs.map some).mapM id).map String.ofList, rest) := by
  induction cs generalizing fuel acc with
  | nil =>
    cases fuel with
    | zero => exact absurd hfuel (Nat.not_lt_zero _)
    | succ fuel => simp [stringRest?]
  | cons c cs ih =>
    cases fuel with
    | zero => exact absurd hfuel (Nat.not_lt_zero _)
    | succ fuel =>
      rw [List.flatMap_cons, List.append_assoc, stringRest?_escapeChar, ih (Nat.lt_of_succ_lt_succ hfuel),
        List.reverse_cons, List.append_assoc]
      rfl

theorem length_le_flatMap_escapeChar (cs : List Char) : cs.length ≤ (cs.flatMap escapeChar).length := by
  have hpos : ∀ c, 1 ≤ (escapeChar c).length := by
    intro c
    unfold escapeChar
    split
    case h_8 => split <;> simp
    all_goals simp
  induction cs with
  | nil => simp
  | cons c cs ih =>
    have hc := hpos c
    simp only [List.flatMap_cons, List.length_append, List.length_cons]
    omega

theorem string?_quote (s : String) (rest : List Char) :
    string? ((quote s).toList ++ rest) = some (some s, rest) := by
  have hall : (s.toList.map some).mapM id = some s.toList := Text.mapM_id_eq_some_iff.2 rfl
  rw [quote_append, string?, stringRest?_flatMap]
  · simp [hall]
  · have h := length_le_flatMap_escapeChar s.toList
    simp only [List.length_append, List.length_cons]
    omega

/-! ## Reading back -/

theorem ends_nil : Ends [] := fun _ h => absurd h (by simp)

theorem ends_cons {c : Char} (hdigit : isDigit c = false) (hpoint : c ≠ '.') (he : c ≠ 'e') (hE : c ≠ 'E')
    (cs : List Char) : Ends (c :: cs) := by
  rintro d hd
  cases hd
  exact ⟨hdigit, hpoint, he, hE⟩

theorem ends_comma (cs : List Char) : Ends (',' :: cs) := ends_cons rfl (by decide) (by decide) (by decide) cs

theorem ends_blanks {blanks rest : List Char} (h : ∀ c ∈ blanks, isBlank c = true) (hrest : Ends rest) :
    Ends (blanks ++ rest) := by
  cases blanks with
  | nil => exact hrest
  | cons c cs =>
    rcases eq_of_isBlank (h c List.mem_cons_self) with rfl | rfl | rfl | rfl
    all_goals exact ends_cons rfl (by decide) (by decide) (by decide) _

/-- A value is read, whatever blanks stand before it, up to where its text ends. -/
def Reads (n : Nat) (l : Layout) (v : Json) : Prop :=
  ∀ depth blanks rest, (∀ c ∈ blanks, isBlank c = true) → Ends rest →
    value? n (blanks ++ (l.text depth v ++ rest)) = some (.ofJson v, rest)

section

variable {n : Nat} {l : Layout}

theorem skip_newLine_cons (depth : Nat) {c : Char} (hc : isBlank c = false) (rest : List Char) :
    skip (l.newLine depth ++ c :: rest) = c :: rest := by
  rw [skip_blanks (l.newLine_blank depth), skip_cons hc]

theorem items?_text (depth level : Nat) {v : Json} {rest : List Json} (h : ∀ w ∈ v :: rest, Reads n l w)
    {fuel : Nat} (hfuel : rest.length < fuel) (acc : List Written) (tail : List Char) :
    items? (value? n) fuel acc (l.newLine depth ++ (l.text depth v ++
      (l.moreItems depth rest ++ (l.newLine level ++ ']' :: tail)))) =
      some (.array (acc.reverse ++ Written.ofJsons (v :: rest)), tail) := by
  induction rest generalizing v fuel acc with
  | nil =>
    cases fuel with
    | zero => exact absurd hfuel (Nat.not_lt_zero _)
    | succ fuel =>
      have hends : Ends (l.newLine level ++ ']' :: tail) :=
        ends_blanks (l.newLine_blank level) (ends_cons rfl (by decide) (by decide) (by decide) _)
      have hv := h v List.mem_cons_self depth (l.newLine depth) _ (l.newLine_blank depth) hends
      have hskip : skip (l.newLine level ++ ']' :: tail) = ']' :: tail := skip_newLine_cons level rfl tail
      rw [Layout.moreItems, List.nil_append, items?, hv]
      simp [hskip, Written.ofJsons]
  | cons w rest ih =>
    cases fuel with
    | zero => exact absurd hfuel (Nat.not_lt_zero _)
    | succ fuel =>
      have hmore : l.moreItems depth (w :: rest) ++ (l.newLine level ++ ']' :: tail) =
          ',' :: (l.newLine depth ++ (l.text depth w ++
            (l.moreItems depth rest ++ (l.newLine level ++ ']' :: tail)))) := by
        simp [Layout.moreItems]
      have hv := h v List.mem_cons_self
      have hrest := ih (fun u hu => h u (List.mem_cons_of_mem _ hu)) (Nat.lt_of_succ_lt_succ hfuel)
        (.ofJson v :: acc)
      rw [hmore, items?, hv depth _ _ (l.newLine_blank depth) (ends_comma _)]
      simp only [skip_cons (show isBlank ',' = false from rfl), hrest]
      simp [Written.ofJsons]

theorem member?_text (depth : Nat) (k : String) {v : Json} (h : Reads n l v) {rest : List Char} (hrest : Ends rest) :
    member? (value? n) (l.newLine depth ++ ((quote k).toList ++ (':' :: (l.gap ++ (l.text depth v ++ rest))))) =
      some ((some k, .ofJson v), rest) := by
  have hskip : skip (l.newLine depth ++ ((quote k).toList ++ (':' :: (l.gap ++ (l.text depth v ++ rest))))) =
      (quote k).toList ++ (':' :: (l.gap ++ (l.text depth v ++ rest))) := by
    rw [quote_append]
    exact skip_newLine_cons depth rfl _
  have hv := h depth l.gap rest l.gap_blank hrest
  simp only [member?, hskip, string?_quote, skip_cons (show isBlank ':' = false from rfl), bind, Option.bind_some, hv]
  rfl

theorem members?_text (depth level : Nat) {k : String} {v : Json} {rest : List (String × Json)}
    (h : ∀ m ∈ (k, v) :: rest, Reads n l m.2) {fuel : Nat} (hfuel : rest.length < fuel)
    (acc : List (Option String × Written)) (tail : List Char) :
    members? (value? n) fuel acc (l.newLine depth ++ ((quote k).toList ++ (':' :: (l.gap ++ (l.text depth v ++
      (l.moreMembers depth rest ++ (l.newLine level ++ '\x7d' :: tail))))))) =
      some (objectOf (acc.reverse ++ (Written.ofMembers ((k, v) :: rest)).map fun m => (some m.1, m.2)), tail) := by
  induction rest generalizing k v fuel acc with
  | nil =>
    cases fuel with
    | zero => exact absurd hfuel (Nat.not_lt_zero _)
    | succ fuel =>
      have hends : Ends (l.newLine level ++ '\x7d' :: tail) :=
        ends_blanks (l.newLine_blank level) (ends_cons rfl (by decide) (by decide) (by decide) _)
      have hmember := member?_text depth k (h (k, v) List.mem_cons_self) hends
      have hskip : skip (l.newLine level ++ '\x7d' :: tail) = '\x7d' :: tail := skip_newLine_cons level rfl tail
      rw [Layout.moreMembers, List.nil_append, members?, hmember]
      simp [hskip, Written.ofMembers]
  | cons m rest ih =>
    obtain ⟨j, w⟩ := m
    cases fuel with
    | zero => exact absurd hfuel (Nat.not_lt_zero _)
    | succ fuel =>
      have hmore : l.moreMembers depth ((j, w) :: rest) ++ (l.newLine level ++ '\x7d' :: tail) =
          ',' :: (l.newLine depth ++ ((quote j).toList ++ (':' :: (l.gap ++ (l.text depth w ++
            (l.moreMembers depth rest ++ (l.newLine level ++ '\x7d' :: tail))))))) := by
        simp [Layout.moreMembers]
      have hv := h (k, v) List.mem_cons_self
      have hrest := ih (fun u hu => h u (List.mem_cons_of_mem _ hu)) (Nat.lt_of_succ_lt_succ hfuel)
        ((some k, .ofJson v) :: acc)
      rw [hmore, members?, member?_text depth k hv (ends_comma _)]
      simp only [skip_cons (show isBlank ',' = false from rfl), hrest]
      simp [Written.ofMembers]

/-- Reading goes by the first character that is no blank. Depth is counted by recursion, so this does not hold by
evaluation as long as the depth is a variable. -/
theorem value?_eq (n : Nat) (cs : List Char) : value? n cs =
    match skip cs with
    | '"' :: r => (string? ('"' :: r)).map fun p => ((p.1.map .string).getD .broken, p.2)
    | '[' :: r =>
      match n with
      | 0 => none
      | n + 1 =>
        match skip r with
        | ']' :: r => some (.array [], r)
        | _ => items? (value? n) (r.length + 1) [] r
    | '\x7b' :: r =>
      match n with
      | 0 => none
      | n + 1 =>
        match skip r with
        | '\x7d' :: r => some (.object [], r)
        | _ => members? (value? n) (r.length + 1) [] r
    | 't' :: r => word? "true" (.bool true) ('t' :: r)
    | 'f' :: r => word? "false" (.bool false) ('f' :: r)
    | 'n' :: r => word? "null" .null ('n' :: r)
    | cs => number? cs := by
  unfold value?
  rfl

theorem value?_blanks {blanks : List Char} (h : ∀ c ∈ blanks, isBlank c = true) (n : Nat) (cs : List Char) :
    value? n (blanks ++ cs) = value? n cs := by
  rw [value?_eq, skip_blanks h, ← value?_eq]

/-- Blanks before the text may be left aside. -/
theorem reads_of_text {v : Json}
    (h : ∀ depth rest, Ends rest → value? n (l.text depth v ++ rest) = some (.ofJson v, rest)) : Reads n l v := by
  intro depth blanks rest hblanks hrest
  rw [value?_blanks hblanks]
  exact h depth rest hrest

theorem head_of_number? {cs : List Char} {p : Written × List Char} (h : number? cs = some p) :
    ∃ c more, cs = c :: more ∧ (isDigit c = true ∨ c = '-') := by
  cases cs with
  | nil => cases h
  | cons c more =>
    refine ⟨c, more, rfl, ?_⟩
    by_cases hsign : c = '-'
    · exact .inr hsign
    · left
      unfold number? at h
      split at h
      · next heq => exact absurd (List.cons.inj heq).1 hsign
      · unfold unsigned? at h
        split at h
        · next heq => rw [(List.cons.inj heq).1]; rfl
        · next heq =>
          rw [(List.cons.inj heq).1]
          split at h
          · next hdigit => exact hdigit
          · cases h
        · next heq => cases heq

/-- What is a number is read as one. -/
theorem value?_of_number? (n : Nat) {cs : List Char} {p : Written × List Char} (h : number? cs = some p) :
    value? n cs = some p := by
  obtain ⟨c, more, rfl, hc⟩ := head_of_number? h
  have hblank : isBlank c = false := by
    cases hb : isBlank c with
    | false => rfl
    | true => rcases eq_of_isBlank hb with rfl | rfl | rfl | rfl <;> revert hc <;> decide
  have hne : c ≠ '"' ∧ c ≠ '[' ∧ c ≠ '\x7b' ∧ c ≠ 't' ∧ c ≠ 'f' ∧ c ≠ 'n' := by
    rcases hc with hc | rfl
    · exact (digit_ne hc).2
    · decide
  rw [← h]
  rw [value?_eq, skip_cons hblank]
  split
  all_goals
    first
    | rfl
    | (next heq => exact absurd (List.cons.inj heq).1 (by simp [hne]))

theorem value?_of_end {n : Nat} {cs tail : List Char} (h : skip cs = ']' :: tail) : value? n cs = none := by
  rw [value?_eq, h]
  rfl

/-- Items that are no end are read one after the other. -/
theorem value?_array {r : List Char} (h : ∀ tail, skip r ≠ ']' :: tail) :
    value? (n + 1) ('[' :: r) = items? (value? n) (r.length + 1) [] r := by
  rw [value?_eq]
  show (match skip r with
    | ']' :: r => some (Written.array [], r)
    | _ => items? (value? n) (r.length + 1) [] r) = _
  split
  · next heq => exact absurd heq (h _)
  · rfl

theorem value?_object {r : List Char} (h : ∀ tail, skip r ≠ '\x7d' :: tail) :
    value? (n + 1) ('\x7b' :: r) = members? (value? n) (r.length + 1) [] r := by
  rw [value?_eq]
  show (match skip r with
    | '\x7d' :: r => some (Written.object [], r)
    | _ => members? (value? n) (r.length + 1) [] r) = _
  split
  · next heq => exact absurd heq (h _)
  · rfl

theorem objectOf_some (members : List (String × Written)) :
    objectOf (members.map fun m => (some m.1, m.2)) = .object members := by
  have hkeys : (members.map fun m => (some m.1, m.2)).mapM (fun m => m.1.map fun k => (k, m.2)) = some members := by
    induction members with
    | nil => rfl
    | cons m rest ih => simp [List.mapM_cons, ih]
  unfold objectOf
  rw [hkeys]

theorem length_le_moreItems (l : Layout) (depth : Nat) (items : List Json) :
    items.length ≤ (l.moreItems depth items).length := by
  induction items with
  | nil => exact Nat.zero_le _
  | cons v rest ih =>
    simp only [Layout.moreItems, List.length_cons, List.length_append]
    omega

theorem length_le_moreMembers (l : Layout) (depth : Nat) (members : List (String × Json)) :
    members.length ≤ (l.moreMembers depth members).length := by
  induction members with
  | nil => exact Nat.zero_le _
  | cons m rest ih =>
    simp only [Layout.moreMembers, List.length_cons, List.length_append]
    omega

theorem reads_array {items : List Json} (h : ∀ v ∈ items, Reads n l v) : Reads (n + 1) l (.array items) := by
  refine reads_of_text fun depth rest _ => ?_
  cases items with
  | nil =>
    show value? (n + 1) ('[' :: ']' :: rest) = _
    rw [value?_eq]
    rfl
  | cons v more =>
    have htext : l.text depth (.array (v :: more)) ++ rest =
        '[' :: (l.newLine (depth + 1) ++ (l.text (depth + 1) v ++
          (l.moreItems (depth + 1) more ++ (l.newLine depth ++ ']' :: rest)))) := by
      simp [Layout.text]
    have hlength := length_le_moreItems l (depth + 1) more
    rw [htext, value?_array, items?_text _ _ h]
    · rfl
    · simp only [List.length_append]
      omega
    · -- an end in place of the first item would not be read
      intro tail hend
      have hitems := items?_text (depth + 1) depth h (Nat.lt_succ_self more.length) [] rest
      rw [items?, value?_of_end hend] at hitems
      cases hitems

theorem reads_object {members : List (String × Json)} (h : ∀ m ∈ members, Reads n l m.2) :
    Reads (n + 1) l (.object members) := by
  refine reads_of_text fun depth rest _ => ?_
  cases members with
  | nil =>
    show value? (n + 1) ('\x7b' :: '\x7d' :: rest) = _
    rw [value?_eq]
    rfl
  | cons m more =>
    obtain ⟨k, v⟩ := m
    have htext : l.text depth (.object ((k, v) :: more)) ++ rest =
        '\x7b' :: (l.newLine (depth + 1) ++ ((quote k).toList ++ (':' :: (l.gap ++ (l.text (depth + 1) v ++
          (l.moreMembers (depth + 1) more ++ (l.newLine depth ++ '\x7d' :: rest))))))) := by
      simp [Layout.text]
    have hlength := length_le_moreMembers l (depth + 1) more
    rw [htext, value?_object, members?_text _ _ h]
    · rw [List.reverse_nil, List.nil_append, objectOf_some]
      rfl
    · simp only [List.length_append, List.length_cons]
      omega
    · intro tail hend
      rw [quote_append, skip_newLine_cons (depth + 1) rfl] at hend
      cases hend

theorem reads_string (n : Nat) (l : Layout) (s : String) : Reads n l (.string s) := by
  refine reads_of_text fun depth rest _ => ?_
  have hread := string?_quote s rest
  show value? n ((quote s).toList ++ rest) = _
  rw [quote_append] at hread ⊢
  rw [value?_eq]
  show (string? ('"' :: (s.toList.flatMap escapeChar ++ '"' :: rest))).map _ = _
  rw [hread]
  rfl

/-- A text is read back, up to where it ends. -/
theorem reads_of_whole (l : Layout) {v : Json} (h : v.Whole) {n : Nat} (hdepth : v.depth ≤ n) : Reads n l v := by
  induction h generalizing n with
  | null =>
    refine reads_of_text fun depth rest _ => ?_
    rw [value?_eq]
    rfl
  | bool b =>
    refine reads_of_text fun depth rest _ => ?_
    rw [value?_eq]
    cases b <;> rfl
  | int hlow hhigh => exact reads_of_text fun _ _ hrest => value?_of_number? n (number?_int hlow hhigh hrest)
  | minusZero => exact reads_of_text fun _ _ hrest => value?_of_number? n (number?_minusZero hrest)
  | string s => exact reads_string n l s
  | array hitems ih =>
    cases n with
    | zero => exact absurd hdepth (Nat.not_succ_le_zero _)
    | succ n => exact reads_array fun v hv => ih v hv (depth_array_le_iff.1 hdepth v hv)
  | object hmembers ih =>
    cases n with
    | zero => exact absurd hdepth (Nat.not_succ_le_zero _)
    | succ n => exact reads_object fun m hm => ih m hm (depth_object_le_iff.1 hdepth m hm)

end

end Reader

theorem readWritten?_text (l : Layout) {v : Json} (h : v.Whole) (depth : Nat) {text : String}
    (htext : text.toList = l.text depth v) : readWritten? text = some (.ofJson v) := by
  have hdepth := l.depth_le_length_text v depth
  have hread := Reader.reads_of_whole l h (Nat.le_succ_of_le hdepth) depth [] [] (by simp) Reader.ends_nil
  rw [List.nil_append, List.append_nil, ← htext] at hread
  unfold readWritten?
  simp only [hread]
  rfl

/-- A value with only whole numbers is read back, member by member, from either layout. -/
theorem readWritten?_compact {v : Json} (h : v.Whole) : readWritten? v.compact = some (.ofJson v) :=
  readWritten?_text .tight h 0 (toList_compact v 0)

theorem readWritten?_pretty {v : Json} (h : v.Whole) : readWritten? v.pretty = some (.ofJson v) :=
  readWritten?_text .spread h 0 (toList_prettyAt v 0)

end ReactCatalog.Json
