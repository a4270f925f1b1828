import Mathlib.Data.String.Basic
import ReactCatalog.Text.Utf8

/-!
# Encoding and decoding text

Decoding inverts encoding: bytes stand for a text if and only if they are its encoding (`decode?_eq_some_iff`), and
where bytes are decoded with replacement characters, what is no replacement was encoded so. Encoding keeps the order
of texts (`utf8_le_utf8`).
-/

namespace ReactCatalog.Text

open String (utf8EncodeChar)

/-! ## One character -/

/-- A byte that continues a character. -/
def IsFurther (b : UInt8) : Prop := 0x80 ≤ b.toNat ∧ b.toNat ≤ 0xbf

/-- The bytes of the character with this number: three are not for numbers that fit into two, nor for surrogates, and
four neither for numbers that fit into three nor for those above the characters. -/
inductive Encodes : List UInt8 → Nat → Prop
  | one {b : UInt8} {v : Nat} : b.toNat < 0x80 → v = b.toNat → Encodes [b] v
  | two {b b₁ : UInt8} {v : Nat} : 0xc2 ≤ b.toNat → b.toNat < 0xe0 → IsFurther b₁ →
      v = b.toNat % 32 * 64 + b₁.toNat % 64 → Encodes [b, b₁] v
  | three {b b₁ b₂ : UInt8} {v : Nat} : 0xe0 ≤ b.toNat → b.toNat < 0xf0 → IsFurther b₁ →
      (b.toNat = 0xe0 → 0xa0 ≤ b₁.toNat) → (b.toNat = 0xed → b₁.toNat ≤ 0x9f) → IsFurther b₂ →
      v = (b.toNat % 16 * 64 + b₁.toNat % 64) * 64 + b₂.toNat % 64 → Encodes [b, b₁, b₂] v
  | four {b b₁ b₂ b₃ : UInt8} {v : Nat} : 0xf0 ≤ b.toNat → b.toNat ≤ 0xf4 → IsFurther b₁ →
      (b.toNat = 0xf0 → 0x90 ≤ b₁.toNat) → (b.toNat = 0xf4 → b₁.toNat ≤ 0x8f) → IsFurther b₂ → IsFurther b₃ →
      v = ((b.toNat % 8 * 64 + b₁.toNat % 64) * 64 + b₂.toNat % 64) * 64 + b₃.toNat % 64 →
      Encodes [b, b₁, b₂, b₃] v

theorem toNat_ofNat {v : Nat} (h : v.isValidChar) : (Char.ofNat v).toNat = v := by
  unfold Char.ofNat
  rw [dif_pos h]
  rfl

theorem encode_one {c : Char} (h : c.toNat ≤ 0x7f) : utf8EncodeChar c = [.ofNat c.toNat] := by
  unfold utf8EncodeChar
  simp only [Char.toNat_val]
  rw [if_pos h]

theorem encode_two {c : Char} (h : 0x7f < c.toNat) (h' : c.toNat ≤ 0x7ff) :
    utf8EncodeChar c = [.ofNat (c.toNat / 64 % 32 + 0xc0), .ofNat (c.toNat % 64 + 0x80)] := by
  unfold utf8EncodeChar
  simp only [Char.toNat_val]
  rw [if_neg (by omega), if_pos h']

theorem encode_three {c : Char} (h : 0x7ff < c.toNat) (h' : c.toNat ≤ 0xffff) :
    utf8EncodeChar c =
      [.ofNat (c.toNat / 4096 % 16 + 0xe0), .ofNat (c.toNat / 64 % 64 + 0x80), .ofNat (c.toNat % 64 + 0x80)] := by
  unfold utf8EncodeChar
  simp only [Char.toNat_val]
  rw [if_neg (by omega), if_neg (by omega), if_pos h']

theorem encode_four {c : Char} (h : 0xffff < c.toNat) :
    utf8EncodeChar c =
      [.ofNat (c.toNat / 262144 % 8 + 0xf0), .ofNat (c.toNat / 4096 % 64 + 0x80), .ofNat (c.toNat / 64 % 64 + 0x80),
        .ofNat (c.toNat % 64 + 0x80)] := by
  unfold utf8EncodeChar
  simp only [Char.toNat_val]
  rw [if_neg (by omega), if_neg (by omega), if_neg (by omega)]

theorem ofNat_eq {b : UInt8} {v : Nat} (h : v = b.toNat) : UInt8.ofNat v = b := by
  rw [h, UInt8.ofNat_toNat]

/-- The number is one of a character. -/
theorem Encodes.isValidChar {bs : List UInt8} {v : Nat} (h : Encodes bs v) : v.isValidChar := by
  unfold Nat.isValidChar
  cases h with
  | one hb hv => omega
  | two hlo hhi hb₁ hv => omega
  | three hlo hhi hb₁ hleast hsurrogate hb₂ hv =>
    obtain ⟨h₁, h₁'⟩ := hb₁
    omega
  | four hlo hhi hb₁ hleast hgreatest hb₂ hb₃ hv =>
    obtain ⟨h₁, h₁'⟩ := hb₁
    omega

/-- The bytes are the encoding of the character with the number. -/
theorem Encodes.encode {bs : List UInt8} {v : Nat} (h : Encodes bs v) : utf8EncodeChar (Char.ofNat v) = bs := by
  have hc := toNat_ofNat h.isValidChar
  cases h with
  | one hb hv => rw [encode_one (by omega), hc, ofNat_eq hv]
  | @two b b₁ _ hlo hhi hb₁ hv =>
    obtain ⟨h₁, h₁'⟩ := hb₁
    rw [encode_two (by omega) (by omega), hc, ofNat_eq (b := b) (by omega), ofNat_eq (b := b₁) (by omega)]
  | @three b b₁ b₂ _ hlo hhi hb₁ hleast _ hb₂ hv =>
    obtain ⟨h₁, h₁'⟩ := hb₁
    obtain ⟨h₂, h₂'⟩ := hb₂
    rw [encode_three (by omega) (by omega), hc, ofNat_eq (b := b) (by omega), ofNat_eq (b := b₁) (by omega),
      ofNat_eq (b := b₂) (by omega)]
  | @four b b₁ b₂ b₃ _ hlo hhi hb₁ hleast _ hb₂ hb₃ hv =>
    obtain ⟨h₁, h₁'⟩ := hb₁
    obtain ⟨h₂, h₂'⟩ := hb₂
    obtain ⟨h₃, h₃'⟩ := hb₃
    rw [encode_four (by omega), hc, ofNat_eq (b := b) (by omega), ofNat_eq (b := b₁) (by omega),
      ofNat_eq (b := b₂) (by omega), ofNat_eq (b := b₃) (by omega)]

theorem toNat_ofNat_small {v : Nat} (h : v < 256) : (UInt8.ofNat v).toNat = v := by
  rw [UInt8.toNat_ofNat', Nat.mod_eq_of_lt h]

theorem isFurther_ofNat (v : Nat) : IsFurther (.ofNat (v % 64 + 0x80)) := by
  unfold IsFurther
  rw [toNat_ofNat_small (by omega)]
  omega

/-- Every character has its bytes. -/
theorem encodes_encode (c : Char) : Encodes (utf8EncodeChar c) c.toNat := by
  have hvalid : c.toNat < 0xd800 ∨ 0xdfff < c.toNat ∧ c.toNat < 0x110000 := c.valid
  rcases Nat.lt_or_ge 0x7f c.toNat with h₁ | h₁
  · have hlast := toNat_ofNat_small (show c.toNat % 64 + 0x80 < 256 by omega)
    rcases Nat.lt_or_ge 0x7ff c.toNat with h₂ | h₂
    · have hmiddle := toNat_ofNat_small (show c.toNat / 64 % 64 + 0x80 < 256 by omega)
      rcases Nat.lt_or_ge 0xffff c.toNat with h₃ | h₃
      · have hlead := toNat_ofNat_small (show c.toNat / 262144 % 8 + 0xf0 < 256 by omega)
        have hsecond := toNat_ofNat_small (show c.toNat / 4096 % 64 + 0x80 < 256 by omega)
        rw [encode_four h₃]
        apply Encodes.four _ _ (isFurther_ofNat _) _ _ (isFurther_ofNat _) (isFurther_ofNat _) _ <;> omega
      · have hlead := toNat_ofNat_small (show c.toNat / 4096 % 16 + 0xe0 < 256 by omega)
        rw [encode_three h₂ h₃]
        apply Encodes.three _ _ (isFurther_ofNat _) _ _ (isFurther_ofNat _) _ <;> omega
    · have hlead := toNat_ofNat_small (show c.toNat / 64 % 32 + 0xc0 < 256 by omega)
      rw [encode_two h₁ h₂]
      apply Encodes.two _ _ (isFurther_ofNat _) _ <;> omega
  · have hlead := toNat_ofNat_small (show c.toNat < 256 by omega)
    rw [encode_one h₁]
    apply Encodes.one <;> omega

/-! ## Reading one character -/

theorem leadOf?_one {b : UInt8} (h : b.toNat < 0x80) : leadOf? b = some (0, 0, 0) := by
  simp [leadOf?, h]

theorem leadOf?_two {b : UInt8} (h : 0xc2 ≤ b.toNat) (h' : b.toNat < 0xe0) : leadOf? b = some (1, 0x80, 0xbf) := by
  unfold leadOf?
  dsimp only
  rw [if_neg (by omega), if_neg (by omega), if_pos h']

theorem leadOf?_three {b : UInt8} (h : 0xe0 ≤ b.toNat) (h' : b.toNat < 0xf0) :
    leadOf? b = some (2, if b.toNat = 0xe0 then 0xa0 else 0x80, if b.toNat = 0xed then 0x9f else 0xbf) := by
  unfold leadOf?
  dsimp only
  split_ifs <;> first | rfl | omega

theorem leadOf?_four {b : UInt8} (h : 0xf0 ≤ b.toNat) (h' : b.toNat ≤ 0xf4) :
    leadOf? b = some (3, if b.toNat = 0xf0 then 0x90 else 0x80, if b.toNat = 0xf4 then 0x8f else 0xbf) := by
  unfold leadOf?
  dsimp only
  split_ifs <;> first | rfl | omega

theorem leadOf?_none {b : UInt8} (h : 0x80 ≤ b.toNat ∧ b.toNat < 0xc2 ∨ 0xf4 < b.toNat) : leadOf? b = none := by
  unfold leadOf?
  dsimp only
  split_ifs <;> first | rfl | omega

theorem takeFurther_cons {more lo hi code : Nat} {b : UInt8} (rest : List UInt8) (h : lo ≤ b.toNat ∧ b.toNat ≤ hi) :
    takeFurther (more + 1) lo hi code (b :: rest) =
      ((takeFurther more 0x80 0xbf (code * 64 + b.toNat % 64) rest).1,
        (takeFurther more 0x80 0xbf (code * 64 + b.toNat % 64) rest).2 + 1) := by
  rw [takeFurther, if_pos h]

theorem exists_of_takeFurther {more lo hi code n : Nat} {rest : List UInt8} {c : Char}
    (h : takeFurther (more + 1) lo hi code rest = (some c, n)) :
    ∃ b tail m, rest = b :: tail ∧ (lo ≤ b.toNat ∧ b.toNat ≤ hi) ∧ n = m + 1 ∧
      takeFurther more 0x80 0xbf (code * 64 + b.toNat % 64) tail = (some c, m) := by
  cases rest with
  | nil => cases h
  | cons b tail =>
    by_cases hb : lo ≤ b.toNat ∧ b.toNat ≤ hi
    · rw [takeFurther_cons tail hb, Prod.mk.injEq] at h
      exact ⟨b, tail, _, rfl, hb, h.2.symm, Prod.ext h.1 rfl⟩
    · rw [takeFurther, if_neg hb] at h
      cases h

/-- A character is read from its bytes, whatever follows. -/
theorem Encodes.leadingScalar {b : UInt8} {more : List UInt8} {v : Nat} (h : Encodes (b :: more) v)
    (rest : List UInt8) : leadingScalar b (more ++ rest) = (some (Char.ofNat v), more.length) := by
  unfold Text.leadingScalar
  cases h with
  | one hb hv => simp [leadOf?_one hb, hv]
  | two hlo hhi hb₁ hv =>
    subst hv
    rw [leadOf?_two hlo hhi]
    simp only [List.cons_append]
    rw [takeFurther_cons _ hb₁]
    rfl
  | @three _ b₁ _ _ hlo hhi hb₁ hleast hsurrogate hb₂ hv =>
    subst hv
    have hrange : (if b.toNat = 0xe0 then 0xa0 else 0x80) ≤ b₁.toNat ∧
        b₁.toNat ≤ if b.toNat = 0xed then 0x9f else 0xbf := by
      obtain ⟨h₁, h₁'⟩ := hb₁
      split_ifs <;> omega
    rw [leadOf?_three hlo hhi]
    simp only [List.cons_append]
    rw [takeFurther_cons _ hrange, takeFurther_cons _ hb₂]
    rfl
  | @four _ b₁ _ _ _ hlo hhi hb₁ hleast hgreatest hb₂ hb₃ hv =>
    subst hv
    have hrange : (if b.toNat = 0xf0 then 0x90 else 0x80) ≤ b₁.toNat ∧
        b₁.toNat ≤ if b.toNat = 0xf4 then 0x8f else 0xbf := by
      obtain ⟨h₁, h₁'⟩ := hb₁
      split_ifs <;> omega
    rw [leadOf?_four hlo hhi]
    simp only [List.cons_append]
    rw [takeFurther_cons _ hrange, takeFurther_cons _ hb₂, takeFurther_cons _ hb₃]
    rfl

/-- What is read as a character was one. -/
theorem encodes_of_leadingScalar {b : UInt8} {rest : List UInt8} {c : Char} {n : Nat}
    (h : leadingScalar b rest = (some c, n)) : ∃ more tail v, rest = more ++ tail ∧ more.length = n ∧
      Encodes (b :: more) v ∧ c = Char.ofNat v := by
  unfold leadingScalar at h
  rcases Nat.lt_or_ge b.toNat 0x80 with h₀ | h₀
  · rw [leadOf?_one h₀] at h
    cases h
    exact ⟨[], rest, b.toNat, rfl, rfl, .one h₀ rfl, rfl⟩
  rcases Nat.lt_or_ge b.toNat 0xc2 with h₁ | h₁
  · rw [leadOf?_none (.inl ⟨h₀, h₁⟩)] at h
    cases h
  rcases Nat.lt_or_ge b.toNat 0xe0 with h₂ | h₂
  · rw [leadOf?_two h₁ h₂] at h
    obtain ⟨b₁, tail, m, rfl, hb₁, rfl, hnone⟩ := exists_of_takeFurther h
    cases hnone
    exact ⟨[b₁], tail, _, rfl, rfl, .two h₁ h₂ hb₁ rfl, rfl⟩
  rcases Nat.lt_or_ge b.toNat 0xf0 with h₃ | h₃
  · rw [leadOf?_three h₂ h₃] at h
    obtain ⟨b₁, tail, m, rfl, hb₁, rfl, hone⟩ := exists_of_takeFurther h
    obtain ⟨b₂, tail, m, rfl, hb₂, rfl, hnone⟩ := exists_of_takeFurther hone
    cases hnone
    have hfurther : IsFurther b₁ := by
      unfold IsFurther
      split_ifs at hb₁ <;> omega
    refine ⟨[b₁, b₂], tail, _, rfl, rfl, .three h₂ h₃ hfurther ?_ ?_ hb₂ rfl, rfl⟩
    · intro he
      simpa [he] using hb₁.1
    · intro he
      simpa [he] using hb₁.2
  rcases Nat.lt_or_ge 0xf4 b.toNat with h₄ | h₄
  · rw [leadOf?_none (.inr h₄)] at h
    cases h
  · rw [leadOf?_four h₃ h₄] at h
    obtain ⟨b₁, tail, m, rfl, hb₁, rfl, htwo⟩ := exists_of_takeFurther h
    obtain ⟨b₂, tail, m, rfl, hb₂, rfl, hone⟩ := exists_of_takeFurther htwo
    obtain ⟨b₃, tail, m, rfl, hb₃, rfl, hnone⟩ := exists_of_takeFurther hone
    cases hnone
    have hfurther : IsFurther b₁ := by
      unfold IsFurther
      split_ifs at hb₁ <;> omega
    refine ⟨[b₁, b₂, b₃], tail, _, rfl, rfl, .four h₃ h₄ hfurther ?_ ?_ hb₂ hb₃ rfl, rfl⟩
    · intro he
      simpa [he] using hb₁.1
    · intro he
      simpa [he] using hb₁.2

/-! ## Texts -/

theorem scalars_encode (c : Char) (rest : List UInt8) :
    scalars (utf8EncodeChar c ++ rest) = some c :: scalars rest := by
  have he := encodes_encode c
  cases hbytes : utf8EncodeChar c with
  | nil => exact absurd hbytes String.utf8EncodeChar_ne_nil
  | cons b more =>
    rw [hbytes] at he
    have hread := he.leadingScalar rest
    rw [List.cons_append, scalars, hread, Char.ofNat_toNat]
    simp

/-- What is read as a character was encoded so. -/
theorem scalars_eq_cons {bs : List UInt8} {c : Char} {cs : List (Option Char)} (h : scalars bs = some c :: cs) :
    ∃ tail, bs = utf8EncodeChar c ++ tail ∧ scalars tail = cs := by
  cases bs with
  | nil => simp [scalars] at h
  | cons b rest =>
    rw [scalars] at h
    cases hr : leadingScalar b rest with
    | mk x n =>
      rw [hr] at h
      simp only [List.cons.injEq] at h
      obtain ⟨rfl, h⟩ := h
      obtain ⟨more, tail, v, rfl, rfl, he, rfl⟩ := encodes_of_leadingScalar hr
      rw [List.drop_left] at h
      exact ⟨tail, by rw [he.encode]; rfl, h⟩

theorem scalars_utf8 (s : String) : scalars (utf8 s) = s.toList.map some := by
  unfold utf8
  induction s.toList with
  | nil => simp [scalars]
  | cons c rest ih => rw [List.flatMap_cons, scalars_encode, ih, List.map_cons]

theorem eq_of_scalars {bs : List UInt8} {cs : List Char} (h : scalars bs = cs.map some) :
    bs = cs.flatMap utf8EncodeChar := by
  induction cs generalizing bs with
  | nil =>
    cases bs with
    | nil => rfl
    | cons b rest => simp [scalars] at h
  | cons c rest ih =>
    obtain ⟨tail, rfl, ht⟩ := scalars_eq_cons h
    rw [List.flatMap_cons, ih ht]

theorem mapM_id_eq_some_iff {α : Type} {xs : List (Option α)} {ys : List α} :
    xs.mapM id = some ys ↔ xs = ys.map some := by
  induction xs generalizing ys with
  | nil => cases ys <;> simp
  | cons x rest ih =>
    cases x with
    | none => cases ys <;> simp [List.mapM_cons]
    | some x =>
      have hcons : (some x :: rest).mapM id = (rest.mapM id).map (x :: ·) := by
        cases hrest : rest.mapM id <;> simp [List.mapM_cons, hrest]
      rw [hcons, Option.map_eq_some_iff]
      constructor
      · rintro ⟨zs, hz, rfl⟩
        rw [ih.1 hz, List.map_cons]
      · intro h
        cases ys with
        | nil => cases h
        | cons y ys =>
          rw [List.map_cons, List.cons.injEq, Option.some.injEq] at h
          exact ⟨ys, ih.2 h.2, by rw [h.1]⟩

/-- Bytes stand for a text if they are its encoding. -/
theorem decode?_eq_some_iff {bs : List UInt8} {s : String} : decode? bs = some s ↔ bs = utf8 s := by
  unfold decode?
  constructor
  · intro h
    obtain ⟨cs, hcs, rfl⟩ := Option.map_eq_some_iff.1 h
    rw [eq_of_scalars (mapM_id_eq_some_iff.1 hcs), utf8, String.toList_ofList]
  · rintro rfl
    rw [scalars_utf8, mapM_id_eq_some_iff.2 rfl, Option.map_some, String.ofList_toList]

/-- The character that stands for a piece that is none. -/
def replacement : Char := '\uFFFD'

theorem toList_decodeLossy (bs : List UInt8) :
    (decodeLossy bs).toList = (scalars bs).map fun c => c.getD replacement :=
  String.toList_ofList

theorem eq_map_some_of_getD {α : Type} {r : α} {xs : List (Option α)} {ys : List α}
    (h : xs.map (fun x => x.getD r) = ys) (hr : r ∉ ys) : xs = ys.map some := by
  induction xs generalizing ys with
  | nil =>
    subst h
    rfl
  | cons x rest ih =>
    subst h
    rw [List.map_cons, List.mem_cons, not_or] at hr
    cases x with
    | none => exact absurd rfl hr.1
    | some x =>
      rw [List.map_cons, List.map_cons, ← ih rfl hr.2]
      rfl

theorem decodeLossy_utf8 (s : String) : decodeLossy (utf8 s) = s := by
  apply String.toList_inj.1
  rw [toList_decodeLossy, scalars_utf8, List.map_map]
  exact List.map_id _

/-- Bytes that are shown without replacements are the encoding of what is shown. -/
theorem decodeLossy_eq_iff {bs : List UInt8} {s : String} (hs : replacement ∉ s.toList) :
    decodeLossy bs = s ↔ bs = utf8 s := by
  constructor
  · intro h
    have hmap : (scalars bs).map (fun c => c.getD replacement) = s.toList := by rw [← h, toList_decodeLossy]
    exact eq_of_scalars (eq_map_some_of_getD hmap hs)
  · rintro rfl
    exact decodeLossy_utf8 s

/-- Bytes that are shown with a character first, no replacement, start with its encoding. -/
theorem head?_decodeLossy {c : Char} (hc : c ≠ replacement) (bs : List UInt8) :
    (decodeLossy bs).toList.head? = some c ↔ utf8EncodeChar c <+: bs := by
  rw [toList_decodeLossy, List.head?_map, Option.map_eq_some_iff]
  constructor
  · rintro ⟨x, hx, hxc⟩
    cases x with
    | none => exact absurd hxc.symm hc
    | some d =>
      obtain ⟨rest, hs⟩ := List.head?_eq_some_iff.1 hx
      obtain ⟨tail, rfl, _⟩ := scalars_eq_cons hs
      cases hxc
      exact List.prefix_append _ _
  · rintro ⟨tail, rfl⟩
    exact ⟨some c, by rw [scalars_encode]; rfl, rfl⟩

/-- A character that is read was encoded somewhere. -/
theorem exists_of_mem_scalars {bs : List UInt8} {c : Char} (h : some c ∈ scalars bs) :
    ∃ front back, bs = front ++ utf8EncodeChar c ++ back := by
  induction bs using scalars.induct with
  | case1 => simp [scalars] at h
  | case2 b rest x n hr ih =>
    rw [scalars, hr] at h
    rcases List.mem_cons.1 h with rfl | hmem
    · obtain ⟨more, tail, v, rfl, _, he, rfl⟩ := encodes_of_leadingScalar hr
      exact ⟨[], tail, by rw [he.encode]; rfl⟩
    · obtain ⟨front, back, hdrop⟩ := ih hmem
      refine ⟨b :: rest.take n ++ front, back, ?_⟩
      rw [List.append_assoc, List.append_assoc, ← List.append_assoc front, ← hdrop, List.cons_append,
        List.take_append_drop]

/-- Bytes without a slash are shown without one. -/
theorem slash_not_mem_decodeLossy {bs : List UInt8} (h : (0x2f : UInt8) ∉ bs) : '/' ∉ (decodeLossy bs).toList := by
  rw [toList_decodeLossy, List.mem_map]
  rintro ⟨x, hx, hslash⟩
  cases x with
  | none => exact absurd hslash (by decide)
  | some c =>
    have hc : c = '/' := hslash
    subst hc
    obtain ⟨front, back, rfl⟩ := exists_of_mem_scalars hx
    have hbyte : utf8EncodeChar '/' = [0x2f] := by decide
    exact h (by simp [hbyte])

/-- A byte below 0x80 is no part of a longer encoding. -/
theorem Encodes.eq_of_mem {bs : List UInt8} {v : Nat} {b : UInt8} (h : Encodes bs v) (hmem : b ∈ bs)
    (hb : b.toNat < 0x80) : v = b.toNat := by
  cases h with
  | one _ hv =>
    rw [List.mem_singleton.1 hmem]
    exact hv
  | two hlo _ hb₁ _ =>
    simp only [List.mem_cons, List.not_mem_nil, or_false] at hmem
    obtain ⟨h₁, _⟩ := hb₁
    rcases hmem with rfl | rfl <;> omega
  | three hlo _ hb₁ _ _ hb₂ _ =>
    simp only [List.mem_cons, List.not_mem_nil, or_false] at hmem
    obtain ⟨h₁, _⟩ := hb₁
    obtain ⟨h₂, _⟩ := hb₂
    rcases hmem with rfl | rfl | rfl <;> omega
  | four hlo _ hb₁ _ _ hb₂ hb₃ _ =>
    simp only [List.mem_cons, List.not_mem_nil, or_false] at hmem
    obtain ⟨h₁, _⟩ := hb₁
    obtain ⟨h₂, _⟩ := hb₂
    obtain ⟨h₃, _⟩ := hb₃
    rcases hmem with rfl | rfl | rfl | rfl <;> omega

theorem mem_of_mem_utf8 {b : UInt8} {s : String} (h : b ∈ utf8 s) (hb : b.toNat < 0x80) :
    Char.ofNat b.toNat ∈ s.toList := by
  obtain ⟨c, hc, hbc⟩ := List.mem_flatMap.1 h
  rw [← (encodes_encode c).eq_of_mem hbc hb, Char.ofNat_toNat]
  exact hc

/-! ## Order -/

theorem cons_lt_cons {a b : UInt8} {x y : List UInt8} (h : a.toNat < b.toNat ∨ a.toNat = b.toNat ∧ x < y) :
    a :: x < b :: y := by
  rw [List.cons_lt_cons_iff, UInt8.lt_iff_toNat_lt, ← UInt8.toNat_inj]
  exact h

/-- The number that further bytes make of one at hand. -/
def numberOf (v : Nat) : List UInt8 → Nat
  | [] => v
  | b :: rest => numberOf (v * 64 + b.toNat % 64) rest

/-- Of two numbers with as many further bytes, the smaller one is smaller at hand or has the smaller bytes. -/
theorem lt_of_numberOf_lt {bs cs : List UInt8} {v w : Nat} (h : numberOf v bs < numberOf w cs)
    (hlength : bs.length = cs.length) (hb : ∀ b ∈ bs, IsFurther b) (hc : ∀ c ∈ cs, IsFurther c) (x y : List UInt8) :
    v < w ∨ v = w ∧ bs ++ x < cs ++ y := by
  induction bs generalizing cs v w with
  | nil =>
    cases cs with
    | nil => exact .inl h
    | cons c rest => cases hlength
  | cons b rest ih =>
    cases cs with
    | nil => cases hlength
    | cons c rest' =>
      obtain ⟨⟨h₁, h₁'⟩, hrest⟩ := List.forall_mem_cons.1 hb
      obtain ⟨⟨k₁, k₁'⟩, hrest'⟩ := List.forall_mem_cons.1 hc
      have hnext : v * 64 + b.toNat % 64 < w * 64 + c.toNat % 64 ∨
          v * 64 + b.toNat % 64 = w * 64 + c.toNat % 64 ∧ rest ++ x < rest' ++ y :=
        ih h (Nat.succ.inj hlength) hrest hrest'
      rcases hnext with hlt | ⟨heq, hlt⟩
      · rcases Nat.lt_or_ge v w with hvw | hvw
        · exact .inl hvw
        · exact .inr ⟨by omega, cons_lt_cons (.inl (by omega))⟩
      · exact .inr ⟨by omega, cons_lt_cons (.inr ⟨by omega, hlt⟩)⟩

/-- Of two characters the one with the smaller number has the smaller bytes, and neither starts like the other. -/
theorem Encodes.lt {bs bs' : List UInt8} {v w : Nat} (h : Encodes bs v) (h' : Encodes bs' w) (hvw : v < w)
    (x y : List UInt8) : bs ++ x < bs' ++ y := by
  cases h with
  | one hb hv =>
    cases h' with
    | one hb' hw => exact cons_lt_cons (.inl (by omega))
    | two hlo _ _ _ => exact cons_lt_cons (.inl (by omega))
    | three hlo _ _ _ _ _ _ => exact cons_lt_cons (.inl (by omega))
    | four hlo _ _ _ _ _ _ _ => exact cons_lt_cons (.inl (by omega))
  | @two b b₁ _ hlo hhi hb₁ hv =>
    cases h' with
    | one hb' hw => omega
    | @two c c₁ _ hlo' hhi' hc₁ hw =>
      have hnumber : numberOf (b.toNat % 32) [b₁] < numberOf (c.toNat % 32) [c₁] := by
        simpa only [numberOf, hv, hw] using hvw
      rcases lt_of_numberOf_lt hnumber rfl (by simpa using hb₁) (by simpa using hc₁) x y with hlt | ⟨heq, hlt⟩
      · exact cons_lt_cons (.inl (by omega))
      · exact cons_lt_cons (.inr ⟨by omega, hlt⟩)
    | three hlo' _ _ _ _ _ _ => exact cons_lt_cons (.inl (by omega))
    | four hlo' _ _ _ _ _ _ _ => exact cons_lt_cons (.inl (by omega))
  | @three b b₁ b₂ _ hlo hhi hb₁ hleast hsurrogate hb₂ hv =>
    have hb₁' : 0x80 ≤ b₁.toNat ∧ b₁.toNat ≤ 0xbf := hb₁
    cases h' with
    | one hb' hw => omega
    | two hlo' hhi' hc₁ hw => omega
    | @three c c₁ c₂ _ hlo' hhi' hc₁ hleast' hsurrogate' hc₂ hw =>
      have hnumber : numberOf (b.toNat % 16) [b₁, b₂] < numberOf (c.toNat % 16) [c₁, c₂] := by
        simpa only [numberOf, hv, hw] using hvw
      rcases lt_of_numberOf_lt hnumber rfl (by simpa using ⟨hb₁, hb₂⟩) (by simpa using ⟨hc₁, hc₂⟩) x y
        with hlt | ⟨heq, hlt⟩
      · exact cons_lt_cons (.inl (by omega))
      · exact cons_lt_cons (.inr ⟨by omega, hlt⟩)
    | four hlo' _ _ _ _ _ _ _ => exact cons_lt_cons (.inl (by omega))
  | @four b b₁ b₂ b₃ _ hlo hhi hb₁ hleast hgreatest hb₂ hb₃ hv =>
    have hb₁' : 0x80 ≤ b₁.toNat ∧ b₁.toNat ≤ 0xbf := hb₁
    cases h' with
    | one hb' hw => omega
    | two hlo' hhi' hc₁ hw => omega
    | three hlo' hhi' hc₁ hleast' hsurrogate' hc₂ hw => omega
    | @four c c₁ c₂ c₃ _ hlo' hhi' hc₁ hleast' hgreatest' hc₂ hc₃ hw =>
      have hnumber : numberOf (b.toNat % 8) [b₁, b₂, b₃] < numberOf (c.toNat % 8) [c₁, c₂, c₃] := by
        simpa only [numberOf, hv, hw] using hvw
      rcases lt_of_numberOf_lt hnumber rfl (by simpa using ⟨hb₁, hb₂, hb₃⟩) (by simpa using ⟨hc₁, hc₂, hc₃⟩) x y
        with hlt | ⟨heq, hlt⟩
      · exact cons_lt_cons (.inl (by omega))
      · exact cons_lt_cons (.inr ⟨by omega, hlt⟩)

theorem append_lt_append_left (pre : List UInt8) {x y : List UInt8} (h : x < y) : pre ++ x < pre ++ y := by
  induction pre with
  | nil => exact h
  | cons b rest ih => exact cons_lt_cons (.inr ⟨rfl, ih⟩)

theorem flatMap_encode_lt {cs ds : List Char} (h : cs < ds) :
    cs.flatMap utf8EncodeChar < ds.flatMap utf8EncodeChar := by
  induction cs generalizing ds with
  | nil =>
    cases ds with
    | nil => exact absurd h (List.lt_irrefl _)
    | cons d rest =>
      rw [List.flatMap_nil, List.flatMap_cons]
      cases hd : utf8EncodeChar d with
      | nil => exact absurd hd String.utf8EncodeChar_ne_nil
      | cons b more => exact List.nil_lt_cons _ _
  | cons c rest ih =>
    cases ds with
    | nil => cases h
    | cons d rest' =>
      rw [List.cons_lt_cons_iff] at h
      rw [List.flatMap_cons, List.flatMap_cons]
      rcases h with h | ⟨rfl, h⟩
      · exact (encodes_encode c).lt (encodes_encode d) h _ _
      · exact append_lt_append_left _ (ih h)

/-- Texts are ordered like their encodings. -/
theorem utf8_le_utf8 {s t : String} (h : s ≤ t) : utf8 s ≤ utf8 t := by
  rcases lt_or_eq_of_le h with hlt | rfl
  · exact List.le_of_lt (flatMap_encode_lt hlt)
  · exact List.le_refl _

end ReactCatalog.Text
