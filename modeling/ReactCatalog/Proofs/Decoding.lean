import ReactCatalog.Component.Doc
import ReactCatalog.Data.Decode
import ReactCatalog.Proofs.Dictionary
import ReactCatalog.Proofs.JsonText

/-!
# Decoders that undo writing

A value that is written down is the value that is meant, if its objects are sorted (`Json.Ordered`), and a decoder gives
back what was written from it. What a decoder gives from whole numbers can be written down again, on the level where it
was found (`Decoder.Inverts`). Lists and dictionaries take this over from their items, and records from their fields, which
are written if they are there.
-/

namespace ReactCatalog

theorem mapM_map_eq_some {α β γ : Type} {f : β → Option γ} {g : α → β} {k : α → γ} {xs : List α}
    (h : ∀ x ∈ xs, f (g x) = some (k x)) : (xs.map g).mapM f = some (xs.map k) := by
  induction xs with
  | nil => rfl
  | cons x rest ih =>
    have hrest := ih fun y hy => h y (List.mem_cons_of_mem _ hy)
    simp [List.mapM_cons, h x List.mem_cons_self, hrest]

/-- Items that are read back one by one are read back as a list. -/
theorem mapM_map_eq_some_self {α β : Type} {f : β → Option α} {g : α → β} {xs : List α}
    (h : ∀ x ∈ xs, f (g x) = some x) : (xs.map g).mapM f = some xs :=
  (mapM_map_eq_some (k := id) h).trans (by rw [List.map_id])

theorem exists_of_mem_mapM {α β : Type} {f : α → Option β} {xs : List α} {ys : List β} (h : xs.mapM f = some ys)
    {y : β} (hy : y ∈ ys) : ∃ x ∈ xs, f x = some y := by
  induction xs generalizing ys with
  | nil =>
    cases h
    cases hy
  | cons x rest ih =>
    rw [List.mapM_cons] at h
    obtain ⟨z, hz, h⟩ := Option.bind_eq_some_iff.1 h
    obtain ⟨zs, hzs, h⟩ := Option.bind_eq_some_iff.1 h
    cases h
    rcases List.mem_cons.1 hy with rfl | hy
    · exact ⟨x, List.mem_cons_self, hz⟩
    · obtain ⟨w, hw, hwy⟩ := ih hzs hy
      exact ⟨w, List.mem_cons_of_mem _ hw, hwy⟩

theorem sorted_of_dictionary {α : Type} {f : Decoder α} {n : Nat} {v : Written} {d : Dictionary α}
    (h : Decoder.dictionary f n v = some d) : Dictionary.Sorted d := by
  unfold Decoder.dictionary at h
  split at h
  · obtain ⟨ms, _, rfl⟩ := Option.map_eq_some_iff.1 h
    exact Dictionary.sorted_ofList ms
  · cases h

/-! ## Values -/

namespace Json

/-- The members of every object are sorted by key, each key once. -/
inductive Ordered : Json → Prop
  | null : Ordered .null
  | bool (b : Bool) : Ordered (.bool b)
  | int (n : Int) : Ordered (.int n)
  | float (x : Double) : Ordered (.float x)
  | string (s : String) : Ordered (.string s)
  | array {items : List Json} : (∀ v ∈ items, Ordered v) → Ordered (.array items)
  | object {members : List (String × Json)} : Dictionary.Sorted members → (∀ m ∈ members, Ordered m.2) →
      Ordered (.object members)

/-- What is asked of a value so that it can be read from its text: whole numbers, and no more than `n` levels. -/
structure Fits (n : Nat) (v : Json) : Prop where
  whole : v.Whole
  depth_le : v.depth ≤ n

section

variable {n : Nat}

theorem fits_string (n : Nat) (s : String) : (Json.string s).Fits n := ⟨.string s, Nat.zero_le n⟩

theorem fits_bool (n : Nat) (b : Bool) : (Json.bool b).Fits n := ⟨.bool b, Nat.zero_le n⟩

theorem fits_array {items : List Json} (h : ∀ v ∈ items, v.Fits n) : (Json.array items).Fits (n + 1) :=
  ⟨.array fun v hv => (h v hv).whole, depth_array_le_iff.2 fun v hv => (h v hv).depth_le⟩

theorem fits_object {members : List (String × Json)} (h : ∀ m ∈ members, m.2.Fits n) :
    (Json.object members).Fits (n + 1) :=
  ⟨.object fun m hm => (h m hm).whole, depth_object_le_iff.2 fun m hm => (h m hm).depth_le⟩

theorem fits_members {members : List (String × Json)} (h : (Json.object members).Fits (n + 1)) :
    ∀ m ∈ members, m.2.Fits n := by
  intro m hm
  cases h.whole with
  | object hwhole => exact ⟨hwhole m hm, depth_object_le_iff.1 h.depth_le m hm⟩

/-- A part that is always there. -/
theorem Fits.some {v : Json} (h : v.Fits n) : ∀ w, some v = some w → w.Fits n := by
  rintro _ ⟨⟩
  exact h

end

end Json

namespace Written

/-- Every number is a whole number of 64 bits, signed or not, or zero with a minus sign. -/
inductive Whole : Written → Prop
  | null : Whole .null
  | bool (b : Bool) : Whole (.bool b)
  | int {n : Int} : -2 ^ 63 ≤ n → n < 2 ^ 64 → Whole (.int n)
  | minusZero : Whole (.float Double.zero.neg)
  | string (s : String) : Whole (.string s)
  | array {items : List Written} : (∀ v ∈ items, Whole v) → Whole (.array items)
  | object {members : List (String × Written)} : (∀ m ∈ members, Whole m.2) → Whole (.object members)
  | broken : Whole .broken

theorem values?_eq (n : Nat) (items : List Written) : values? n items = items.mapM (value? n) := by
  induction items with
  | nil => rfl
  | cons v rest ih =>
    rw [values?, List.mapM_cons, ih]

theorem memberValues?_eq (n : Nat) (members : List (String × Written)) :
    memberValues? n members = members.mapM fun m => (m.2.value? n).map fun v => (m.1, v) := by
  induction members with
  | nil => rfl
  | cons m rest ih =>
    rw [memberValues?, List.mapM_cons, ih]
    cases m.2.value? n <;> rfl

theorem ofJsons_eq (items : List Json) : ofJsons items = items.map ofJson := by
  induction items with
  | nil => rfl
  | cons v rest ih => rw [ofJsons, ih, List.map_cons]

theorem ofMembers_eq (members : List (String × Json)) :
    ofMembers members = members.map fun m => (m.1, ofJson m.2) := by
  induction members with
  | nil => rfl
  | cons m rest ih => rw [ofMembers, ih, List.map_cons]

theorem value?_ofJson {v : Json} (h : v.Ordered) {n : Nat} (hdepth : v.depth ≤ n) :
    (ofJson v).value? n = some v := by
  induction h generalizing n with
  | null | bool _ | int _ | float _ | string _ => rfl
  | @array items hitems ih =>
    cases n with
    | zero => exact absurd hdepth (Nat.not_succ_le_zero _)
    | succ n =>
      have hvalues : values? n (ofJsons items) = some items := by
        rw [values?_eq, ofJsons_eq]
        exact mapM_map_eq_some_self fun v hv => ih v hv (Json.depth_array_le_iff.1 hdepth v hv)
      rw [ofJson, value?, if_neg (Nat.succ_ne_zero n), Nat.add_sub_cancel, hvalues]
      rfl
  | @object members hsorted hmembers ih =>
    cases n with
    | zero => exact absurd hdepth (Nat.not_succ_le_zero _)
    | succ n =>
      have hvalues : memberValues? n (ofMembers members) = some members := by
        rw [memberValues?_eq, ofMembers_eq]
        refine mapM_map_eq_some_self fun m hm => ?_
        rw [ih m hm (Json.depth_object_le_iff.1 hdepth m hm)]
        rfl
      rw [ofJson, value?, if_neg (Nat.succ_ne_zero n), Nat.add_sub_cancel, hvalues]
      exact congrArg (some ∘ Json.object) hsorted.ofList_eq

/-- The value that is meant is sorted and not deeper than allowed, and only null means null. -/
theorem value?_whole {w : Written} (h : w.Whole) {n : Nat} {v : Json} (hv : w.value? n = some v) :
    v.Ordered ∧ v.Fits n ∧ (v = .null → w = .null) := by
  induction h generalizing n v with
  | null =>
    cases hv
    exact ⟨.null, ⟨.null, Nat.zero_le _⟩, fun _ => rfl⟩
  | bool b =>
    cases hv
    exact ⟨.bool b, Json.fits_bool n b, nofun⟩
  | int hlow hhigh =>
    cases hv
    exact ⟨.int _, ⟨.int hlow hhigh, Nat.zero_le _⟩, nofun⟩
  | minusZero =>
    cases hv
    exact ⟨.float _, ⟨.minusZero, Nat.zero_le _⟩, nofun⟩
  | string s =>
    cases hv
    exact ⟨.string s, Json.fits_string n s, nofun⟩
  | broken => cases hv
  | @array items hitems ih =>
    cases n with
    | zero => cases hv
    | succ n =>
      rw [value?, if_neg (Nat.succ_ne_zero n), Nat.add_sub_cancel, values?_eq] at hv
      obtain ⟨vs, hvs, rfl⟩ := Option.map_eq_some_iff.1 hv
      have hall : ∀ u ∈ vs, u.Ordered ∧ u.Fits n := by
        intro u hu
        obtain ⟨x, hx, hxu⟩ := exists_of_mem_mapM hvs hu
        obtain ⟨hordered, hfits, _⟩ := ih x hx hxu
        exact ⟨hordered, hfits⟩
      exact ⟨.array fun u hu => (hall u hu).1, Json.fits_array fun u hu => (hall u hu).2, nofun⟩
  | @object members hmembers ih =>
    cases n with
    | zero => cases hv
    | succ n =>
      rw [value?, if_neg (Nat.succ_ne_zero n), Nat.add_sub_cancel, memberValues?_eq] at hv
      obtain ⟨ms, hms, rfl⟩ := Option.map_eq_some_iff.1 hv
      have hall : ∀ u ∈ Dictionary.ofList ms, u.2.Ordered ∧ u.2.Fits n := by
        intro u hu
        obtain ⟨x, hx, hxu⟩ := exists_of_mem_mapM hms (Dictionary.mem_of_mem_ofList hu)
        obtain ⟨y, hy, rfl⟩ := Option.map_eq_some_iff.1 hxu
        obtain ⟨hordered, hfits, _⟩ := ih x hx hy
        exact ⟨hordered, hfits⟩
      exact ⟨.object (Dictionary.sorted_ofList ms) fun u hu => (hall u hu).1,
        Json.fits_object fun u hu => (hall u hu).2, nofun⟩

end Written

/-! ## Decoders that undo writing -/

namespace Decoder

variable {α : Type}

/-- On some level a decoder gives back what was written, and what it gives can be written there. -/
structure Inverts (f : Decoder α) (write : α → Json) (Ok : α → Prop) (n : Nat) : Prop where
  reads : ∀ {a}, Ok a → (write a).depth ≤ n → f n (.ofJson (write a)) = some a
  writes : ∀ {w a}, w.Whole → f n w = some a → Ok a ∧ (write a).Fits n
  /-- Nothing but null is written as null. -/
  null : ∀ {w a}, w.Whole → f n w = some a → write a = .null → w = .null

theorem inverts_string (n : Nat) : Inverts string Json.string (fun _ => True) n where
  reads _ _ := rfl
  writes := by
    intro w a _ _
    exact ⟨trivial, Json.fits_string n a⟩
  null := nofun

theorem inverts_value (n : Nat) : Inverts value id Json.Ordered n where
  reads hordered hdepth := Written.value?_ofJson hordered hdepth
  writes := by
    intro w a hw h
    obtain ⟨hordered, hfits, _⟩ := Written.value?_whole hw h
    exact ⟨hordered, hfits⟩
  null := by
    intro w a hw h
    exact (Written.value?_whole hw h).2.2

section

variable {f : Decoder α} {write : α → Json} {Ok : α → Prop}

/-- A list is read one level deeper. -/
theorem Inverts.list {n : Nat} (h : ∀ m, n = m + 1 → Inverts f write Ok m) :
    Inverts (list f) (fun xs => .array (xs.map write)) (fun xs => ∀ a ∈ xs, Ok a) n where
  reads := by
    intro xs hok hdepth
    cases n with
    | zero => exact absurd hdepth (Nat.not_succ_le_zero _)
    | succ n =>
      rw [Json.depth_array_le_iff, List.forall_mem_map] at hdepth
      rw [Written.ofJson, Decoder.list, Written.ofJsons_eq, List.map_map]
      exact mapM_map_eq_some_self fun a ha => (h n rfl).reads (hok a ha) (hdepth a ha)
  writes := by
    intro w xs hw hxs
    unfold Decoder.list at hxs
    split at hxs
    · next n items =>
      cases hw with
      | array hitems =>
        have hall : ∀ a ∈ xs, Ok a ∧ (write a).Fits n := by
          intro a ha
          obtain ⟨v, hv, hva⟩ := exists_of_mem_mapM hxs ha
          exact (h n rfl).writes (hitems v hv) hva
        exact ⟨fun a ha => (hall a ha).1, Json.fits_array (List.forall_mem_map.2 fun a ha => (hall a ha).2)⟩
    · cases hxs
  null := nofun

theorem Inverts.dictionary {n : Nat} (h : ∀ m, n = m + 1 → Inverts f write Ok m) :
    Inverts (dictionary f) (fun d => .object (d.map fun m => (m.1, write m.2)))
      (fun d => Dictionary.Sorted d ∧ ∀ m ∈ d, Ok m.2) n where
  reads := by
    intro d hok hdepth
    cases n with
    | zero => exact absurd hdepth (Nat.not_succ_le_zero _)
    | succ n =>
      rw [Json.depth_object_le_iff, List.forall_mem_map] at hdepth
      have hmembers : (d.map fun m => (m.1, Written.ofJson (write m.2))).mapM
          (fun m => (f n m.2).map fun v => (m.1, v)) = some d := by
        refine mapM_map_eq_some_self fun m hm => ?_
        rw [(h n rfl).reads (hok.2 m hm) (hdepth m hm)]
        rfl
      rw [Written.ofJson, Decoder.dictionary, Written.ofMembers_eq, List.map_map]
      exact (congrArg (Option.map Dictionary.ofList) hmembers).trans (congrArg some hok.1.ofList_eq)
  writes := by
    intro w d hw hd
    unfold Decoder.dictionary at hd
    split at hd
    · next n members =>
      obtain ⟨ms, hms, rfl⟩ := Option.map_eq_some_iff.1 hd
      cases hw with
      | object hmembers =>
        have hall : ∀ m ∈ Dictionary.ofList ms, Ok m.2 ∧ (write m.2).Fits n := by
          intro m hm
          obtain ⟨x, hx, hxm⟩ := exists_of_mem_mapM hms (Dictionary.mem_of_mem_ofList hm)
          obtain ⟨y, hy, rfl⟩ := Option.map_eq_some_iff.1 hxm
          exact (h n rfl).writes (hmembers x hx) hy
        exact ⟨⟨Dictionary.sorted_ofList ms, fun m hm => (hall m hm).1⟩,
          Json.fits_object (List.forall_mem_map.2 fun m hm => (hall m hm).2)⟩
    · cases hd
  null := nofun

end

/-- The keys of a dictionary are among those of the object it was made of. -/
theorem key_of_mem_dictionary {f : Decoder α} {n : Nat} {members : List (String × Written)}
    {d : Dictionary α} (h : dictionary f n (.object members) = some d) {m : String × α} (hm : m ∈ d) :
    ∃ x ∈ members, x.1 = m.1 := by
  cases n with
  | zero => cases h
  | succ n =>
    obtain ⟨ms, hms, rfl⟩ := Option.map_eq_some_iff.1 h
    obtain ⟨x, hx, hxm⟩ := exists_of_mem_mapM hms (Dictionary.mem_of_mem_ofList hm)
    obtain ⟨y, _, rfl⟩ := Option.map_eq_some_iff.1 hxm
    exact ⟨x, hx, rfl⟩

/-! ## Records -/

namespace Slot

/-- The field of a record that is written if it has a value. -/
def ofPart : Option Json → Slot
  | some v => .present (.ofJson v)
  | none => .absent

/-- What stands in the field, if anything, has only whole numbers. -/
def Whole (slot : Slot) : Prop := ∀ v, slot = .present v → v.Whole

end Slot

theorem ofMembers_presentMembers_cons (part : String × Option Json) (rest : List (String × Option Json)) :
    Written.ofMembers (Json.presentMembers (part :: rest)) =
      (part.2.map fun v => (part.1, .ofJson v)).toList ++ Written.ofMembers (Json.presentMembers rest) := by
  rw [Written.ofMembers_eq, Written.ofMembers_eq, Json.presentMembers, Json.presentMembers]
  cases hpart : part.2 <;> simp [hpart]

theorem filter_presentMembers_of_not_mem {parts : List (String × Option Json)} {name : String}
    (h : name ∉ parts.map Prod.fst) :
    (Written.ofMembers (Json.presentMembers parts)).filter (fun m => m.1 == name) = [] := by
  induction parts with
  | nil => rfl
  | cons part rest ih =>
    rw [List.map_cons, List.mem_cons, not_or] at h
    have hne : (part.1 == name) = false := beq_eq_false_iff_ne.2 (Ne.symm h.1)
    rw [ofMembers_presentMembers_cons, List.filter_append, ih h.2]
    cases part.2 <;> simp [hne]

theorem slotOf?_presentMembers {parts : List (String × Option Json)} (h : (parts.map Prod.fst).Nodup)
    {part : String × Option Json} (hpart : part ∈ parts) :
    slotOf? (Written.ofMembers (Json.presentMembers parts)) part.1 = some (.ofPart part.2) := by
  induction parts with
  | nil => cases hpart
  | cons first rest ih =>
    rw [List.map_cons, List.nodup_cons] at h
    unfold slotOf? at ih ⊢
    rw [ofMembers_presentMembers_cons, List.filter_append]
    rcases List.mem_cons.1 hpart with rfl | hpart
    · rw [filter_presentMembers_of_not_mem h.1]
      cases part.2 <;> simp [Slot.ofPart]
    · have hne : (first.1 == part.1) = false :=
        beq_eq_false_iff_ne.2 fun heq => h.1 (heq ▸ List.mem_map_of_mem hpart)
      have hfirst : ((first.2.map fun v => (first.1, Written.ofJson v)).toList.filter fun m => m.1 == part.1) = [] := by
        cases first.2 <;> simp [hne]
      rw [hfirst, List.nil_append]
      exact ih h.2 hpart

/-- The fields of a record, read back. -/
theorem slots?_presentMembers {parts : List (String × Option Json)} (h : (parts.map Prod.fst).Nodup) (surplus : Surplus) :
    slots? surplus (parts.map Prod.fst) (.ofJson (.object (Json.presentMembers parts))) =
      some (parts.map fun p => .ofPart p.2) :=
  mapM_map_eq_some fun _ hp => slotOf?_presentMembers h hp

theorem mem_items_of_slotsOfItems {surplus : Surplus} {names : List String} {items : List Written}
    {slots : List Slot} (h : slotsOfItems surplus names items = some slots) {v : Written}
    (hv : Slot.present v ∈ slots) : v ∈ items := by
  induction names generalizing items slots with
  | nil =>
    cases items with
    | nil =>
      cases h
      cases hv
    | cons w rest =>
      unfold slotsOfItems at h
      split at h
      · cases h
      · cases h
        cases hv
  | cons name names ih =>
    cases items with
    | nil =>
      obtain ⟨more, hmore, rfl⟩ := Option.map_eq_some_iff.1 h
      rcases List.mem_cons.1 hv with hv | hv
      · cases hv
      · exact ih hmore hv
    | cons w rest =>
      obtain ⟨more, hmore, rfl⟩ := Option.map_eq_some_iff.1 h
      rcases List.mem_cons.1 hv with hv | hv
      · cases hv
        exact List.mem_cons_self
      · exact List.mem_cons_of_mem _ (ih hmore hv)

/-- The fields of a record with whole numbers have whole numbers. -/
theorem whole_of_slots? {surplus : Surplus} {names : List String} {w : Written} (hw : w.Whole) {slots : List Slot}
    (h : slots? surplus names w = some slots) {slot : Slot} (hslot : slot ∈ slots) : slot.Whole := by
  rintro v rfl
  cases hw with
  | @object members hmembers =>
    obtain ⟨name, _, hname⟩ := exists_of_mem_mapM h hslot
    unfold slotOf? at hname
    split at hname
    · cases hname
    · next m hm =>
      cases hname
      have hmem : m ∈ members.filter fun m => m.1 == name := by
        rw [hm]
        exact List.mem_cons_self
      exact hmembers m (List.mem_filter.1 hmem).1
    · cases hname
  | @array items hitems => exact hitems v (mem_items_of_slotsOfItems h hslot)
  | null | bool _ | int _ _ | minusZero | string _ | broken => cases h

section

variable {f : Decoder α} {write : α → Json} {Ok : α → Prop} {n : Nat}

theorem Inverts.required_ofPart (h : Inverts f write Ok n) {a : α} (ha : Ok a)
    (hdepth : ∀ v, some (write a) = some v → v.depth ≤ n) : (Slot.ofPart (some (write a))).required (f n) = some a :=
  h.reads ha (hdepth _ rfl)

theorem Inverts.required (h : Inverts f write Ok n) {slot : Slot} (hslot : slot.Whole) {a : α}
    (ha : slot.required (f n) = some a) : Ok a ∧ (write a).Fits n := by
  cases slot with
  | present v => exact h.writes (hslot v rfl) ha
  | absent => cases ha
  | cut => cases ha

theorem optional_eq_some {n : Nat} {v : Written} {x : Option α} (h : optional f n v = some x) :
    (v = .null ∧ x = none) ∨ (v ≠ .null ∧ ∃ a, f n v = some a ∧ x = some a) := by
  unfold optional at h
  split at h
  · cases h
    exact .inl ⟨rfl, rfl⟩
  · next hne =>
    obtain ⟨a, ha, rfl⟩ := Option.map_eq_some_iff.1 h
    exact .inr ⟨hne, a, ha, rfl⟩

theorem optional_of_ne_null {n : Nat} {v : Written} (h : v ≠ .null) : optional f n v = (f n v).map some := by
  unfold optional
  split
  · exact absurd rfl h
  · rfl

/-- A field that may be missing is written if it is there. -/
theorem Inverts.optional_ofPart (h : Inverts f write Ok n) {x : Option α}
    (hx : ∀ a, x = some a → Ok a ∧ write a ≠ .null) (hdepth : ∀ v, x.map write = some v → v.depth ≤ n) :
    (Slot.ofPart (x.map write)).optional (Decoder.optional f n) = some x := by
  cases x with
  | none => rfl
  | some a =>
    obtain ⟨hok, hne⟩ := hx a rfl
    have hwritten : Written.ofJson (write a) ≠ .null := by
      intro hnull
      apply hne
      cases hj : write a <;> rw [hj] at hnull <;> first | rfl | cases hnull
    show Decoder.optional f n (.ofJson (write a)) = _
    rw [optional_of_ne_null hwritten, h.reads hok (hdepth _ rfl)]
    rfl

theorem Inverts.optional (h : Inverts f write Ok n) {slot : Slot} (hslot : slot.Whole) {x : Option α}
    (hx : slot.optional (Decoder.optional f n) = some x) :
    (∀ a, x = some a → Ok a ∧ write a ≠ .null) ∧ ∀ v, x.map write = some v → v.Fits n := by
  cases x with
  | none => exact ⟨nofun, nofun⟩
  | some a =>
    cases slot with
    | present v =>
      have hv := hslot v rfl
      rcases optional_eq_some hx with ⟨_, hnone⟩ | ⟨hne, b, hb, heq⟩
      · cases hnone
      · cases heq
        obtain ⟨hok, hfits⟩ := h.writes hv hb
        constructor
        · rintro _ ⟨⟩
          exact ⟨hok, fun hnull => hne (h.null hv hb hnull)⟩
        · rintro _ ⟨⟩
          exact hfits
    | absent => cases hx
    | cut => cases hx

theorem Inverts.withDefault (h : Inverts f write Ok n) {slot : Slot} (hslot : slot.Whole)
    {d a : α} (ha : slot.withDefault d (f n) = some a) : a = d ∨ (Ok a ∧ (write a).Fits n) := by
  cases slot with
  | present v => exact .inr (h.writes (hslot v rfl) ha)
  | absent => exact .inl (Option.some.inj ha).symm
  | cut => exact .inl (Option.some.inj ha).symm

/-- A list that is left out if it is empty. -/
theorem withDefault_ofPart
    (h : Inverts (list f) (fun xs => .array (xs.map write)) (fun xs => ∀ a ∈ xs, Ok a) n) {xs : List α}
    (hok : ∀ a ∈ xs, Ok a)
    (hdepth : ∀ v, (if xs.isEmpty then none else some (Json.array (xs.map write))) = some v → v.depth ≤ n) :
    (Slot.ofPart (if xs.isEmpty then none else some (.array (xs.map write)))).withDefault [] (list f n) = some xs := by
  cases xs with
  | nil => rfl
  | cons x rest => exact h.reads hok (hdepth _ rfl)

theorem fits_of_withDefault
    (h : Inverts (list f) (fun xs => .array (xs.map write)) (fun xs => ∀ a ∈ xs, Ok a) n) {slot : Slot}
    (hslot : slot.Whole) {xs : List α} (hxs : slot.withDefault [] (list f n) = some xs) :
    ∀ v, (if xs.isEmpty then none else some (Json.array (xs.map write))) = some v → v.Fits n := by
  rcases h.withDefault hslot hxs with rfl | ⟨_, hfits⟩
  · exact nofun
  · cases xs with
    | nil => exact nofun
    | cons x rest => exact hfits.some

end

theorem forall_presentMembers {parts : List (String × Option Json)} {P : Json → Prop} :
    (∀ m ∈ Json.presentMembers parts, P m.2) ↔ ∀ p ∈ parts, ∀ v, p.2 = some v → P v := by
  constructor
  · intro h p hp v hv
    exact h (p.1, v) (List.mem_filterMap.2 ⟨p, hp, by rw [hv]; rfl⟩)
  · intro h m hm
    obtain ⟨p, hp, hpm⟩ := List.mem_filterMap.1 hm
    obtain ⟨v, hv, rfl⟩ := Option.map_eq_some_iff.1 hpm
    exact h p hp v hv

/-- A record is read back from its parts, which stand one level deeper. -/
theorem Inverts.record {names : List String} {make : Nat → List Slot → Option α} {write : α → Json} {Ok : α → Prop}
    {n : Nat} {parts : α → List (String × Option Json)} (hnames : names.Nodup)
    (hparts : ∀ a, (parts a).map Prod.fst = names) (hwrite : ∀ a, write a = .object (Json.presentMembers (parts a)))
    (hreads : ∀ m a, n = m + 1 → Ok a → (∀ p ∈ parts a, ∀ v, p.2 = some v → v.depth ≤ m) →
      make m ((parts a).map fun p => .ofPart p.2) = some a)
    (hwrites : ∀ m slots a, n = m + 1 → (∀ slot ∈ slots, slot.Whole) → make m slots = some a →
      Ok a ∧ ∀ p ∈ parts a, ∀ v, p.2 = some v → v.Fits m) :
    Inverts (record names make) write Ok n where
  reads := by
    intro a hok hdepth
    rw [hwrite] at hdepth ⊢
    cases n with
    | zero => exact absurd hdepth (Nat.not_succ_le_zero _)
    | succ n =>
      rw [Json.depth_object_le_iff] at hdepth
      have hslots : slots? .refused ((parts a).map Prod.fst) (.ofJson (.object (Json.presentMembers (parts a)))) =
          some ((parts a).map fun p => .ofPart p.2) := slots?_presentMembers (by rwa [hparts]) _
      rw [hparts] at hslots
      rw [Decoder.record, hslots, Option.bind_some]
      exact hreads n a rfl hok (forall_presentMembers.1 hdepth)
  writes := by
    intro w a hw ha
    cases n with
    | zero => cases ha
    | succ n =>
      obtain ⟨slots, hslots, hmake⟩ := Option.bind_eq_some_iff.1 ha
      obtain ⟨hok, hfits⟩ := hwrites n slots a rfl (fun slot hslot => whole_of_slots? hw hslots hslot) hmake
      rw [hwrite]
      exact ⟨hok, Json.fits_object (forall_presentMembers.2 hfits)⟩
  null := by
    intro w a _ _ hnull
    rw [hwrite] at hnull
    cases hnull

end Decoder

end ReactCatalog
