import ReactCatalog.Proofs.Dictionary
import ReactCatalog.Proofs.Validators
import ReactCatalog.Proofs.Wrappers

/-!
# What validator expressions say

Validators are called by their names or by a path that ends in them, and they nest to any depth. What is meant is a
term of a small language (`Validator`), which does not tell how its validators are written. An expression is described
by the description of its term (`validatorType_of_writtenAt`), so the spelling of names has no influence, and nothing
in it is only known by its text (`propType_of_writtenAt`).
-/

namespace ReactCatalog

/-! ## Validators -/

/-- Validators of collections, which say what their items are. -/
inductive CollectionForm where
  | arrayOf
  | objectOf

def CollectionForm.name : CollectionForm → String
  | arrayOf => "arrayOf"
  | objectOf => "objectOf"

/-- Validators of objects, which say what their members are. -/
inductive RecordForm where
  | shape
  | exact

def RecordForm.name : RecordForm → String
  | shape => "shape"
  | exact => "exact"

/-- What a validator expression says. Items and members say themselves whether they are required. -/
inductive Validator where
  | primitive (name : String) (known : name ∈ primitiveValidators)
  | oneOf (values : List DefaultValue)
  | instanceOf (text : String)
  | collection (form : CollectionForm) (item : Validator) (required : Bool)
  | oneOfType (alternatives : List Validator)
  | record (form : RecordForm) (members : List (String × Validator × Bool))

namespace Validator

/-- A property that composite validators take over from what they are made of is one of all validators. -/
@[elab_as_elim]
theorem induct {motive : Validator → Prop} (primitive : ∀ name known, motive (.primitive name known))
    (oneOf : ∀ values, motive (.oneOf values)) (instanceOf : ∀ text, motive (.instanceOf text))
    (collection : ∀ form item required, motive item → motive (.collection form item required))
    (oneOfType : ∀ alternatives, (∀ v ∈ alternatives, motive v) → motive (.oneOfType alternatives))
    (record : ∀ form members, (∀ m ∈ members, motive m.2.1) → motive (.record form members)) (v : Validator) :
    motive v :=
  @Validator.rec motive (fun vs => ∀ v ∈ vs, motive v) (fun ms => ∀ m ∈ ms, motive m.2.1) (fun m => motive m.2.1)
    (fun m => motive m.1) primitive oneOf instanceOf collection oneOfType record
    (fun _ h => absurd h List.not_mem_nil)
    (fun _ _ hv hrest w hw => (List.mem_cons.1 hw).elim (fun h => h ▸ hv) (hrest w))
    (fun _ h => absurd h List.not_mem_nil)
    (fun _ _ hm hrest n hn => (List.mem_cons.1 hn).elim (fun h => h ▸ hm) (hrest n))
    (fun _ _ hm => hm) (fun _ _ hv => hv) v

mutual

/-- The type that a validator names. -/
def describe : Validator → TypeDoc
  | primitive name _ => .named name
  | oneOf values => (TypeDoc.named "enum").withValue (.array (values.map fun d => d.toJson.sorted))
  | instanceOf text => (TypeDoc.named "instanceOf").withValue (.string text)
  | collection form item required =>
    (TypeDoc.named form.name).withValue
      (if required then item.describe.toValue.setMember "required" (.bool true) else item.describe.toValue)
  | oneOfType alternatives => (TypeDoc.named "union").withValue (.array (describeAll alternatives))
  | record form members =>
    (TypeDoc.named form.name).withValue (.object (Dictionary.ofList (describeMembers members)))

def describeAll : List Validator → List Json
  | [] => []
  | v :: rest => v.describe.toValue :: describeAll rest

def describeMembers : List (String × Validator × Bool) → List (String × Json)
  | [] => []
  | (key, v, required) :: rest =>
    (key, v.describe.toValue.setMember "required" (.bool required)) :: describeMembers rest

end

theorem describeAll_eq (vs : List Validator) : describeAll vs = vs.map fun v => v.describe.toValue := by
  induction vs with
  | nil => rfl
  | cons v rest ih => rw [describeAll, ih, List.map_cons]

/-- What is said of one member of an object. -/
def memberDoc (m : String × Validator × Bool) : Json := m.2.1.describe.toValue.setMember "required" (.bool m.2.2)

theorem describeMembers_eq (ms : List (String × Validator × Bool)) :
    describeMembers ms = ms.map fun m => (m.1, memberDoc m) := by
  induction ms with
  | nil => rfl
  | cons m rest ih =>
    obtain ⟨key, v, required⟩ := m
    rw [describeMembers, ih, List.map_cons]
    rfl

end Validator

/-! ## How validators are written -/

/-- A name, or a path of members that ends in it. -/
def Names (name : String) (p : Place) : Prop :=
  p.kind = .identifier ∧ p.text = name ∨ p.kind = .memberExpression ∧ p.fieldText? .property = some name

instance (name : String) (p : Place) : Decidable (Names name p) :=
  inferInstanceAs (Decidable (_ ∨ _))

/-- The first argument, without wrappers, of a call of what is so named. -/
def argumentOf? (name : String) (p : Place) : Option Place :=
  if p.kind = .callExpression ∧ ∃ f ∈ p.field? .function, Names name f then firstArgument? p else none

/-- The validator alone, or what stands before `.isRequired`. -/
def marked? : Bool → Place → Option Place
  | false, p => some p
  | true, p =>
    if p.bare.kind = .memberExpression ∧ p.bare.fieldText? .property = some "isRequired" then p.bare.field? .object
    else none

namespace Validator

mutual

/-- An expression says what the validator says, and there are no comments where it is read. -/
def WrittenAt : Validator → Place → Prop
  | primitive name _, p => Names name p.bare
  | oneOf values, p => ∃ a ∈ argumentOf? "oneOf" p.bare, a.kind = .array ∧
      (∀ c ∈ a.namedChildren, c.kind ≠ .comment) ∧ a.namedChildren.map (fun c => ⟨c.text, !c.isLiteral⟩) = values
  | instanceOf text, p => ∃ a ∈ argumentOf? "instanceOf" p.bare, a.text = text
  | collection form item required, p => ∃ a ∈ argumentOf? form.name p.bare, ∃ q ∈ marked? required a, item.WrittenAt q
  | oneOfType alternatives, p => ∃ a ∈ argumentOf? "oneOfType" p.bare, a.kind = .array ∧
      AllWrittenAt alternatives a.namedChildren
  | record form members, p => ∃ a ∈ argumentOf? form.name p.bare, a.kind = .object ∧
      MembersWrittenAt members a.namedChildren

def AllWrittenAt : List Validator → List Place → Prop
  | [], ps => ps = []
  | _ :: _, [] => False
  | v :: rest, p :: ps => v.WrittenAt p ∧ AllWrittenAt rest ps

def MembersWrittenAt : List (String × Validator × Bool) → List Place → Prop
  | [], ps => ps = []
  | _ :: _, [] => False
  | (key, v, required) :: rest, p :: ps =>
    (∃ m ∈ keyed? p, m.1 = key ∧ ∃ q ∈ marked? required m.2, v.WrittenAt q) ∧ MembersWrittenAt rest ps

end

mutual

def decidableWrittenAt : (v : Validator) → (p : Place) → Decidable (v.WrittenAt p)
  | primitive name _, p => inferInstanceAs (Decidable (Names name p.bare))
  | oneOf values, p => inferInstanceAs (Decidable (∃ a ∈ argumentOf? "oneOf" p.bare, a.kind = .array ∧
      (∀ c ∈ a.namedChildren, c.kind ≠ .comment) ∧ a.namedChildren.map (fun c => ⟨c.text, !c.isLiteral⟩) = values))
  | instanceOf text, p => inferInstanceAs (Decidable (∃ a ∈ argumentOf? "instanceOf" p.bare, a.text = text))
  | collection form item required, p =>
    have := item.decidableWrittenAt
    inferInstanceAs (Decidable (∃ a ∈ argumentOf? form.name p.bare, ∃ q ∈ marked? required a, item.WrittenAt q))
  | oneOfType alternatives, p =>
    have := decidableAllWrittenAt alternatives
    inferInstanceAs (Decidable (∃ a ∈ argumentOf? "oneOfType" p.bare, a.kind = .array ∧
      AllWrittenAt alternatives a.namedChildren))
  | record form members, p =>
    have := decidableMembersWrittenAt members
    inferInstanceAs (Decidable (∃ a ∈ argumentOf? form.name p.bare, a.kind = .object ∧
      MembersWrittenAt members a.namedChildren))

def decidableAllWrittenAt : (vs : List Validator) → (ps : List Place) → Decidable (AllWrittenAt vs ps)
  | [], ps => inferInstanceAs (Decidable (ps = []))
  | _ :: _, [] => .isFalse id
  | v :: rest, p :: ps =>
    have := v.decidableWrittenAt p
    have := decidableAllWrittenAt rest ps
    inferInstanceAs (Decidable (v.WrittenAt p ∧ AllWrittenAt rest ps))

def decidableMembersWrittenAt :
    (ms : List (String × Validator × Bool)) → (ps : List Place) → Decidable (MembersWrittenAt ms ps)
  | [], ps => inferInstanceAs (Decidable (ps = []))
  | _ :: _, [] => .isFalse id
  | (key, v, required) :: rest, p :: ps =>
    have := v.decidableWrittenAt
    have := decidableMembersWrittenAt rest ps
    inferInstanceAs (Decidable ((∃ m ∈ keyed? p, m.1 = key ∧ ∃ q ∈ marked? required m.2, v.WrittenAt q) ∧
      MembersWrittenAt rest ps))

end

instance (v : Validator) (p : Place) : Decidable (v.WrittenAt p) := v.decidableWrittenAt p

end Validator

theorem Names.calledName? {name : String} {p : Place} (h : Names name p) : p.calledName? = some name := by
  rcases h with ⟨hk, ht⟩ | ⟨hk, hp⟩
  · simp [Place.calledName?, hk, ht]
  · simp [Place.calledName?, hk, hp]

theorem Names.kind {name : String} {p : Place} (h : Names name p) :
    p.kind = .identifier ∨ p.kind = .memberExpression :=
  h.imp And.left And.left

theorem kind_of_argumentOf? {name : String} {p a : Place} (h : a ∈ argumentOf? name p) :
    p.kind = .callExpression := by
  by_contra hk
  simp [argumentOf?, hk] at h

/-- A call of a validator is described by what is described of its argument. -/
theorem validatorType_of_argumentOf? {name : String} {p a : Place} (h : a ∈ argumentOf? name p.bare) :
    validatorType p = callType (customType p.bare) p.bare.text (some name) (argumentDoc a) := by
  unfold argumentOf? at h
  split at h
  · next hcall =>
    obtain ⟨hk, f, hf, hname⟩ := hcall
    rw [validatorType_of_call hk, Option.mem_def.1 h, Option.mem_def.1 hf, Option.bind_some, hname.calledName?]
    rfl
  · cases h

/-- The mark is taken off and told. -/
theorem propType_of_marked? {p q : Place} {required : Bool} (hm : q ∈ marked? required p)
    (h : withoutRequired? q.bare = none) : propType p = (validatorType q, required) := by
  rw [propType_eq]
  cases required with
  | false =>
    obtain rfl := Option.some.inj hm
    rw [h]
    rfl
  | true =>
    have hq : withoutRequired? p.bare = some q := hm
    rw [hq]
    rfl

/-! ## Expressions are described as what they say -/

namespace Validator

/-- What is written is a name or a call. -/
theorem WrittenAt.name_or_call {v : Validator} {p : Place} (h : v.WrittenAt p) :
    (∃ name ∈ primitiveValidators, Names name p.bare) ∨ p.bare.kind = .callExpression := by
  cases v with
  | primitive name known => exact .inl ⟨name, known, h⟩
  | oneOf _ | instanceOf _ | collection _ _ _ | oneOfType _ | record _ _ =>
    obtain ⟨a, ha, _⟩ := h
    exact .inr (kind_of_argumentOf? ha)

/-- A validator that is written does not end in `.isRequired`. -/
theorem WrittenAt.not_required {v : Validator} {p : Place} (h : v.WrittenAt p) : withoutRequired? p.bare = none := by
  rcases h.name_or_call with ⟨name, known, hn⟩ | hc
  · have hne : name ≠ "isRequired" := by
      rintro rfl
      exact absurd known (by decide)
    rcases hn with ⟨hk, _⟩ | ⟨_, hp⟩
    · simp [withoutRequired?, hk]
    · simp [withoutRequired?, hp, hne]
  · simp [withoutRequired?, hc]

theorem WrittenAt.not_comment {v : Validator} {p : Place} (h : v.WrittenAt p) : p.kind ≠ .comment := by
  intro hk
  have hbare : p.bare.kind = .comment := by rw [bare_of_comment hk, hk]
  rcases h.name_or_call with ⟨name, _, hn⟩ | hc
  · rcases hn.kind with hn | hn <;> simp [hbare] at hn
  · simp [hbare] at hc

/-- The alternatives are described one for one. -/
theorem AllWrittenAt.types {vs : List Validator} {ps : List Place}
    (ih : ∀ v ∈ vs, ∀ p, v.WrittenAt p → validatorType p = v.describe) (h : AllWrittenAt vs ps) :
    (withoutComments ps).map (fun p => (validatorType p).toValue) = describeAll vs := by
  induction vs generalizing ps with
  | nil =>
    obtain rfl := h
    rfl
  | cons v rest ihrest =>
    cases ps with
    | nil => exact h.elim
    | cons p ps =>
      obtain ⟨hp, hrest⟩ := h
      have hmore := ihrest (fun w hw => ih w (List.mem_cons_of_mem _ hw)) hrest
      rw [withoutComments] at hmore ⊢
      rw [List.filter_cons_of_pos (by simpa using hp.not_comment), List.map_cons, hmore,
        ih v List.mem_cons_self p hp, describeAll]

/-- What is written as a member is a pair. -/
theorem MembersWrittenAt.pairs {ms : List (String × Validator × Bool)} {ps : List Place} (h : MembersWrittenAt ms ps) :
    ∀ p ∈ ps, p.kind = .pair := by
  induction ms generalizing ps with
  | nil =>
    obtain rfl := h
    simp
  | cons m rest ih =>
    cases ps with
    | nil => exact h.elim
    | cons p ps =>
      obtain ⟨⟨n, hn, _⟩, hrest⟩ := h
      have hp : p.kind = .pair := by
        by_contra hk
        simp [keyed?, hk] at hn
      exact List.forall_mem_cons.2 ⟨hp, ih hrest⟩

/-- The members are described one for one, if there is no comment on them. -/
theorem MembersWrittenAt.types {ms : List (String × Validator × Bool)} {ps : List Place}
    (ih : ∀ m ∈ ms, ∀ p, m.2.1.WrittenAt p → validatorType p = m.2.1.describe) (hdoc : ∀ p ∈ ps, p.docblock? = none)
    (h : MembersWrittenAt ms ps) : ps.filterMap shapeMember? = describeMembers ms := by
  induction ms generalizing ps with
  | nil =>
    obtain rfl := h
    rfl
  | cons m rest ihrest =>
    obtain ⟨key, v, required⟩ := m
    cases ps with
    | nil => exact h.elim
    | cons p ps =>
      obtain ⟨⟨⟨name, value⟩, hkey, rfl, q, hmark, hv⟩, hrest⟩ := h
      obtain ⟨hp, hps⟩ := List.forall_mem_cons.1 hdoc
      have htype : propType value = (v.describe, required) := by
        rw [propType_of_marked? hmark hv.not_required, ih _ List.mem_cons_self q hv]
      have hmember : shapeMember? p = some (name, v.describe.toValue.setMember "required" (.bool required)) := by
        simp [shapeMember?, Option.mem_def.1 hkey, htype, hp]
      rw [List.filterMap_cons_some hmember, ihrest (fun w hw => ih w (List.mem_cons_of_mem _ hw)) hps hrest,
        describeMembers]

/-- Members of an object without comments have no documentation. -/
theorem docblock?_of_pairs {a : Place} (hk : a.kind = .object) (h : ∀ p ∈ a.namedChildren, p.kind = .pair) :
    ∀ p ∈ a.namedChildren, p.docblock? = none := by
  intro p hp
  obtain ⟨i, c, hc, rfl⟩ := Place.mem_children_iff.1 (Place.mem_children_of_mem_namedChildren hp)
  have hplain : (a.down i c).precedingDoc? = none := by
    refine Place.precedingDoc?_down_of_plain hc fun j _ b hb hcomment => ?_
    have hb' : a.down j b ∈ a.namedChildren :=
      List.mem_filter.2 ⟨Place.mem_children_iff.2 ⟨j, b, hb, rfl⟩, by
        show b.kind.isNamed = true
        rw [hcomment]
        rfl⟩
    have hpair : b.kind = .pair := h _ hb'
    rw [hcomment] at hpair
    cases hpair
  rw [Place.docblock?_down, hplain, hk]
  rfl

/-- An expression is described as what it says. -/
theorem validatorType_of_writtenAt {v : Validator} {p : Place} (h : v.WrittenAt p) : validatorType p = v.describe := by
  induction v using Validator.induct generalizing p with
  | primitive name known =>
    have hn : Names name p.bare := h
    have hcall : p.bare.kind ≠ .callExpression := by
      rcases hn.kind with hk | hk <;> simp [hk]
    rw [validatorType_of_not_call hcall, if_pos hn.kind, hn.calledName?,
      Option.filter_some, if_pos (List.contains_iff_mem.2 known)]
    rfl
  | oneOf values =>
    obtain ⟨a, ha, hk, hcomments, rfl⟩ := h
    have hall : withoutComments a.namedChildren = a.namedChildren :=
      List.filter_eq_self.2 fun c hc => by simpa using hcomments c hc
    have hvalues : (argumentDoc a).members = a.namedChildren.map enumMember := by rw [argumentDoc, hall]
    rw [validatorType_of_argumentOf? ha, callType, if_pos rfl, if_pos (show (argumentDoc a).kind = .array from hk),
      hvalues, describe, List.map_map]
    rfl
  | instanceOf text =>
    obtain ⟨a, ha, rfl⟩ := h
    rw [validatorType_of_argumentOf? ha]
    rfl
  | collection form item required ih =>
    obtain ⟨a, ha, q, hmark, hitem⟩ := h
    have hdoc : (argumentDoc a).item =
        if required then item.describe.toValue.setMember "required" (.bool true) else item.describe.toValue := by
      rw [argumentDoc, itemType, propType_of_marked? hmark hitem.not_required, ih hitem]
    rw [validatorType_of_argumentOf? ha, describe, ← hdoc]
    cases form <;> rfl
  | oneOfType alternatives ih =>
    obtain ⟨a, ha, hk, hall⟩ := h
    have hdoc : (argumentDoc a).alternatives = describeAll alternatives := hall.types fun v hv p => ih v hv
    rw [validatorType_of_argumentOf? ha, describe, ← hdoc, callType, if_neg (by simp), if_pos rfl,
      if_pos (show (argumentDoc a).kind = .array from hk)]
  | record form members ih =>
    obtain ⟨a, ha, hk, hall⟩ := h
    have hshape : shapeType a = .object (Dictionary.ofList (describeMembers members)) := by
      rw [shapeType_eq, hall.types (fun m hm p => ih m hm) (docblock?_of_pairs hk hall.pairs)]
    have hdoc : (argumentDoc a).shape = some (.object (Dictionary.ofList (describeMembers members))) := by
      rw [argumentDoc, if_pos hk, hshape]
    rw [validatorType_of_argumentOf? ha, describe]
    cases form <;> simp [callType, hdoc, RecordForm.name]

end Validator

/-! ## What a description says -/

namespace Json

/-- All members of objects, at any depth, are such. -/
inductive Throughout (P : String → Json → Prop) : Json → Prop
  | null : Throughout P .null
  | bool (b : Bool) : Throughout P (.bool b)
  | int (n : Int) : Throughout P (.int n)
  | float (x : Double) : Throughout P (.float x)
  | string (s : String) : Throughout P (.string s)
  | array {items : List Json} : (∀ v ∈ items, Throughout P v) → Throughout P (.array items)
  | object {members : List (String × Json)} : (∀ m ∈ members, P m.1 m.2) → (∀ m ∈ members, Throughout P m.2) →
      Throughout P (.object members)

/-- No type in it is only known by its text. -/
def NoCustom (v : Json) : Prop := Throughout (fun key value => key = "name" → value ≠ .string "custom") v

theorem sorted_eq_string {v : Json} {s : String} (h : v.sorted = .string s) : v = .string s := by
  cases v with
  | string t => simpa [sorted] using h
  | null | bool _ | int _ | float _ | array _ | object _ => simp [sorted] at h

/-- Sorting brings in nothing. -/
theorem NoCustom.sorted {v : Json} (h : v.NoCustom) : v.sorted.NoCustom := by
  unfold NoCustom at h ⊢
  induction h with
  | null => exact .null
  | bool b => exact .bool b
  | int n => exact .int n
  | float x => exact .float x
  | string s => exact .string s
  | array _ ih =>
    rw [Json.sorted, sortedItems_eq]
    exact .array (List.forall_mem_map.2 ih)
  | @object members hmembers _ ih =>
    have hfrom : ∀ m ∈ Dictionary.ofList (sortedMembers members), ∃ n ∈ members, (n.1, n.2.sorted) = m := by
      intro m hm
      have hmem := Dictionary.mem_of_mem_ofList hm
      rwa [sortedMembers_eq, List.mem_map] at hmem
    refine .object (fun m hm => ?_) fun m hm => ?_
    · obtain ⟨n, hn, rfl⟩ := hfrom m hm
      exact fun hkey hcustom => hmembers n hn hkey (sorted_eq_string hcustom)
    · obtain ⟨n, hn, rfl⟩ := hfrom m hm
      exact ih n hn

theorem NoCustom.members {v : Json} (h : v.NoCustom) :
    ∀ m ∈ v.members, (m.1 = "name" → m.2 ≠ .string "custom") ∧ m.2.NoCustom := by
  cases h with
  | object hmembers hinner => exact fun m hm => ⟨hmembers m hm, hinner m hm⟩
  | null | bool _ | int _ | float _ | string _ | array _ => exact fun _ hm => absurd hm List.not_mem_nil

/-- A flag may be put to it. -/
theorem NoCustom.setMember {v : Json} (h : v.NoCustom) (key : String) (b : Bool) :
    (v.setMember key (.bool b)).NoCustom := by
  have hall : ∀ m ∈ Dictionary.insert key (.bool b) v.members,
      (m.1 = "name" → m.2 ≠ .string "custom") ∧ m.2.NoCustom := by
    intro m hm
    rcases Dictionary.mem_insert hm with rfl | hm
    · exact ⟨fun _ => by simp, .bool b⟩
    · exact h.members m hm
  exact .object (fun m hm => (hall m hm).1) fun m hm => (hall m hm).2

end Json

theorem TypeDoc.noCustom_toJson {name : String} {value : Option Json} (hname : name ≠ "custom")
    (hvalue : ∀ v ∈ value, v.NoCustom) : (TypeDoc.mk name value none none).toJson.NoCustom := by
  have hall : ∀ m ∈ Json.presentMembers [("name", some (.string name)), ("value", value), ("raw", none)],
      (m.1 = "name" → m.2 ≠ .string "custom") ∧ m.2.NoCustom := by
    intro m hm
    cases value with
    | none =>
      obtain rfl : m = ("name", .string name) := by simpa [Json.presentMembers] using hm
      exact ⟨fun _ h => hname (Json.string.inj h), .string name⟩
    | some v =>
      have hm : m = ("name", .string name) ∨ m = ("value", v) := by simpa [Json.presentMembers] using hm
      rcases hm with rfl | rfl
      · exact ⟨fun _ h => hname (Json.string.inj h), .string name⟩
      · exact ⟨fun h => absurd h (show "value" ≠ "name" by decide), hvalue v rfl⟩
  exact .object (fun m hm => (hall m hm).1) fun m hm => (hall m hm).2

namespace Validator

/-- Nothing in a description is known only by its text. -/
theorem noCustom_describe (v : Validator) : v.describe.toJson.NoCustom := by
  have hitem : ∀ (v : Validator) (required : Bool), v.describe.toJson.NoCustom →
      (v.describe.toValue.setMember "required" (.bool required)).NoCustom :=
    fun v required h => h.sorted.setMember "required" required
  induction v using Validator.induct with
  | primitive name known =>
    refine TypeDoc.noCustom_toJson ?_ (by simp)
    rintro rfl
    exact absurd known (by decide)
  | oneOf values =>
    refine TypeDoc.noCustom_toJson (by decide) fun j hj => ?_
    obtain rfl := Option.some.inj hj
    refine .array (List.forall_mem_map.2 fun d _ => ?_)
    refine Json.NoCustom.sorted (.object ?_ ?_)
    · simp
    · simpa using ⟨.string d.value, .bool d.computed⟩
  | instanceOf text =>
    refine TypeDoc.noCustom_toJson (by decide) fun j hj => ?_
    obtain rfl := Option.some.inj hj
    exact .string text
  | collection form item required ih =>
    rw [describe]
    refine TypeDoc.noCustom_toJson (by cases form <;> decide) fun j hj => ?_
    obtain rfl := Option.some.inj hj
    cases required with
    | true => exact hitem item true ih
    | false => exact ih.sorted
  | oneOfType alternatives ih =>
    rw [describe, describeAll_eq]
    refine TypeDoc.noCustom_toJson (by decide) fun j hj => ?_
    obtain rfl := Option.some.inj hj
    exact .array (List.forall_mem_map.2 fun v hv => (ih v hv).sorted)
  | record form members ih =>
    rw [describe, describeMembers_eq]
    refine TypeDoc.noCustom_toJson (by cases form <;> decide) fun j hj => ?_
    obtain rfl := Option.some.inj hj
    have hfrom : ∀ m ∈ Dictionary.ofList (members.map fun m => (m.1, memberDoc m)),
        ∃ n ∈ members, (n.1, memberDoc n) = m :=
      fun m hm => List.mem_map.1 (Dictionary.mem_of_mem_ofList hm)
    refine .object (fun m hm => ?_) fun m hm => ?_
    · obtain ⟨n, hn, rfl⟩ := hfrom m hm
      exact fun _ h => by cases h
    · obtain ⟨n, hn, rfl⟩ := hfrom m hm
      exact hitem n.2.1 n.2.2 (ih n hn)

end Validator

/-- The members are those of another value, and a flag, if there is one. -/
def Json.Flagged (flag : Option Bool) (inner v : Json) : Prop :=
  ∀ key, v.member? key = if key = "required" then flag.map .bool else inner.member? key

theorem Json.flagged_setMember (b : Bool) (inner : Json) :
    Json.Flagged (some b) inner (inner.setMember "required" (.bool b)) := by
  intro key
  exact Dictionary.find?_insert "required" (.bool b) inner.members key

/-- A type says nothing about being required. -/
theorem TypeDoc.member?_required (t : TypeDoc) : t.toValue.member? "required" = none := by
  have hkeys : ∀ m ∈ t.toJson.members, m.1 ≠ "required" := by
    obtain ⟨name, value, raw, elements⟩ := t
    intro m hm
    cases elements with
    | none =>
      obtain ⟨part, hpart, hm⟩ := List.mem_filterMap.1 hm
      obtain ⟨v, _, rfl⟩ := Option.map_eq_some_iff.1 hm
      simp only [List.mem_cons, List.not_mem_nil, or_false] at hpart
      rcases hpart with rfl | rfl | rfl <;> simp
    | some types =>
      obtain ⟨part, hpart, hm⟩ := List.mem_filterMap.1 hm
      obtain ⟨v, _, rfl⟩ := Option.map_eq_some_iff.1 hm
      simp only [List.mem_cons, List.not_mem_nil, or_false] at hpart
      rcases hpart with rfl | rfl | rfl | rfl <;> simp
  have hobject : t.toJson = .object t.toJson.members := by
    obtain ⟨name, value, raw, elements⟩ := t
    cases elements <;> rfl
  refine Dictionary.find?_eq_none_iff.2 fun hkey => ?_
  obtain ⟨m, hm, hname⟩ := List.mem_map.1 hkey
  rw [toValue, hobject, Json.sorted] at hm
  have hm := Dictionary.mem_of_mem_ofList hm
  rw [Json.sortedMembers_eq] at hm
  obtain ⟨n, hn, rfl⟩ := List.mem_map.1 hm
  exact hkeys n hn hname

namespace Validator

/-- What the type that a validator names tells of its parts. The item of a collection has the flag `required` if it is
required. The alternatives are there in their order. An object has the members that are declared and no others, each as
declared last, with the flag. -/
def Tells : Validator → TypeDoc → Prop
  | primitive name _, t => t = .named name
  | oneOf values, t => t = .mk "enum" (some (.array (values.map fun d => d.toJson.sorted))) none none
  | instanceOf text, t => t = .mk "instanceOf" (some (.string text)) none none
  | collection form item required, t => ∃ v, t = .mk form.name (some v) none none ∧
      Json.Flagged (if required then some true else none) item.describe.toValue v
  | oneOfType alternatives, t =>
    t = .mk "union" (some (.array (alternatives.map fun v => v.describe.toValue))) none none
  | record form members, t => ∃ entries, t = .mk form.name (some (.object entries)) none none ∧
      ∀ key, Option.Rel (fun v m => Json.Flagged (some m.2.2) m.2.1.describe.toValue v)
        (Dictionary.find? entries key) (members.filter fun m => m.1 = key).getLast?

theorem describe_tells (v : Validator) : v.Tells v.describe := by
  cases v with
  | primitive _ _ | oneOf _ | instanceOf _ => rfl
  | collection form item required =>
    refine ⟨_, rfl, ?_⟩
    cases required with
    | true => exact Json.flagged_setMember true _
    | false =>
      intro key
      by_cases hkey : key = "required"
      · rw [if_pos hkey, hkey]
        exact item.describe.member?_required
      · rw [if_neg hkey]
        rfl
  | oneOfType alternatives =>
    rw [describe, describeAll_eq]
    rfl
  | record form members =>
    refine ⟨_, rfl, fun key => ?_⟩
    rw [describeMembers_eq, Dictionary.find?_ofList, List.filter_map, List.getLast?_map]
    show Option.Rel _ ((((members.filter fun m => m.1 = key).getLast?.map _).map _)) _
    cases (members.filter fun m => m.1 = key).getLast? with
    | none => exact .none
    | some m => exact .some (Json.flagged_setMember m.2.2 _)

end Validator

/-! ## An expression of several levels -/

def wordNode (start stop : Nat) : Node := .mk .identifier ⟨start, stop⟩ none []

/-- The member of an object whose name ends at a place. -/
def memberNode (object : Node) (stop : Nat) : Node :=
  .mk .memberExpression ⟨object.start, stop⟩ none [
    (some .object, object), (some .property, .mk .propertyIdentifier ⟨object.stop + 1, stop⟩ none [])]

/-- The call of a function with one argument. -/
def callNode (function argument : Node) : Node :=
  .mk .callExpression ⟨function.start, argument.stop + 1⟩ none [
    (some .function, function),
    (some .arguments, .mk .arguments ⟨function.stop, argument.stop + 1⟩ none [(none, argument)])]

def pairOf (key value : Node) : Node :=
  .mk .pair ⟨key.start, value.stop⟩ none [(some .key, key), (some .value, value)]

def nestedText : String :=
  "PropTypes.arrayOf(React.PropTypes.shape(\x7ba: string.isRequired, 'b': PropTypes.oneOfType([number, " ++
    "oneOf(['x', y])])\x7d).isRequired).isRequired"

def nestedExpression : Place :=
  let values : Node := .mk .array ⟨103, 111⟩ none [(none, .mk .string ⟨104, 107⟩ none []), (none, wordNode 109 110)]
  let alternatives : Node :=
    .mk .array ⟨88, 113⟩ none [(none, wordNode 89 95), (none, callNode (wordNode 97 102) values)]
  let members : Node := .mk .object ⟨40, 115⟩ none [
    (none, pairOf (.mk .propertyIdentifier ⟨41, 42⟩ none []) (memberNode (wordNode 44 50) 61)),
    (none, pairOf (.mk .string ⟨63, 66⟩ none []) (callNode (memberNode (wordNode 68 77) 87) alternatives))]
  let item := memberNode (callNode (memberNode (memberNode (wordNode 18 23) 33) 39) members) 127
  .root ⟨nestedText.toList.toArray⟩ (memberNode (callNode (memberNode (wordNode 0 9) 17) item) 139)

def nestedValidator : Validator :=
  .collection .arrayOf (.record .shape [
    ("a", .primitive "string" (by decide), true),
    ("b", .oneOfType [.primitive "number" (by decide), .oneOf [⟨"'x'", false⟩, ⟨"y", true⟩]], false)]) true

end ReactCatalog
