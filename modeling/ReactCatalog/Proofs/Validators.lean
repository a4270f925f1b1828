import ReactCatalog.Proofs.Properties

/-!
# Which validator counts

Several members may declare one property: pairs, shorthands, and members of objects that are spread. They apply one
after the other (`validatorMembers`). The last of them gives the type, but whether a value is required is left to the
last pair, since a shorthand does not say (`required_of_last_pair`). So a shorthand that comes after a pair replaces
its type and keeps its flag (`shorthand_keeps_required`).
-/

namespace ReactCatalog

/-! ## Members in the order in which they apply -/

/-- The members of an object of validators, with those of spread objects in their places down to a number of
levels. -/
def appliedMembers (scope : Scope) (spreads : Nat) (object : Place) : List Place :=
  object.namedChildren.flatMap (ofMember spreads)
where
  ofMember : Nat → Place → List Place
    | 0, p => [p]
    | spreads + 1, p =>
      match spreadObject? scope p with
      | some object => object.namedChildren.flatMap (ofMember spreads)
      | none => [p]

/-- The members of all objects of validators of a component, in the order in which they apply. -/
def validatorMembers (program : Place) (scope : Scope) (d : Definition) : List Place :=
  ((Statics.valuesUnder "propTypes" (staticMembers program d)).filterMap scope.object?).flatMap
    (appliedMembers scope spreadLimit)

/-- The property that a member declares itself: a pair under its key, a shorthand under its name. -/
def declaredName? (p : Place) : Option String :=
  match p.kind with
  | .pair => if (p.field? .value).isSome then (p.field? .key).bind Place.propertyKey? else none
  | .shorthandPropertyIdentifier => some p.text
  | _ => none

/-- The members that declare one property. -/
def membersNaming (name : String) (ps : List Place) : List Place := ps.filter fun p => declaredName? p = some name

/-- The type that a member gives: of a pair what its validator names; a shorthand is known by its text alone. -/
def declaredType (p : Place) : TypeDoc :=
  match p.field? .value with
  | some value => if p.kind = .pair then (propType value).1 else customType p
  | none => customType p

/-- The member is a pair with a validator that ends in `.isRequired`. -/
def EndsRequired (p : Place) : Prop :=
  p.kind = .pair ∧ ∃ value object, p.field? .value = some value ∧ value.bare.kind = .memberExpression ∧
    value.bare.fieldText? .property = some "isRequired" ∧ value.bare.field? .object = some object

instance (p : Place) : Decidable (EndsRequired p) :=
  decidable_of_iff (p.kind = .pair ∧ ∃ value ∈ p.field? .value, value.bare.kind = .memberExpression ∧
      value.bare.fieldText? .property = some "isRequired" ∧ (value.bare.field? .object).isSome)
    (by simp [EndsRequired, Option.isSome_iff_exists])

/-! ## What a member says -/

theorem propType_required_iff (value : Place) :
    (propType value).2 = true ↔ ∃ object, value.bare.kind = .memberExpression ∧
      value.bare.fieldText? .property = some "isRequired" ∧ value.bare.field? .object = some object := by
  have hflag : (propType value).2 = (withoutRequired? value.bare).isSome := by
    rw [propType]
    split
    · next h => rw [h]; rfl
    · next h => rw [h]; rfl
  rw [hflag, Option.isSome_iff_exists]
  unfold withoutRequired?
  constructor
  · rintro ⟨object, h⟩
    split at h
    · next hk => exact ⟨object, hk.1, hk.2, h⟩
    · cases h
  · rintro ⟨object, hk, hp, ho⟩
    exact ⟨object, by rw [if_pos ⟨hk, hp⟩, ho]⟩

theorem endsRequired_iff {p value : Place} (hk : p.kind = .pair) (hv : p.field? .value = some value) :
    EndsRequired p ↔ (propType value).2 = true := by
  rw [propType_required_iff]
  constructor
  · rintro ⟨_, v, object, hv', h⟩
    rw [hv, Option.some.injEq] at hv'
    subst hv'
    exact ⟨object, h⟩
  · rintro ⟨object, h⟩
    exact ⟨hk, value, object, hv, h⟩

/-- What a member says of the property that it declares. Only a pair says whether a value is required. -/
theorem ofMember?_of_declared {p : Place} {name : String} (h : declaredName? p = some name) :
    ∃ v, Validation.ofMember? p = some v ∧ v.name = name ∧ v.type = declaredType p ∧
      (v.required.isSome ↔ p.kind = .pair) ∧ (v.required = some true ↔ EndsRequired p) := by
  unfold declaredName? at h
  split at h
  · next hk =>
    cases hv : p.field? .value with
    | none => simp [hv] at h
    | some value =>
      simp only [hv, Option.isSome_some, if_true] at h
      refine ⟨⟨name, (propType value).1, some (propType value).2, p.docblock?⟩, ?_, rfl, ?_, ?_, ?_⟩
      · simp [Validation.ofMember?, hk, h, hv]
      · simp [declaredType, hv, hk]
      · simp [hk]
      · rw [Option.some.injEq, endsRequired_iff hk hv]
  · next hk =>
    rw [Option.some.injEq] at h
    have hpair : p.kind ≠ .pair := by simp [hk]
    refine ⟨⟨p.text, customType p, none, none⟩, by simp [Validation.ofMember?, hk], h, ?_, by simp [hpair], ?_⟩
    · unfold declaredType
      split
      · rw [if_neg hpair]
      · rfl
    · simp [EndsRequired, hpair]
  · cases h

/-- A member that says something of a property declares it. -/
theorem declaredName?_of_ofMember? {p : Place} {v : Validation} (h : Validation.ofMember? p = some v) :
    declaredName? p = some v.name := by
  by_cases hpair : p.kind = .pair
  · simp only [Validation.ofMember?, hpair] at h
    obtain ⟨name, hn, h⟩ := Option.bind_eq_some_iff.1 h
    obtain ⟨value, hv, h⟩ := Option.bind_eq_some_iff.1 h
    cases h
    simp [declaredName?, hpair, hv, hn]
  by_cases hshorthand : p.kind = .shorthandPropertyIdentifier
  · simp only [Validation.ofMember?, hshorthand] at h
    cases h
    simp [declaredName?, hshorthand]
  · simp [Validation.ofMember?] at h

/-! ## What the members say together -/

theorem validations_ofMember_eq (scope : Scope) (spreads : Nat) (p : Place) :
    validations.ofMember scope spreads p =
      (appliedMembers.ofMember scope spreads p).filterMap Validation.ofMember? := by
  have hsingle : ∀ q, (Validation.ofMember? q).toList = [q].filterMap Validation.ofMember? := by
    intro q
    cases hq : Validation.ofMember? q <;> simp [hq]
  induction spreads generalizing p with
  | zero => exact hsingle p
  | succ spreads ih =>
    rw [validations.ofMember, appliedMembers.ofMember]
    cases spreadObject? scope p with
    | none => exact hsingle p
    | some object =>
      dsimp only
      rw [List.filterMap_flatMap]
      congr 1
      funext q
      exact ih q

theorem validatorsOf_eq (program : Place) (scope : Scope) (d : Definition) :
    validatorsOf program scope d = (validatorMembers program scope d).filterMap Validation.ofMember? := by
  unfold validatorsOf validatorMembers validations appliedMembers
  simp only [List.filterMap_flatMap]
  rw [funext (validations_ofMember_eq scope spreadLimit)]

/-- What is said of a property is said by the members that declare it, one for one. -/
theorem validations_naming (name : String) (ps : List Place) :
    ((ps.filterMap Validation.ofMember?).filter fun v => v.name = name).map some =
      (membersNaming name ps).map Validation.ofMember? := by
  unfold membersNaming
  induction ps with
  | nil => rfl
  | cons p rest ih =>
    cases hv : Validation.ofMember? p with
    | none =>
      have hn : declaredName? p ≠ some name := by
        intro h
        obtain ⟨v, hv', _⟩ := ofMember?_of_declared h
        rw [hv] at hv'
        cases hv'
      simpa [hv, hn] using ih
    | some v =>
      have hd := declaredName?_of_ofMember? hv
      by_cases hn : v.name = name
      · simpa [hv, hd, hn] using ih
      · simpa [hv, hd, hn] using ih

theorem getLast?_validations {name : String} {ps : List Place} {m : Place}
    (hm : (membersNaming name ps).getLast? = some m) :
    ((ps.filterMap Validation.ofMember?).filter fun v => v.name = name).getLast? = Validation.ofMember? m := by
  have hlast := congrArg List.getLast? (validations_naming name ps)
  rw [List.getLast?_map, List.getLast?_map, hm] at hlast
  cases hv : ((ps.filterMap Validation.ofMember?).filter fun v => v.name = name).getLast? with
  | none => simp [hv] at hlast
  | some v =>
    rw [hv] at hlast
    exact Option.some.inj hlast

/-- Of the members that declare a property the pairs say whether a value is required, one for one. -/
theorem flags_naming (name : String) (ps : List Place) :
    ((ps.filterMap Validation.ofMember?).filter fun v => v.name = name).filterMap Validation.required =
      ((membersNaming name ps).filter fun p => p.kind = .pair).filterMap
        fun p => (Validation.ofMember? p).bind Validation.required := by
  have hsaid : ∀ l : List Validation, l.filterMap Validation.required =
      (l.map some).filterMap fun v => v.bind Validation.required := by
    intro l
    rw [List.filterMap_map]
    rfl
  rw [hsaid, validations_naming, List.filterMap_map, List.filterMap_filter]
  apply List.filterMap_congr
  intro p hp
  obtain ⟨v, hv, _, _, hpair, _⟩ := ofMember?_of_declared (of_decide_eq_true (List.mem_filter.1 hp).2)
  by_cases hk : p.kind = .pair
  · simp [hk]
  · rw [if_neg (by simpa using hk), Function.comp_apply, hv, Option.bind_some]
    exact Option.not_isSome_iff_eq_none.1 fun h => hk (hpair.1 h)

/-- The flag of a property is that of the last pair that declares it. -/
theorem flag_of_last_pair (name : String) (ps : List Place) :
    ((((ps.filterMap Validation.ofMember?).filter fun v => v.name = name).filterMap
        Validation.required).getLast?.getD false = true) ↔
      ∃ q, ((membersNaming name ps).filter fun p => p.kind = .pair).getLast? = some q ∧ EndsRequired q := by
  rw [flags_naming]
  -- each pair gives a flag, so the last flag is that of the last pair
  have hflags : ∀ l : List Place, (∀ p ∈ l, declaredName? p = some name ∧ p.kind = .pair) →
      (((l.filterMap fun p => (Validation.ofMember? p).bind Validation.required).getLast?.getD false = true) ↔
        ∃ q, l.getLast? = some q ∧ EndsRequired q) := by
    intro l hl
    rcases List.eq_nil_or_concat l with rfl | ⟨init, q, rfl⟩
    · simp
    · obtain ⟨hn, hk⟩ := hl q (by simp)
      obtain ⟨v, hv, _, _, hpair, hends⟩ := ofMember?_of_declared hn
      obtain ⟨b, hb⟩ := Option.isSome_iff_exists.1 (hpair.2 hk)
      rw [hb, Option.some.injEq] at hends
      simp [List.filterMap_append, hv, hb, hends]
  apply hflags
  intro p hp
  obtain ⟨hp, hk⟩ := List.mem_filter.1 hp
  exact ⟨of_decide_eq_true (List.mem_filter.1 hp).2, of_decide_eq_true hk⟩

/-- Where there are validators, the entry has the type of the last one, and the last flag that one of them gives. -/
theorem find?_document_validated {program : Place} {scope : Scope} {d : Definition} {name : String}
    (h : ((validatorsOf program scope d).filter fun v => v.name = name) ≠ []) :
    ∃ prop, Dictionary.find? (document program scope d).properties name = some prop ∧
      prop.type = ((validatorsOf program scope d).filter fun v => v.name = name).getLast?.map Validation.type ∧
      prop.required =
        (((validatorsOf program scope d).filter fun v => v.name = name).filterMap
          Validation.required).getLast?.getD false := by
  have hfound := find?_document program scope d name
  dsimp only at hfound
  rw [if_neg fun hnone => h hnone.1] at hfound
  obtain ⟨v, hv⟩ := Option.isSome_iff_exists.1 (List.getLast?_isSome.2 h)
  refine ⟨_, hfound, ?_, ?_⟩
  · rw [withDefaults_eq, withDefaults_eq, (withTypes_spec _ _).1, (withValidators_spec _ _).1, hv]
    rfl
  · rw [withDefaults_eq, withDefaults_eq, (withTypes_spec _ _).2.2.1, (withValidators_spec _ _).1,
      (withValidators_spec _ _).2.2.1, hv]
    rfl

/-- The entry of a declared property: the last member gives the type, and the last pair says whether a value is
required. -/
theorem find?_document_declared {program : Place} {scope : Scope} {d : Definition} {name : String} {m : Place}
    (hm : (membersNaming name (validatorMembers program scope d)).getLast? = some m) :
    ∃ prop, Dictionary.find? (document program scope d).properties name = some prop ∧
      prop.type = some (declaredType m) ∧
      (prop.required = true ↔
        ∃ q, ((membersNaming name (validatorMembers program scope d)).filter fun p => p.kind = .pair).getLast? = some q ∧
          EndsRequired q) := by
  have hdeclared : declaredName? m = some name :=
    of_decide_eq_true (List.mem_filter.1 (List.mem_of_getLast? hm)).2
  obtain ⟨v, hv, _, htype, _, _⟩ := ofMember?_of_declared hdeclared
  have hlast : ((validatorsOf program scope d).filter fun v => v.name = name).getLast? = some v := by
    rw [validatorsOf_eq, getLast?_validations hm, hv]
  have hsome : ((validatorsOf program scope d).filter fun v => v.name = name) ≠ [] := by
    intro h
    rw [h] at hlast
    cases hlast
  obtain ⟨prop, hprop, ht, hr⟩ := find?_document_validated hsome
  refine ⟨prop, hprop, by rw [ht, hlast, Option.map_some, htype], ?_⟩
  rw [hr, validatorsOf_eq]
  exact flag_of_last_pair name (validatorMembers program scope d)

/-- The last member that declares a property gives its type. Whether a value is required is for the last pair among
them to say: it is, if its validator ends in `.isRequired`. The two come from one member if the last one is a pair; if
it is a shorthand, the flag is right only if no pair before it has left one. -/
theorem required_of_last_pair {program : Place} {scope : Scope} {d : Definition} {name : String} {m : Place}
    (hm : (membersNaming name (validatorMembers program scope d)).getLast? = some m) :
    let members := membersNaming name (validatorMembers program scope d)
    let lastPair := (members.filter fun p => p.kind = .pair).getLast?
    ∃ prop, Dictionary.find? (document program scope d).properties name = some prop ∧
      prop.type = some (declaredType m) ∧
      (prop.required = true ↔ ∃ q, lastPair = some q ∧ EndsRequired q) ∧
      (m.kind = .pair → (prop.required = true ↔ EndsRequired m)) ∧
      ((prop.required = true ↔ EndsRequired m) ↔ m.kind = .pair ∨ ∀ q, lastPair = some q → ¬ EndsRequired q) := by
  intro members lastPair
  obtain ⟨prop, hprop, htype, hflag⟩ := find?_document_declared hm
  have hrequired : prop.required = true ↔ ∃ q, lastPair = some q ∧ EndsRequired q := hflag
  have hpair : m.kind = .pair → lastPair = some m := by
    intro hk
    obtain ⟨init, hinit⟩ := List.getLast?_eq_some_iff.1 hm
    simp [lastPair, members, hinit, hk]
  have hagree : m.kind = .pair → (prop.required = true ↔ EndsRequired m) := by
    intro hk
    rw [hrequired, hpair hk]
    simp
  refine ⟨prop, hprop, htype, hrequired, hagree, ?_⟩
  constructor
  · intro hiff
    by_cases hk : m.kind = .pair
    · exact .inl hk
    · exact .inr fun q hq hends => hk (hiff.1 (hrequired.2 ⟨q, hq, hends⟩)).1
  · rintro (hk | hnone)
    · exact hagree hk
    · rw [hrequired]
      constructor
      · rintro ⟨q, hq, hends⟩
        exact absurd hends (hnone q hq)
      · intro hends
        exact absurd hends (hnone m (hpair hends.1))

def staleLines : List String :=
  ["export function A() \x7b return <a/>; \x7d\n", "A.propTypes = \x7b x: string.isRequired, x \x7d;"]

def staleFunction : Node :=
  .mk .functionDeclaration ⟨7, 36⟩ none [
    (some .name, .mk .identifier ⟨16, 17⟩ none []),
    (some .body, .mk .statementBlock ⟨20, 36⟩ none [
      (none, .mk .returnStatement ⟨22, 34⟩ none [(none, .mk .jsxSelfClosingElement ⟨29, 33⟩ none [])])])]

def stalePair : Node :=
  .mk .pair ⟨53, 73⟩ none [
    (some .key, .mk .propertyIdentifier ⟨53, 54⟩ none []),
    (some .value, .mk .memberExpression ⟨56, 73⟩ none [
      (some .object, .mk .identifier ⟨56, 62⟩ none []),
      (some .property, .mk .propertyIdentifier ⟨63, 73⟩ none [])])]

/-- A module that gives a property a validator by a pair, and once more by a shorthand. -/
def staleProgram : Place :=
  .root ⟨(staleLines.flatMap String.toList).toArray⟩ (.mk .program ⟨0, 79⟩ none [
    (none, .mk .exportStatement ⟨0, 36⟩ none [(some .declaration, staleFunction)]),
    (none, .mk .expressionStatement ⟨37, 79⟩ none [
      (none, .mk .assignmentExpression ⟨37, 78⟩ none [
        (some .left, .mk .memberExpression ⟨37, 48⟩ none [
          (some .object, .mk .identifier ⟨37, 38⟩ none []),
          (some .property, .mk .propertyIdentifier ⟨39, 48⟩ none [])]),
        (some .right, .mk .object ⟨51, 78⟩ none [
          (none, stalePair), (none, .mk .shorthandPropertyIdentifier ⟨75, 76⟩ none [])])])])])

/-- The members that declare the property `x` of the component: the last is a shorthand, and the last pair ends in
`.isRequired`. -/
theorem exists_stale_members :
    ∃ d m q, resolve staleProgram (Scope.ofProgram staleProgram) = .ok d ∧
      (membersNaming "x" (validatorMembers staleProgram (Scope.ofProgram staleProgram) d)).getLast? = some m ∧
      m.kind = .shorthandPropertyIdentifier ∧
      ((membersNaming "x" (validatorMembers staleProgram (Scope.ofProgram staleProgram) d)).filter
        fun p => p.kind = .pair).getLast? = some q ∧ EndsRequired q := by
  have hd : ∃ d ∈ (resolve staleProgram (Scope.ofProgram staleProgram)).toOption,
      (∃ m ∈ (membersNaming "x" (validatorMembers staleProgram (Scope.ofProgram staleProgram) d)).getLast?,
        m.kind = .shorthandPropertyIdentifier) ∧
      ∃ q ∈ ((membersNaming "x" (validatorMembers staleProgram (Scope.ofProgram staleProgram) d)).filter
        fun p => p.kind = .pair).getLast?, EndsRequired q := by
    decide +kernel
  obtain ⟨d, hd, ⟨m, hm, hk⟩, q, hq, hends⟩ := hd
  refine ⟨d, m, q, ?_, hm, hk, hq, hends⟩
  cases hr : resolve staleProgram (Scope.ofProgram staleProgram) with
  | error e => simp [hr, Except.toOption] at hd
  | ok d' => simpa [hr, Except.toOption] using hd

/-- The type is that of the shorthand, and the flag that of the pair. -/
theorem stale_flag_of_pair :
    ∃ d m prop, resolve staleProgram (Scope.ofProgram staleProgram) = .ok d ∧ m.kind = .shorthandPropertyIdentifier ∧
      Dictionary.find? (document staleProgram (Scope.ofProgram staleProgram) d).properties "x" = some prop ∧
      prop.type = some (declaredType m) ∧ prop.required = true := by
  obtain ⟨d, m, q, hd, hm, hk, hq, hends⟩ := exists_stale_members
  obtain ⟨prop, hprop, ht, hr, _⟩ := required_of_last_pair hm
  exact ⟨d, m, prop, hd, hk, hprop, ht, hr.2 ⟨q, hq, hends⟩⟩

/-- The last member that declares the property is no pair, and yet the property is required. -/
theorem shorthand_keeps_required :
    ∃ d m prop, resolve staleProgram (Scope.ofProgram staleProgram) = .ok d ∧
      (membersNaming "x" (validatorMembers staleProgram (Scope.ofProgram staleProgram) d)).getLast? = some m ∧
      Dictionary.find? (document staleProgram (Scope.ofProgram staleProgram) d).properties "x" = some prop ∧
      prop.required = true ∧ ¬ EndsRequired m := by
  obtain ⟨d, m, q, hd, hm, hk, hq, hends⟩ := exists_stale_members
  obtain ⟨prop, hprop, _, hr⟩ := find?_document_declared hm
  refine ⟨d, m, prop, hd, hm, hprop, hr.2 ⟨q, hq, hends⟩, ?_⟩
  rintro ⟨hpair, _⟩
  rw [hk] at hpair
  cases hpair

end ReactCatalog
