import ReactCatalog.Component.Document
import ReactCatalog.Proofs.Dictionary

/-!
# The table of properties

A property is mentioned in up to four lists: by validators, as a member of the annotated type, by a default in the
first parameter, and by default properties. Each mention edits the entry of its own property, so the entry of a
property is what its own mentions make of an empty one, one after the other (`find?_applyEdits`).
-/

namespace ReactCatalog

/-! ## Edits -/

/-- What a mention does to the entry of a property. -/
structure Edit where
  name : String
  update : PropDoc → PropDoc

def applyEdits (es : List Edit) (table : Dictionary PropDoc) : Dictionary PropDoc :=
  es.foldl (fun table e => Dictionary.modify e.name .empty e.update table) table

theorem applyEdits_append (es es' : List Edit) (table : Dictionary PropDoc) :
    applyEdits (es ++ es') table = applyEdits es' (applyEdits es table) :=
  List.foldl_append

/-- Edits of a property, applied to its entry. -/
def editEntry (es : List Edit) (x : PropDoc) : PropDoc := es.foldl (fun x e => e.update x) x

/-- An entry is the work of the edits under its name. -/
theorem find?_applyEdits (es : List Edit) (table : Dictionary PropDoc) (name : String) :
    Dictionary.find? (applyEdits es table) name =
      match es.filter fun e => e.name = name with
      | [] => Dictionary.find? table name
      | mine => some (editEntry mine ((Dictionary.find? table name).getD .empty)) := by
  induction es generalizing table with
  | nil => rfl
  | cons e rest ih =>
    have hstep : applyEdits (e :: rest) table = applyEdits rest (Dictionary.modify e.name .empty e.update table) := rfl
    rw [hstep, ih]
    by_cases he : e.name = name
    · subst he
      simp only [List.filter_cons, decide_true, if_true, Dictionary.find?_modify_self]
      cases rest.filter fun e' => e'.name = e.name with
      | nil => rfl
      | cons e' more => rfl
    · simp only [List.filter_cons, he, decide_false, Bool.false_eq_true, if_false,
        Dictionary.find?_modify_of_ne (Ne.symm he)]

/-- A pass over a list, each item of which makes some edits. -/
theorem properties_foldl {α : Type} {f : ComponentDoc → α → ComponentDoc} {g : α → List Edit}
    (h : ∀ doc a, (f doc a).properties = applyEdits (g a) doc.properties) (l : List α) (doc : ComponentDoc) :
    (l.foldl f doc).properties = applyEdits (l.flatMap g) doc.properties := by
  induction l generalizing doc with
  | nil => rfl
  | cons a rest ih => rw [List.foldl_cons, ih, h, List.flatMap_cons, applyEdits_append]

/-! ## Static members -/

namespace Statics

/-- The value of a member of a class: of a field what is written, of a getter the object that it returns. -/
def classValue? (p : Place) : Option Place :=
  match p.kind with
  | .fieldDefinition | .publicFieldDefinition => p.field? .value
  | .methodDefinition => if p.hasSymbol "get" then p.returnedObject? else none
  | _ => none

/-- The name and the value of a member of a class that is declared `static`. -/
def classMember? (p : Place) : Option (String × Place) :=
  if p.hasSymbol "static" then p.classMemberName?.bind fun name => (classValue? p).map (name, ·) else none

/-- The name and the value of a member of the object given to a class factory. What `getDefaultProps` returns counts
as `defaultProps`. -/
def objectMember? (p : Place) : Option (String × Place) := do
  let name ← ((p.field? .key) <|> (p.field? .name)).bind Place.propertyKey?
  match p.kind with
  | .methodDefinition => if name = "getDefaultProps" then p.returnedObject?.map ("defaultProps", ·) else none
  | .pair =>
    let value ← p.field? .value
    if name = "getDefaultProps" then value.bare.returnedObject?.map ("defaultProps", ·) else pure (name, value)
  | _ => none

/-- The name and the value of a member that a statement assigns to one of the names. -/
def assignedMember? (names : List String) (p : Place) : Option (String × Place) := do
  let (left, right) ← p.assignment?
  let object ← left.field? .object
  let name ← left.fieldText? .property
  if left.kind = .memberExpression ∧ object.kind = .identifier ∧ object.text ∈ names then pure (name, right) else none

/-- The values of the members of one name. -/
def valuesUnder (name : String) (members : List (String × Place)) : List Place :=
  (members.filter fun m => m.1 = name).map Prod.snd

theorem record_propTypes (s : Statics) (name : String) (value : Place) :
    (s.record name value).propTypes = s.propTypes ++ valuesUnder "propTypes" [(name, value)] := by
  unfold record
  split
  · rfl
  · simp [valuesUnder]
  · simp [valuesUnder]
  · next h _ _ => simp [valuesUnder, show name ≠ "propTypes" from h]

theorem record_defaultProps (s : Statics) (name : String) (value : Place) :
    (s.record name value).defaultProps = s.defaultProps ++ valuesUnder "defaultProps" [(name, value)] := by
  unfold record
  split
  · simp [valuesUnder]
  · rfl
  · simp [valuesUnder]
  · next _ h _ => simp [valuesUnder, show name ≠ "defaultProps" from h]

/-- Record the member, if there is one. -/
def note (s : Statics) (member : Option (String × Place)) : Statics :=
  match member with
  | some (name, value) => s.record name value
  | none => s

/-- A pass that records at most one member of each place. -/
theorem foldl_note {f : Statics → Place → Statics} {member? : Place → Option (String × Place)}
    (h : ∀ s p, f s p = s.note (member? p)) (ps : List Place) (s : Statics) :
    (ps.foldl f s).propTypes = s.propTypes ++ valuesUnder "propTypes" (ps.filterMap member?) ∧
      (ps.foldl f s).defaultProps = s.defaultProps ++ valuesUnder "defaultProps" (ps.filterMap member?) := by
  induction ps generalizing s with
  | nil => simp [valuesUnder]
  | cons p rest ih =>
    rw [List.foldl_cons, h, (ih _).1, (ih _).2]
    cases hm : member? p with
    | none => simp [note, hm]
    | some m =>
      obtain ⟨name, value⟩ := m
      simp only [note, record_propTypes, record_defaultProps, List.filterMap_cons, hm, List.append_assoc]
      simp only [valuesUnder, ← List.map_append, ← List.filter_append, List.singleton_append, and_self]

theorem ofClassMember_eq (s : Statics) (p : Place) : s.ofClassMember p = s.note (classMember? p) := by
  unfold ofClassMember classMember?
  split
  · cases p.classMemberName? with
    | none => rfl
    | some name =>
      change ((classValue? p).map (s.record name)).getD s = _
      cases classValue? p <;> simp [note]
  · rfl

theorem ofObjectMember_eq (s : Statics) (p : Place) : s.ofObjectMember p = s.note (objectMember? p) := by
  have hd : ∀ x : Option Place, s.addDefaults x = s.note (x.map ("defaultProps", ·)) := by
    intro x
    cases x with
    | none => simp [addDefaults, note]
    | some o => rfl
  unfold ofObjectMember objectMember?
  cases hn : ((p.field? .key) <|> (p.field? .name)).bind Place.propertyKey? with
  | none => rfl
  | some name =>
    simp only [Option.bind_eq_bind, Option.bind_some]
    by_cases hm : p.kind = .methodDefinition
    · simp only [hm]
      split
      · exact hd _
      · rfl
    by_cases hp : p.kind = .pair
    · simp only [hp]
      cases p.field? .value with
      | none => rfl
      | some v =>
        simp only [Option.bind_some]
        split
        · exact hd _
        · rfl
    · simp [note]

theorem ofStatement_eq (names : List String) (s : Statics) (p : Place) :
    ofStatement names s p = s.note (assignedMember? names p) := by
  unfold ofStatement assignedMember?
  cases p.assignment? with
  | none => rfl
  | some sides =>
    obtain ⟨left, right⟩ := sides
    simp only [Option.bind_eq_bind, Option.bind_some]
    cases hobject : left.field? .object with
    | none => simp [note]
    | some object =>
      cases hname : left.fieldText? .property with
      | none => simp [note]
      | some name =>
        by_cases hk : left.kind = .memberExpression
        · by_cases ho : object.kind = .identifier ∧ object.text ∈ names
          · simp [hk, ho, note]
          · simp [hk, ho, note]
        · simp [hk, note]

end Statics

/-- The static members of a component: those in its definition, then those that the module assigns to its names. -/
def staticMembers (program : Place) (d : Definition) : List (String × Place) :=
  (match d.kind with
    | .ofClass => ((d.place.field? .body).elim [] Place.namedChildren).filterMap Statics.classMember?
    | .ofFactory => ((factoryObject? d.place).elim [] Place.namedChildren).filterMap Statics.objectMember?
    | .ofFunction => []) ++
  program.namedChildren.filterMap (Statics.assignedMember? d.names)

theorem staticsOf_eq (program : Place) (d : Definition) :
    (staticsOf program d).propTypes = Statics.valuesUnder "propTypes" (staticMembers program d) ∧
      (staticsOf program d).defaultProps = Statics.valuesUnder "defaultProps" (staticMembers program d) := by
  have happend : ∀ name (l l' : List (String × Place)),
      Statics.valuesUnder name (l ++ l') = Statics.valuesUnder name l ++ Statics.valuesUnder name l' := by
    simp [Statics.valuesUnder]
  have hassigned := Statics.foldl_note (Statics.ofStatement_eq d.names) program.namedChildren (ownStatics d)
  unfold staticsOf Statics.addAssigned staticMembers
  rw [hassigned.1, hassigned.2, happend, happend]
  suffices h : (ownStatics d).propTypes = _ ∧ (ownStatics d).defaultProps = _ from ⟨by rw [h.1], by rw [h.2]⟩
  unfold ownStatics
  cases d.kind with
  | ofFunction => exact ⟨rfl, rfl⟩
  | ofClass =>
    unfold Statics.ofClass
    cases d.place.field? .body with
    | none => exact ⟨rfl, rfl⟩
    | some body => simpa using Statics.foldl_note Statics.ofClassMember_eq body.namedChildren {}
  | ofFactory =>
    cases factoryObject? d.place with
    | none => exact ⟨rfl, rfl⟩
    | some object =>
      simpa [Statics.ofObject] using Statics.foldl_note Statics.ofObjectMember_eq object.namedChildren {}

/-! ## Validators -/

/-- What a member of an object of validators says of a property. -/
structure Validation where
  name : String
  type : TypeDoc
  /-- Whether a value must be given, if the member says so. -/
  required : Option Bool
  description : Option String

namespace Validation

def edit (v : Validation) : Edit where
  name := v.name
  update prop :=
    { prop with
      type := some v.type
      required := v.required.getD prop.required
      description := v.description.getD prop.description }

/-- The property that a member names itself. A shorthand says nothing but that there is a validator. -/
def ofMember? (p : Place) : Option Validation :=
  match p.kind with
  | .pair => do
    let name ← (p.field? .key).bind Place.propertyKey?
    let value ← p.field? .value
    pure ⟨name, (propType value).1, some (propType value).2, p.docblock?⟩
  | .shorthandPropertyIdentifier => some ⟨p.text, customType p, none, none⟩
  | _ => none

end Validation

/-- The object of the module that a member spreads by its name. -/
def spreadObject? (scope : Scope) (p : Place) : Option Place :=
  if p.kind = .spreadElement then
    (p.namedChildren.head?.map Place.bare).bind fun v => if v.kind = .identifier then scope.object? v else none
  else none

/-- What an object of validators says, with spread objects in their places down to a number of levels. -/
def validations (scope : Scope) (spreads : Nat) (object : Place) : List Validation :=
  object.namedChildren.flatMap (ofMember spreads)
where
  ofMember : Nat → Place → List Validation
    | 0, p => (Validation.ofMember? p).toList
    | spreads + 1, p =>
      match spreadObject? scope p with
      | some object => object.namedChildren.flatMap (ofMember spreads)
      | none => (Validation.ofMember? p).toList

theorem validations_ofMember {p : Place} (scope : Scope) (spreads : Nat) (h : spreadObject? scope p = none) :
    validations.ofMember scope spreads p = (Validation.ofMember? p).toList := by
  cases spreads with
  | zero => rfl
  | succ spreads => simp [validations.ofMember, h]

theorem properties_addImported (scope : Scope) (doc : ComponentDoc) (name : String) :
    (applyValidators.addImported scope doc name).properties = doc.properties := by
  unfold applyValidators.addImported
  cases scope.importOf? name with
  | none => rfl
  | some specifier =>
    simp only [Option.map_some, Option.getD_some, ComponentDoc.addSource]
    split <;> rfl

/-- A spread member adds what the object that it spreads says, or nothing. -/
theorem properties_spread {scope : Scope} {spreads : Nat} {p : Place} (hk : p.kind = .spreadElement)
    (ih : ∀ doc q, (applyValidators.member scope spreads doc q).properties =
      applyEdits ((validations.ofMember scope spreads q).map Validation.edit) doc.properties) (doc : ComponentDoc) :
    (applyValidators.member scope (spreads + 1) doc p).properties =
      applyEdits ((validations.ofMember scope (spreads + 1) p).map Validation.edit) doc.properties := by
  have hown : Validation.ofMember? p = none := by simp [Validation.ofMember?, hk]
  rw [applyValidators.member.eq_def, validations.ofMember]
  simp only [hk, spreadObject?, if_true, hown]
  cases p.namedChildren.head?.map Place.bare with
  | none => rfl
  | some v =>
    simp only [Option.bind_some]
    split
    · next hv =>
      simp only [hv, reduceCtorEq, if_false, Option.toList_none, List.map_nil]
      cases v.field? .object with
      | none => rfl
      | some object =>
        dsimp only
        split
        · exact properties_addImported scope doc object.text
        · rfl
    · next hv =>
      simp only [hv, if_true]
      cases scope.object? v with
      | none => exact properties_addImported scope doc v.text
      | some object =>
        dsimp only
        rw [properties_foldl ih, List.map_flatMap]
    · next _ hv =>
      simp only [show v.kind ≠ .identifier from hv, if_false]
      rfl

/-- Any other member edits the property that it names, or nothing. -/
theorem properties_named {p : Place} (hk : p.kind ≠ .spreadElement) (scope : Scope) (spreads : Nat)
    (doc : ComponentDoc) :
    (applyValidators.member scope spreads doc p).properties =
      applyEdits ((validations.ofMember scope spreads p).map Validation.edit) doc.properties := by
  have hs : spreadObject? scope p = none := by simp [spreadObject?, hk]
  rw [applyValidators.member.eq_def, validations_ofMember scope spreads hs]
  unfold Validation.ofMember?
  dsimp only
  split
  · next hp =>
    simp only [hp]
    cases (p.field? .key).bind Place.propertyKey? with
    | none => rfl
    | some name =>
      cases p.field? .value with
      | none => rfl
      | some value => rfl
  · next hp =>
    simp only [hp]
    rfl
  · next hp => exact absurd hp hk
  · next h₁ h₂ _ =>
    split
    · next hp => exact absurd hp h₁
    · next hp => exact absurd hp h₂
    · rfl

theorem properties_member (scope : Scope) (spreads : Nat) (doc : ComponentDoc) (p : Place) :
    (applyValidators.member scope spreads doc p).properties =
      applyEdits ((validations.ofMember scope spreads p).map Validation.edit) doc.properties := by
  by_cases hk : p.kind = .spreadElement
  · induction spreads generalizing doc p with
    | zero =>
      rw [applyValidators.member.eq_def]
      simp [hk, validations.ofMember, Validation.ofMember?, applyEdits]
    | succ spreads ih =>
      refine properties_spread hk ?_ doc
      intro doc q
      by_cases hq : q.kind = .spreadElement
      · exact ih doc q hq
      · exact properties_named hq scope spreads doc
  · exact properties_named hk scope spreads doc

theorem properties_applyValidators (scope : Scope) (spreads : Nat) (doc : ComponentDoc) (object : Place) :
    (applyValidators scope spreads object doc).properties =
      applyEdits ((validations scope spreads object).map Validation.edit) doc.properties := by
  unfold applyValidators validations
  rw [properties_foldl (properties_member scope spreads), List.map_flatMap]

/-! ## Types and defaults -/

def TypeMember.edit (m : TypeMember) : Edit where
  name := m.name
  update prop :=
    { prop with
      required := if prop.type.isNone then !m.optional else prop.required
      tsType := some m.type
      description := if prop.description.isEmpty then m.description.getD prop.description else prop.description }

def defaultEdit (d : String × DefaultValue) : Edit where
  name := d.1
  update prop := { prop with defaultValue := some d.2 }

theorem properties_applyDefaults (doc : ComponentDoc) (ds : List (String × DefaultValue)) :
    (applyDefaults doc ds).properties = applyEdits (ds.map defaultEdit) doc.properties := by
  unfold applyDefaults
  rw [properties_foldl (g := fun d => [defaultEdit d]) (fun _ _ => rfl), ← List.map_eq_flatMap]

/-! ## Mentions -/

/-- What the validators of a component say, in the order in which they apply. -/
def validatorsOf (program : Place) (scope : Scope) (d : Definition) : List Validation :=
  ((Statics.valuesUnder "propTypes" (staticMembers program d)).filterMap scope.object?).flatMap
    (validations scope spreadLimit)

/-- The members of the annotated type of a component. -/
def typesOf (program : Place) (d : Definition) : List TypeMember :=
  ((propsType? d).map (typeMembers program)).getD []

/-- The defaults in the first parameter of a component. -/
def parameterDefaultsOf (d : Definition) : List (String × DefaultValue) :=
  if d.kind = .ofFunction then parameterDefaults d.place else []

/-- The default properties of a component, in the order in which they apply. -/
def defaultPropsOf (program : Place) (scope : Scope) (d : Definition) : List (String × DefaultValue) :=
  ((Statics.valuesUnder "defaultProps" (staticMembers program d)).filterMap scope.object?).flatMap objectDefaults

/-- All edits that make the table, in their order. -/
def editsOf (program : Place) (scope : Scope) (d : Definition) : List Edit :=
  (validatorsOf program scope d).map Validation.edit ++ (typesOf program d).map TypeMember.edit ++
    (parameterDefaultsOf d).map defaultEdit ++ (defaultPropsOf program scope d).map defaultEdit

theorem properties_document (program : Place) (scope : Scope) (d : Definition) :
    (document program scope d).properties = applyEdits (editsOf program scope d) [] := by
  have htypes : ∀ (ms : List TypeMember) (doc : ComponentDoc),
      (ms.foldl applyTypeMember doc).properties = applyEdits (ms.map TypeMember.edit) doc.properties := by
    intro ms doc
    rw [properties_foldl (g := fun m => [TypeMember.edit m]) (fun _ _ => rfl), ← List.map_eq_flatMap]
  have hparams : ∀ doc : ComponentDoc,
      (if d.kind = .ofFunction then applyDefaults doc (parameterDefaults d.place) else doc).properties =
        applyEdits ((parameterDefaultsOf d).map defaultEdit) doc.properties := by
    intro doc
    unfold parameterDefaultsOf
    split
    · exact properties_applyDefaults doc _
    · rfl
  obtain ⟨hpt, hdp⟩ := staticsOf_eq program d
  unfold document
  dsimp only
  rw [properties_foldl (fun doc object => properties_applyDefaults doc (objectDefaults object)), hparams, htypes,
    properties_foldl (properties_applyValidators scope spreadLimit), hpt, hdp]
  simp only [editsOf, validatorsOf, typesOf, defaultPropsOf, applyEdits_append, List.map_flatMap]

/-! ## What the mentions leave -/

/-- A part that every update sets is as the last one sets it. -/
theorem foldl_last {α β γ : Type} (part : α → γ) {u : α → β → α} {f : β → γ} (h : ∀ x b, part (u x b) = f b)
    (l : List β) (x : α) : part (l.foldl u x) = (l.getLast?.map f).getD (part x) := by
  induction l generalizing x with
  | nil => rfl
  | cons b rest ih =>
    rw [List.foldl_cons, ih, h, List.getLast?_cons]
    cases rest.getLast? <;> rfl

/-- A part that no update sets stays. -/
theorem foldl_kept {α β γ : Type} (part : α → γ) {u : α → β → α} (h : ∀ x b, part (u x b) = part x)
    (l : List β) (x : α) : part (l.foldl u x) = part x := by
  induction l generalizing x with
  | nil => rfl
  | cons b rest ih => rw [List.foldl_cons, ih, h]

def withValidators (vs : List Validation) (x : PropDoc) : PropDoc := vs.foldl (fun x v => v.edit.update x) x

def withTypes (ms : List TypeMember) (x : PropDoc) : PropDoc := ms.foldl (fun x m => m.edit.update x) x

def withDefaults (ds : List (String × DefaultValue)) (x : PropDoc) : PropDoc :=
  ds.foldl (fun x d => (defaultEdit d).update x) x

/-- Of several validators the last gives the type, and the last that says so whether a value must be given. -/
theorem withValidators_spec (vs : List Validation) (x : PropDoc) :
    (withValidators vs x).type = (vs.getLast?.map fun v => some v.type).getD x.type ∧
      (withValidators vs x).tsType = x.tsType ∧
      (withValidators vs x).required = (vs.filterMap Validation.required).getLast?.getD x.required ∧
      (withValidators vs x).defaultValue = x.defaultValue := by
  unfold withValidators
  refine ⟨foldl_last PropDoc.type ?_ vs x, foldl_kept PropDoc.tsType ?_ vs x, ?_,
    foldl_kept PropDoc.defaultValue ?_ vs x⟩
  · exact fun _ _ => rfl
  · exact fun _ _ => rfl
  · induction vs generalizing x with
    | nil => rfl
    | cons v rest ih =>
      rw [List.foldl_cons, ih]
      cases hv : v.required with
      | none => simp [Validation.edit, hv]
      | some b => simp only [Validation.edit, hv, Option.getD_some, List.filterMap_cons, List.getLast?_cons]
  · exact fun _ _ => rfl

/-- Of several members of a type the last counts. They say whether a value must be given only if there is no
validator. -/
theorem withTypes_spec (ms : List TypeMember) (x : PropDoc) :
    (withTypes ms x).type = x.type ∧
      (withTypes ms x).tsType = (ms.getLast?.map fun m => some m.type).getD x.tsType ∧
      (withTypes ms x).required =
        (if x.type.isNone then (ms.getLast?.map fun m => !m.optional).getD x.required else x.required) ∧
      (withTypes ms x).defaultValue = x.defaultValue := by
  unfold withTypes
  refine ⟨foldl_kept PropDoc.type ?_ ms x, foldl_last PropDoc.tsType ?_ ms x, ?_,
    foldl_kept PropDoc.defaultValue ?_ ms x⟩
  · exact fun _ _ => rfl
  · exact fun _ _ => rfl
  · induction ms generalizing x with
    | nil => simp
    | cons m rest ih =>
      have ht : (m.edit.update x).type = x.type := rfl
      rw [List.foldl_cons, ih, ht, List.getLast?_cons]
      cases hx : x.type with
      | none => cases rest.getLast? <;> simp [TypeMember.edit, hx]
      | some t => simp [TypeMember.edit, hx]
  · exact fun _ _ => rfl

/-- Of several defaults the last counts. -/
theorem withDefaults_eq (ds : List (String × DefaultValue)) (x : PropDoc) :
    withDefaults ds x = { x with defaultValue := (ds.getLast?.map fun d => some d.2).getD x.defaultValue } := by
  unfold withDefaults
  induction ds generalizing x with
  | nil => rfl
  | cons d rest ih =>
    rw [List.foldl_cons, ih, List.getLast?_cons]
    cases rest.getLast? <;> rfl

/-- The entry of a property comes from its own mentions. -/
theorem find?_document (program : Place) (scope : Scope) (d : Definition) (name : String) :
    let pt := (validatorsOf program scope d).filter fun v => v.name = name
    let ts := (typesOf program d).filter fun m => m.name = name
    let pd := (parameterDefaultsOf d).filter fun x => x.1 = name
    let dp := (defaultPropsOf program scope d).filter fun x => x.1 = name
    Dictionary.find? (document program scope d).properties name =
      if pt = [] ∧ ts = [] ∧ pd = [] ∧ dp = [] then none
      else some (withDefaults dp (withDefaults pd (withTypes ts (withValidators pt .empty)))) := by
  intro pt ts pd dp
  have hmine : (editsOf program scope d).filter (fun e => e.name = name) =
      pt.map Validation.edit ++ ts.map TypeMember.edit ++ pd.map defaultEdit ++ dp.map defaultEdit := by
    simp only [editsOf, List.filter_append, List.filter_map]
    rfl
  rw [properties_document, find?_applyEdits, hmine]
  split
  · next h =>
    simp only [List.append_eq_nil_iff, List.map_eq_nil_iff] at h
    rw [if_pos ⟨h.1.1.1, h.1.1.2, h.1.2, h.2⟩]
    rfl
  · next h =>
    have hn : ¬ (pt = [] ∧ ts = [] ∧ pd = [] ∧ dp = []) := by
      rintro ⟨h₁, h₂, h₃, h₄⟩
      exact h (by simp [h₁, h₂, h₃, h₄])
    rw [if_neg hn]
    simp only [editEntry, List.foldl_append, List.foldl_map]
    rfl

/-- A property has an entry if one of the four lists says something of it, and each leaves its part in the entry. -/
theorem fields_of_find?_document (program : Place) (scope : Scope) (d : Definition) (name : String) :
    let pt := (validatorsOf program scope d).filter fun v => v.name = name
    let ts := (typesOf program d).filter fun m => m.name = name
    let pd := (parameterDefaultsOf d).filter fun x => x.1 = name
    let dp := (defaultPropsOf program scope d).filter fun x => x.1 = name
    let entry := Dictionary.find? (document program scope d).properties name
    (entry.isSome = true ↔ pt ≠ [] ∨ ts ≠ [] ∨ pd ≠ [] ∨ dp ≠ []) ∧
    ∀ prop, entry = some prop →
      prop.type = pt.getLast?.map Validation.type ∧
      prop.tsType = ts.getLast?.map TypeMember.type ∧
      prop.required =
        (if pt = [] then (ts.getLast?.map fun m => !m.optional).getD false
        else (pt.filterMap Validation.required).getLast?.getD false) ∧
      prop.defaultValue = (dp.getLast?.map Prod.snd <|> pd.getLast?.map Prod.snd) := by
  intro pt ts pd dp entry
  have hentry : entry = if pt = [] ∧ ts = [] ∧ pd = [] ∧ dp = [] then none
      else some (withDefaults dp (withDefaults pd (withTypes ts (withValidators pt .empty)))) :=
    find?_document program scope d name
  refine ⟨?_, fun prop hprop => ?_⟩
  · rw [hentry]
    split
    · next h => simp [h]
    · next h => simpa only [Option.isSome_some, true_iff, Classical.not_and_iff_not_or_not] using h
  · rw [hentry] at hprop
    split at hprop
    · cases hprop
    rw [Option.some.injEq] at hprop
    subst hprop
    obtain ⟨hv₁, hv₂, hv₃, hv₄⟩ := withValidators_spec pt .empty
    obtain ⟨ht₁, ht₂, ht₃, ht₄⟩ := withTypes_spec ts (withValidators pt .empty)
    have hlast : ∀ {α β : Type} (l : List α) (f : α → β),
        (l.getLast?.map fun a => some (f a)).getD none = l.getLast?.map f := by
      intro α β l f
      cases l.getLast? <;> rfl
    refine ⟨?_, ?_, ?_, ?_⟩
    · rw [withDefaults_eq, withDefaults_eq, ht₁, hv₁]
      exact hlast pt Validation.type
    · rw [withDefaults_eq, withDefaults_eq, ht₂, hv₂]
      exact hlast ts TypeMember.type
    · rw [withDefaults_eq, withDefaults_eq, ht₃, hv₁, hv₃]
      cases hpt : pt with
      | nil => rfl
      | cons v rest => simp [List.getLast?_cons, PropDoc.empty]
    · rw [withDefaults_eq, withDefaults_eq, ht₄, hv₄]
      cases dp.getLast? <;> cases pd.getLast? <;> rfl

end ReactCatalog
