import Mathlib.Tactic.MkIffOfInductiveProp
import ReactCatalog.Proofs.GroundedDocuments

/-!
# Mentions of a property

A property is mentioned by members of objects of validators, by members of the annotated type, by defaults in the
pattern of the first parameter, and by members of objects of default properties. Where these stand in a module, and in
which order they apply, is said here of the source alone. The entry of a property is there if it is mentioned at all,
and each of its parts comes from the last mention that has it (`entry_of_own_mentions`).

Where a construct is read by its first part, a comment may be taken for that part. Then mentions are lost
(`comment_hides_default`).
-/

namespace ReactCatalog

/-! ## Members of objects and patterns -/

instance (key : Place) (name : String) : Decidable (Spells key name) :=
  decidable_of_iff (key.propertyKey? = some name) propertyKey?_eq_some_iff

/-- The first of some fields that a member has is a key that spells the name. -/
def Keyed (fields : List Field) (member : Place) (name : String) : Prop :=
  ∃ key, fields.findSome? member.field? = some key ∧ Spells key name

instance (fields : List Field) (member : Place) (name : String) : Decidable (Keyed fields member name) :=
  decidable_of_iff (∃ key ∈ fields.findSome? member.field?, Spells key name) Iff.rfl

/-- The member of an object mentions the property: a pair by its key, a shorthand by itself. -/
inductive Mentions (p : Place) (name : String) : Prop
  | pair {key value : Place} : p.kind = .pair → p.field? .key = some key → Spells key name →
      p.field? .value = some value → Mentions p name
  | shorthand : p.kind = .shorthandPropertyIdentifier → p.text = name → Mentions p name

/-- The part of a pattern gives the property a default, under its own name or another one. -/
inductive GivesDefault (p : Place) (name : String) : Prop
  | same {left right : Place} : p.kind = .objectAssignmentPattern → p.field? .left = some left → left.text = name →
      p.field? .right = some right → GivesDefault p name
  | renamed {key value right : Place} : p.kind = .pairPattern → p.field? .key = some key → Spells key name →
      p.field? .value = some value → value.kind = .assignmentPattern → value.field? .right = some right →
      GivesDefault p name

/-- Where the value stands that a member of an object or a part of a pattern gives. A shorthand is its own value. -/
def givenValue (p : Place) : Place :=
  (match p.kind with
    | .pair => p.field? .value
    | .objectAssignmentPattern => p.field? .right
    | .pairPattern => (p.field? .value).bind fun value => value.field? .right
    | _ => none).getD p

/-- Values that are written out, whatever is in them. -/
def plainKinds : List Kind :=
  [.string, .number, .trueLiteral, .falseLiteral, .nullLiteral, .undefined, .regex, .object, .array, .arrowFunction,
    .functionExpression]

/-- The value is written out where it stands, and not computed or taken from elsewhere. -/
inductive WrittenOut (v : Place) : Prop
  | plain : v.kind ∈ plainKinds → WrittenOut v
  | template : v.kind = .templateString → (∀ c ∈ v.namedChildren, c.kind ≠ .templateSubstitution) → WrittenOut v
  | signed {a : Place} : v.kind = .unaryExpression → v.field? .argument = some a → a.kind = .number → WrittenOut v

theorem Mentions.ne_comment {p : Place} {name : String} (h : Mentions p name) : p.kind ≠ .comment := by
  cases h with
  | pair hk => simp [hk]
  | shorthand hk => simp [hk]

theorem GivesDefault.ne_comment {p : Place} {name : String} (h : GivesDefault p name) : p.kind ≠ .comment := by
  cases h with
  | same hk => simp [hk]
  | renamed hk => simp [hk]

theorem mentions_iff {p : Place} {name : String} : Mentions p name ↔ declaredName? p = some name := by
  constructor
  · rintro (⟨hk, hkey, hname, hv⟩ | ⟨hk, rfl⟩)
    · simp [declaredName?, hk, hkey, hv, propertyKey?_eq_some_iff.2 hname]
    · simp [declaredName?, hk]
  · intro h
    by_cases hpair : p.kind = .pair
    · cases hvalue : p.field? .value with
      | none => simp [declaredName?, hpair, hvalue] at h
      | some value =>
        simp only [declaredName?, hpair, hvalue, Option.isSome_some, if_true] at h
        obtain ⟨key, hkey, hname⟩ := Option.bind_eq_some_iff.1 h
        exact .pair hpair hkey (propertyKey?_eq_some_iff.1 hname) hvalue
    by_cases hshorthand : p.kind = .shorthandPropertyIdentifier
    · simp only [declaredName?, hshorthand, Option.some.injEq] at h
      exact .shorthand hshorthand h
    · simp [declaredName?] at h

instance (p : Place) (name : String) : Decidable (Mentions p name) := decidable_of_iff _ mentions_iff.symm

theorem patternDefault?_eq_some_iff {p : Place} {name : String} {x : DefaultValue} :
    patternDefault? p = some (name, x) ↔ GivesDefault p name ∧ x = defaultOf (givenValue p) := by
  constructor
  · intro h
    by_cases hsame : p.kind = .objectAssignmentPattern
    · simp only [patternDefault?, hsame, Place.fieldText?, Option.bind_eq_bind, Option.bind_eq_some_iff,
        Option.map_eq_some_iff] at h
      obtain ⟨_, ⟨left, hleft, rfl⟩, right, hright, h⟩ := h
      cases h
      exact ⟨.same hsame hleft rfl hright, by simp [givenValue, hsame, hright]⟩
    by_cases hrenamed : p.kind = .pairPattern
    · simp only [patternDefault?, hrenamed, Option.bind_eq_bind, Option.bind_eq_some_iff] at h
      obtain ⟨key, hkey, value, hvalue, h⟩ := h
      split at h
      · next hk =>
        simp only [Option.bind_eq_some_iff] at h
        obtain ⟨_, hname, right, hright, h⟩ := h
        cases h
        exact ⟨.renamed hrenamed hkey (propertyKey?_eq_some_iff.1 hname) hvalue hk hright,
          by simp [givenValue, hrenamed, hvalue, hright]⟩
      · cases h
    · simp [patternDefault?] at h
  · rintro ⟨⟨hk, hleft, rfl, hright⟩ | ⟨hk, hkey, hname, hvalue, hkind, hright⟩, rfl⟩
    · simp [patternDefault?, givenValue, Place.fieldText?, hk, hleft, hright]
    · simp [patternDefault?, givenValue, hk, hkey, hvalue, hkind, hright, propertyKey?_eq_some_iff.2 hname]

instance (p : Place) (name : String) : Decidable (GivesDefault p name) :=
  decidable_of_iff ((patternDefault? p).map Prod.fst = some name) (by
    simp [Option.map_eq_some_iff, patternDefault?_eq_some_iff])

theorem writtenOut_iff {v : Place} : WrittenOut v ↔
    v.kind ∈ plainKinds ∨ (v.kind = .templateString ∧ ∀ c ∈ v.namedChildren, c.kind ≠ .templateSubstitution) ∨
      (v.kind = .unaryExpression ∧ ∃ a ∈ v.field? .argument, a.kind = .number) := by
  constructor
  · rintro (hk | ⟨hk, hc⟩ | ⟨hk, ha, hn⟩)
    · exact .inl hk
    · exact .inr (.inl ⟨hk, hc⟩)
    · exact .inr (.inr ⟨hk, _, ha, hn⟩)
  · rintro (hk | ⟨hk, hc⟩ | ⟨hk, a, ha, hn⟩)
    · exact .plain hk
    · exact .template hk hc
    · exact .signed hk ha hn

instance (v : Place) : Decidable (WrittenOut v) := decidable_of_iff _ writtenOut_iff.symm

theorem isLiteral_iff {p : Place} : p.isLiteral = true ↔ WrittenOut p.bare := by
  rw [writtenOut_iff]
  unfold Place.isLiteral
  dsimp only
  split
  case h_12 hk => simp [hk, plainKinds, Place.isFixedTemplate]
  case h_13 hk => cases ha : p.bare.field? .argument <;> simp [hk, plainKinds]
  case h_14 => simp_all [plainKinds]
  all_goals
    next hk => simp [hk, plainKinds]

/-! ## Where mentions stand -/

/-- The first parameter of a function. -/
def parameterOf? (function : Place) : Option Place :=
  (function.field? .parameter) <|> (function.field? .parameters).bind fun ps => ps.properChildren.head?

/-- Kinds of parameters that may have an annotation. -/
def annotatedKinds : List Kind := [.requiredParameter, .optionalParameter]

/-- The pattern of a parameter, without its annotation and without a default for the whole. -/
def parameterShape? (p : Place) : Option Place :=
  (if p.kind ∈ annotatedKinds then p.field? .pattern else some p).bind fun q =>
    if q.kind = .assignmentPattern then q.field? .left else some q

/-- The parts of the pattern by which a function takes its first parameter apart. -/
def patternParts (d : Definition) : List Place :=
  if d.kind = .ofFunction then
    (((parameterOf? d.place).bind parameterShape?).filter fun p => p.kind == .objectPattern).elim [] Place.namedChildren
  else []

/-- The name is that of a type of components, alone or as the last of several. -/
def NamesComponents (name : String) : Prop :=
  ∃ t ∈ componentTypes, t.toList = name.toList ∨ '.' :: t.toList <:+ name.toList

instance (name : String) : Decidable (NamesComponents name) :=
  inferInstanceAs (Decidable (∃ t ∈ componentTypes, t.toList = name.toList ∨ '.' :: t.toList <:+ name.toList))

/-- The type arguments of what a class extends. -/
def heritageArguments? (p : Place) : Option Place :=
  (p.children.find? fun c => c.kind == .classHeritage).bind fun h => h.preorder.find? fun c => c.kind == .typeArguments

/-- Where the key of a static member stands. -/
def keyFields (kind : DefinitionKind) : List Field := if kind = .ofFactory then [.key, .name] else [.name, .property]

/-- The target of an assignment is the member of that name of one of the names. -/
def IsStatic (names : List String) (name : String) (left : Place) : Prop :=
  left.kind = .memberExpression ∧ left.fieldText? .property = some name ∧
    ∃ object ∈ left.field? .object, object.kind = .identifier ∧ object.text ∈ names

instance (names : List String) (name : String) (left : Place) : Decidable (IsStatic names name left) :=
  inferInstanceAs (Decidable (_ ∧ _))

namespace Reading

variable (r : Reading)

/-- The value if it is an object. -/
def literal? (v : Place) : Option Place := if (r.bare v).kind = .object then some (r.bare v) else none

/-- The object that a value stands for: itself, or the one that the module binds to its name. -/
def objectOf? (scope : Scope) (v : Place) : Option Place := (r.literal? v) <|> r.boundObject? scope (r.bare v)

/-- The object that a function returns: what its body is, or what the first return statement gives that gives one. -/
def returned? (function : Place) : Option Place :=
  (function.field? .body).bind fun body =>
    if body.kind = .statementBlock then
      (body.namedChildren.filter fun s => s.kind == .returnStatement).findSome? fun s =>
        (r.parts s).head?.bind r.literal?
    else r.literal? body

/-- The value of a static member of a class: a field has one, and a getter returns one. -/
def classValue? (name : String) (p : Place) : Option Place :=
  if p.hasSymbol "static" = true ∧ Keyed (keyFields .ofClass) p name then
    if p.kind ∈ [.fieldDefinition, .publicFieldDefinition] then p.field? .value
    else if p.kind = .methodDefinition ∧ p.hasSymbol "get" = true then r.returned? p
    else none
  else none

/-- The value of a static member of the object that a class factory is given. The default properties are also what
`getDefaultProps` returns. -/
def factoryValue? (name : String) (p : Place) : Option Place :=
  if Keyed (keyFields .ofFactory) p name then if p.kind = .pair then p.field? .value else none
  else if name = "defaultProps" ∧ Keyed (keyFields .ofFactory) p "getDefaultProps" then
    if p.kind = .methodDefinition then r.returned? p
    else if p.kind = .pair then (p.field? .value).bind fun f => r.returned? (r.bare f)
    else none
  else none

/-- The value that a statement assigns to a static member of one of the names. -/
def assignedValue? (names : List String) (name : String) (p : Place) : Option Place :=
  if p.kind = .expressionStatement then
    ((r.parts p).head?.filter fun a => a.kind == .assignmentExpression).bind fun a =>
      (a.field? .left).bind fun left => if IsStatic names name left then a.field? .right else none
  else none

/-- The values of a static member, in the order in which they apply: those in the definition, then those that the module
assigns. -/
def staticValues (program : Place) (d : Definition) (name : String) : List Place :=
  (match d.kind with
    | .ofFunction => []
    | .ofClass => (r.members d).filterMap (r.classValue? name)
    | .ofFactory => (r.members d).filterMap (r.factoryValue? name)) ++
  program.namedChildren.filterMap (r.assignedValue? d.names name)

/-- The type argument of an annotation that names a type of components. -/
def componentArgument? (note : Place) : Option Place :=
  ((r.parts note).head?.filter fun t => t.kind == .genericType).bind fun t =>
    if ∃ name ∈ t.fieldText? .name, NamesComponents name then
      (t.field? .typeArguments).bind fun args => (r.parts args).head?
    else none

/-- Where the type of the properties of a component is written: at the first parameter of a function or in the annotation
of the variable, and in what a class extends. -/
def typePlace? (d : Definition) : Option Place :=
  match d.kind with
  | .ofFunction =>
    (((parameterOf? d.place).filter fun p => annotatedKinds.contains p.kind).bind fun p => p.field? .type) <|>
      (d.declarator.bind fun x => x.field? .type).bind r.componentArgument?
  | .ofClass => (heritageArguments? d.place).bind fun args => (r.parts args).head?
  | .ofFactory => none

/-! ## Mentions in the order in which they apply -/

variable (scope : Scope) (program : Place) (d : Definition) (name : String)

/-- The members of objects of validators that mention the property, with those of spread objects in their places, four
levels deep. -/
def validatorMentions : List Place :=
  (((r.staticValues program d "propTypes").filterMap (r.objectOf? scope)).flatMap
    (spreadSequence (r.spreadObject? scope) 4)).filter fun p => Mentions p name

/-- The members of the annotated type that have the name of the property. -/
def typeMentions : List TypeMember := ((r.typePlace? d).elim [] (typeMembers program)).filter fun m => m.name = name

/-- The parts of the pattern of the first parameter that give the property a default. -/
def parameterMentions : List Place := (patternParts d).filter fun p => GivesDefault p name

/-- The members of objects of default properties that mention the property. -/
def defaultMentions : List Place :=
  (((r.staticValues program d "defaultProps").filterMap (r.objectOf? scope)).flatMap Place.namedChildren).filter
    fun p => Mentions p name

/-- The default that a mention gives: the text of its value, and whether that is computed. -/
def defaultAt (p : Place) : DefaultValue :=
  ⟨(givenValue p).text, decide (¬ WrittenOut (r.bare (givenValue p)))⟩

/-- The mention is a pair, and its value ends in `.isRequired`. -/
def EndsInMark (p : Place) : Prop :=
  p.kind = .pair ∧ ∃ value ∈ p.field? .value, (r.bare value).kind = .memberExpression ∧
    (r.bare value).fieldText? .property = some "isRequired" ∧ ((r.bare value).field? .object).isSome = true

instance (p : Place) : Decidable (r.EndsInMark p) := inferInstanceAs (Decidable (_ ∧ _))

end Reading

/-! ## Everything that is named counts -/

theorem keyed_pair_iff {f g : Field} {p : Place} {name : String} :
    Keyed [f, g] p name ↔ ((p.field? f) <|> (p.field? g)).bind Place.propertyKey? = some name := by
  have hfields : [f, g].findSome? p.field? = ((p.field? f) <|> (p.field? g)) := by
    cases hf : p.field? f <;> cases hg : p.field? g <;> simp [hf, hg]
  unfold Keyed
  rw [hfields, Option.bind_eq_some_iff]
  simp only [propertyKey?_eq_some_iff]

theorem objectOf?_written (scope : Scope) (v : Place) : Reading.written.objectOf? scope v = scope.object? v := by
  have hliteral : Reading.written.literal? v = if v.bare.kind = .object then some v.bare else none := rfl
  unfold Reading.objectOf?
  rw [hliteral]
  by_cases hobject : v.bare.kind = .object
  · simp [Scope.object?, hobject]
  by_cases hname : v.bare.kind = .identifier
  · have hbound := boundObject?_written scope hname (bare_bare v)
    have hbare : scope.object? v.bare = scope.object? v := by
      unfold Scope.object?
      rw [bare_bare]
    rw [if_neg hobject, ← hbare, ← hbound]
    rfl
  · simp [Scope.object?, Reading.boundObject?, Reading.written, hobject, hname]

theorem returned?_written (function : Place) : Reading.written.returned? function = function.returnedObject? := by
  unfold Reading.returned? Place.returnedObject?
  cases function.field? .body with
  | none => rfl
  | some body =>
    simp only [Option.bind_some, Option.bind_eq_bind]
    by_cases hk : body.kind = .statementBlock
    · simp only [hk, if_true, ne_eq, not_true_eq_false, if_false]
      rfl
    · simp only [hk, if_false, ne_eq, not_false_eq_true, if_true]
      rfl

theorem defaultAt_written (p : Place) : Reading.written.defaultAt p = defaultOf (givenValue p) := by
  have hcomputed : decide (¬ WrittenOut (givenValue p).bare) = !(givenValue p).isLiteral := by
    by_cases h : (givenValue p).isLiteral = true
    · simp [h, isLiteral_iff.1 h]
    · simp [Bool.not_eq_true _ ▸ h, mt isLiteral_iff.2 h]
  unfold Reading.defaultAt defaultOf
  rw [← hcomputed]
  rfl

theorem endsInMark_written {p : Place} : Reading.written.EndsInMark p ↔ EndsRequired p := by
  simp [Reading.EndsInMark, EndsRequired, Reading.written, Option.isSome_iff_exists]

theorem memberDefault?_eq_some_iff {p : Place} {name : String} {x : DefaultValue} :
    memberDefault? p = some (name, x) ↔ Mentions p name ∧ x = defaultOf (givenValue p) := by
  have hshorthand : p.kind = .shorthandPropertyIdentifier → defaultOf (givenValue p) = ⟨p.text, true⟩ := by
    intro hk
    have hinside : p.inside? = none := by simp [Place.inside?, hk]
    have hbare : p.bare = p := (strips_iff.1 (.done hinside)).symm
    simp [givenValue, defaultOf, Place.isLiteral, hk, hbare]
  constructor
  · intro h
    by_cases hpair : p.kind = .pair
    · simp only [memberDefault?, hpair, Option.bind_eq_bind, Option.bind_eq_some_iff] at h
      obtain ⟨key, hkey, value, hvalue, _, hname, h⟩ := h
      cases h
      exact ⟨.pair hpair hkey (propertyKey?_eq_some_iff.1 hname) hvalue, by simp [givenValue, hpair, hvalue]⟩
    by_cases hk : p.kind = .shorthandPropertyIdentifier
    · simp only [memberDefault?, hk] at h
      cases h
      exact ⟨.shorthand hk rfl, (hshorthand hk).symm⟩
    · simp [memberDefault?] at h
  · rintro ⟨⟨hk, hkey, hname, hvalue⟩ | ⟨hk, rfl⟩, rfl⟩
    · simp [memberDefault?, givenValue, hk, hkey, hvalue, propertyKey?_eq_some_iff.2 hname]
    · rw [hshorthand hk]
      simp [memberDefault?, hk]

theorem valuesUnder_filterMap (name : String) (member? : Place → Option (String × Place)) (ps : List Place) :
    Statics.valuesUnder name (ps.filterMap member?) =
      ps.filterMap fun p => (member? p).bind fun m => if m.1 = name then some m.2 else none := by
  unfold Statics.valuesUnder
  induction ps with
  | nil => rfl
  | cons p rest ih =>
    cases hm : member? p with
    | none => simp [hm, ih]
    | some m => by_cases hn : m.1 = name <;> simp [hm, hn, ih]

theorem classValue?_written (name : String) (p : Place) :
    Reading.written.classValue? name p =
      (Statics.classMember? p).bind fun m => if m.1 = name then some m.2 else none := by
  have hvalue : Statics.classValue? p =
      if p.kind ∈ [.fieldDefinition, .publicFieldDefinition] then p.field? .value
      else if p.kind = .methodDefinition ∧ p.hasSymbol "get" = true then Reading.written.returned? p
      else none := by
    rw [returned?_written]
    by_cases hfield : p.kind = .fieldDefinition
    · simp [Statics.classValue?, hfield]
    by_cases hpublic : p.kind = .publicFieldDefinition
    · simp [Statics.classValue?, hpublic]
    by_cases hmethod : p.kind = .methodDefinition
    · simp [Statics.classValue?, hmethod]
    · simp [Statics.classValue?, hfield, hpublic, hmethod]
  have hkeyed : Keyed (keyFields .ofClass) p name ↔ p.classMemberName? = some name := keyed_pair_iff
  unfold Reading.classValue? Statics.classMember?
  rw [← hvalue]
  by_cases hstatic : p.hasSymbol "static" = true
  · cases hn : p.classMemberName? with
    | none => simp [hkeyed, hn]
    | some n =>
      by_cases hname : n = name
      · cases Statics.classValue? p <;> simp [hkeyed, hn, hname, hstatic]
      · cases Statics.classValue? p <;> simp [hkeyed, hn, hname, hstatic]
  · simp [hstatic]

theorem factoryValue?_written {name : String} (hname : name ≠ "getDefaultProps") (p : Place) :
    Reading.written.factoryValue? name p =
      (Statics.objectMember? p).bind fun m => if m.1 = name then some m.2 else none := by
  have hkeyed : ∀ n, Keyed (keyFields .ofFactory) p n ↔
      ((p.field? .key) <|> (p.field? .name)).bind Place.propertyKey? = some n := fun n => keyed_pair_iff
  have hbare : ∀ v, Reading.written.bare v = v.bare := fun _ => rfl
  unfold Reading.factoryValue? Statics.objectMember?
  simp only [hkeyed, returned?_written, hbare]
  cases ((p.field? .key) <|> (p.field? .name)).bind Place.propertyKey? with
  | none => simp
  | some n =>
    -- what `getDefaultProps` returns stands under the name `defaultProps`, all else under its own key
    by_cases hdefaults : n = "getDefaultProps"
    · subst hdefaults
      by_cases hmethod : p.kind = .methodDefinition
      · by_cases hd : name = "defaultProps"
        · cases p.returnedObject? <;> simp [hmethod, hd]
        · cases p.returnedObject? <;> simp [hmethod, hd, Ne.symm hd, Ne.symm hname]
      by_cases hpair : p.kind = .pair
      · cases p.field? .value with
        | none => simp [hpair]
        | some v =>
          by_cases hd : name = "defaultProps"
          · cases hr : v.bare.returnedObject? <;> simp [hpair, hd, hr]
          · cases hr : v.bare.returnedObject? <;> simp [hpair, hd, hr, Ne.symm hd, Ne.symm hname]
      · simp [hmethod, hpair]
    · by_cases hmethod : p.kind = .methodDefinition
      · simp [hmethod, hdefaults]
      by_cases hpair : p.kind = .pair
      · cases p.field? .value with
        | none => simp [hpair]
        | some v => simp [hpair, hdefaults]
      · simp [hmethod, hpair]

theorem assignedValue?_written (names : List String) (name : String) (p : Place) :
    Reading.written.assignedValue? names name p =
      (Statics.assignedMember? names p).bind fun m => if m.1 = name then some m.2 else none := by
  have hparts : Reading.written.parts p = p.namedChildren := rfl
  unfold Reading.assignedValue? Statics.assignedMember? Place.assignment?
  by_cases hk : p.kind = .expressionStatement
  · simp only [hk, hparts, if_true, ne_eq, not_true_eq_false, if_false, Option.bind_eq_bind]
    cases p.namedChildren.head? with
    | none => rfl
    | some a =>
      by_cases ha : a.kind = .assignmentExpression
      · simp only [Option.filter_some, ha, beq_self_eq_true, if_true, Option.bind_some, not_true_eq_false, if_false]
        cases a.field? .left with
        | none => simp
        | some left =>
          cases a.field? .right with
          | none => simp
          | some right =>
            simp only [Option.bind_some, Option.pure_def]
            by_cases hstatic : IsStatic names name left
            · rw [if_pos hstatic]
              obtain ⟨hm, hproperty, object, hobject, ho⟩ := hstatic
              rw [Option.mem_def.1 hobject, hproperty]
              simp [hm, ho]
            · -- a target of another form or name gives no value on either side
              rw [if_neg hstatic, eq_comm]
              simp only [Option.bind_eq_none_iff, Option.bind_eq_some_iff]
              rintro m ⟨object, hobject, n, hproperty, h⟩
              split at h
              · next hm =>
                cases h
                refine if_neg fun hn : n = name => ?_
                subst hn
                exact hstatic ⟨hm.1, hproperty, object, hobject, hm.2⟩
              · cases h
      · simp [ha]
  · simp [hk]

theorem staticValues_written (program : Place) (d : Definition) {name : String} (hname : name ≠ "getDefaultProps") :
    Reading.written.staticValues program d name = Statics.valuesUnder name (staticMembers program d) := by
  have happend : ∀ l l' : List (String × Place),
      Statics.valuesUnder name (l ++ l') = Statics.valuesUnder name l ++ Statics.valuesUnder name l' := by
    simp [Statics.valuesUnder]
  unfold Reading.staticValues staticMembers
  rw [happend, valuesUnder_filterMap, funext (assignedValue?_written d.names name)]
  congr 1
  unfold Reading.members
  cases d.kind with
  | ofFunction => rfl
  | ofClass =>
    dsimp only
    rw [valuesUnder_filterMap, funext (classValue?_written name)]
  | ofFactory =>
    dsimp only
    rw [valuesUnder_filterMap, funext (factoryValue?_written hname), factoryObject?_written]

theorem spreadObject?_written (scope : Scope) (p : Place) :
    Reading.written.spreadObject? scope p = spreadObject? scope p := by
  unfold Reading.spreadObject? Reading.spreadValue? spreadObject?
  by_cases hk : p.kind = .spreadElement
  · have hparts : Reading.written.parts p = p.namedChildren := rfl
    have hbare : Reading.written.bare = Place.bare := rfl
    simp only [hk, if_true, hparts, hbare]
    cases p.namedChildren.head? with
    | none => rfl
    | some q =>
      simp only [Option.map_some, Option.bind_some]
      split
      · next hv => exact boundObject?_written scope hv (bare_bare q)
      · next hv => exact if_neg hv
  · simp [hk]

/-- What an object of validators says is said by the members of its sequence. -/
theorem validations_eq_sequence (scope : Scope) (levels : Nat) (object : Place) :
    validations scope levels object =
      (spreadSequence (Reading.written.spreadObject? scope) levels object).filterMap Validation.ofMember? := by
  have hsingle : ∀ q, (Validation.ofMember? q).toList = [q].filterMap Validation.ofMember? := by
    intro q
    cases hq : Validation.ofMember? q <;> simp [hq]
  have hmember : ∀ p, validations.ofMember scope levels p =
      (spreadSequence.ofMember (Reading.written.spreadObject? scope) levels p).filterMap Validation.ofMember? := by
    induction levels with
    | zero =>
      -- a spread at the last level is left out of the sequence, and says nothing
      intro p
      rw [validations.ofMember, spreadSequence.ofMember]
      split
      · next hk => simp [Validation.ofMember?, hk]
      · exact hsingle p
    | succ levels ih =>
      intro p
      rw [validations.ofMember, spreadSequence.ofMember, spreadObject?_written]
      cases spreadObject? scope p with
      | none => exact hsingle p
      | some o =>
        dsimp only
        rw [List.filterMap_flatMap]
        exact List.flatMap_congr fun q _ => ih q
  unfold validations spreadSequence
  rw [List.filterMap_flatMap]
  exact List.flatMap_congr fun p _ => hmember p

theorem splitOnChar_go_ne_nil (c : Char) (cs acc : List Char) : Text.splitOnChar.go c cs acc ≠ [] := by
  induction cs generalizing acc with
  | nil => simp [Text.splitOnChar.go]
  | cons d rest ih =>
    rw [Text.splitOnChar.go]
    split
    · exact List.cons_ne_nil _ _
    · exact ih _

/-- The last piece is all, or what comes after the last separator. -/
theorem getLast?_splitOnChar_go {c : Char} {t : String} (ht : c ∉ t.toList) (cs acc : List Char) :
    (Text.splitOnChar.go c cs acc).getLast? = some t ↔ t.toList = acc.reverse ++ cs ∨ c :: t.toList <:+ cs := by
  induction cs generalizing acc with
  | nil =>
    have hspelled : String.ofList acc.reverse = t ↔ t.toList = acc.reverse := by
      constructor
      · rintro rfl
        exact String.toList_ofList
      · intro h
        rw [← h, String.ofList_toList]
    simp [Text.splitOnChar.go, hspelled]
  | cons d rest ih =>
    rw [Text.splitOnChar.go]
    split
    · next hd =>
      subst hd
      obtain ⟨x, l, hl⟩ := List.exists_cons_of_ne_nil (splitOnChar_go_ne_nil d rest [])
      have hinside : t.toList ≠ acc.reverse ++ d :: rest := fun h => ht (by simp [h])
      rw [hl, List.getLast?_cons_cons, ← hl, ih, List.suffix_cons_iff, or_iff_right hinside]
      simp
    · next hd =>
      have hfirst : ¬ c :: t.toList = d :: rest := fun h => hd (List.cons.inj h).1.symm
      rw [ih, List.suffix_cons_iff, or_iff_right hfirst]
      simp

theorem namesComponents_iff {name : String} :
    componentTypes.contains ((Text.splitOnChar '.' name).getLast?.getD name) = true ↔ NamesComponents name := by
  have hplain : ∀ t ∈ componentTypes, '.' ∉ t.toList := by decide
  obtain ⟨last, hlast⟩ := Option.isSome_iff_exists.1
    (List.getLast?_isSome.2 (splitOnChar_go_ne_nil '.' name.toList []))
  have hpiece : ∀ t ∈ componentTypes, last = t ↔ t.toList = name.toList ∨ '.' :: t.toList <:+ name.toList := by
    intro t ht
    rw [← Option.some.injEq, ← hlast, getLast?_splitOnChar_go (hplain t ht)]
    rfl
  rw [Text.splitOnChar, hlast, Option.getD_some, List.contains_iff_mem]
  constructor
  · intro h
    exact ⟨last, h, (hpiece last h).1 rfl⟩
  · rintro ⟨t, ht, h⟩
    rwa [(hpiece t ht).2 h]

theorem parameterOf?_eq (function : Place) : parameterOf? function = firstParameter? function := by
  unfold parameterOf? firstParameter? Place.properChildren
  simp only [List.head?_filter]

theorem typePlace?_written (d : Definition) : Reading.written.typePlace? d = propsType? d := by
  have hparts : Reading.written.parts = Place.namedChildren := rfl
  have htyped : (fun p : Place => annotatedKinds.contains p.kind) = isTypedParameter := by
    funext p
    simp [annotatedKinds, isTypedParameter, beq_eq_decide]
  have hdeclared : ∀ x : Place, (x.field? .type).bind Reading.written.componentArgument? = declaredPropsType? x := by
    intro x
    unfold declaredPropsType?
    cases x.field? .type with
    | none => rfl
    | some note =>
      simp only [Option.bind_some, Option.bind_eq_bind, Reading.componentArgument?, hparts]
      cases note.namedChildren.head? with
      | none => rfl
      | some t =>
        by_cases hk : t.kind = .genericType
        · simp only [Option.filter_some, hk, beq_self_eq_true, if_true, Option.bind_some, ne_eq, not_true_eq_false,
            if_false]
          cases hname : t.fieldText? .name with
          | none => simp
          | some name =>
            simp only [Option.bind_some, namesComponents_iff, Option.mem_some_iff, exists_eq_left']
            rfl
        · simp [hk]
  unfold Reading.typePlace? propsType?
  cases d.kind with
  | ofFunction =>
    dsimp only
    rw [parameterOf?_eq, htyped]
    congr 1
    cases d.declarator with
    | none => rfl
    | some x => exact funext fun _ => hdeclared x
  | ofClass =>
    dsimp only
    unfold heritageArguments?
    rw [Option.bind_assoc]
    rfl
  | ofFactory => rfl

theorem parameterDefaultsOf_eq (d : Definition) : parameterDefaultsOf d = (patternParts d).filterMap patternDefault? := by
  have hshape : parameterShape? = parameterPattern? := by
    funext p
    have htyped : p.kind ∈ annotatedKinds ↔ isTypedParameter p = true := by simp [annotatedKinds, isTypedParameter]
    simp only [parameterShape?, parameterPattern?, htyped]
    split <;> rfl
  unfold parameterDefaultsOf patternParts parameterDefaults
  split
  · rw [parameterOf?_eq, hshape]
    cases (firstParameter? d.place).bind parameterPattern? with
    | none => rfl
    | some p => by_cases hk : p.kind = .objectPattern <;> simp [hk, Option.filter_some]
  · rfl

theorem defaultPropsOf_eq (program : Place) (scope : Scope) (d : Definition) :
    defaultPropsOf program scope d =
      (((Reading.written.staticValues program d "defaultProps").filterMap (Reading.written.objectOf? scope)).flatMap
        Place.namedChildren).filterMap memberDefault? := by
  rw [staticValues_written program d (by decide), funext (objectOf?_written scope), List.filterMap_flatMap]
  rfl

theorem validatorsOf_eq_sequence (program : Place) (scope : Scope) (d : Definition) :
    validatorsOf program scope d =
      (((Reading.written.staticValues program d "propTypes").filterMap (Reading.written.objectOf? scope)).flatMap
        (spreadSequence (Reading.written.spreadObject? scope) 4)).filterMap Validation.ofMember? := by
  rw [staticValues_written program d (by decide), funext (objectOf?_written scope), List.filterMap_flatMap]
  exact List.flatMap_congr fun object _ => validations_eq_sequence scope 4 object

/-- Entries under a name come from those items that have one. -/
theorem map_snd_filter_filterMap {α β : Type} {named? : α → Option (String × β)} {P : α → Prop} [DecidablePred P]
    {g : α → β} {name : String} (as : List α) (h : ∀ a x, named? a = some (name, x) ↔ P a ∧ x = g a) :
    ((as.filterMap named?).filter fun x => x.1 = name).map Prod.snd = (as.filter fun a => P a).map g := by
  induction as with
  | nil => rfl
  | cons a rest ih =>
    by_cases ha : P a
    · simp [(h a (g a)).2 ⟨ha, rfl⟩, ha, ih]
    · cases he : named? a with
      | none => simp [he, ha, ih]
      | some e =>
        have hname : e.1 ≠ name := by
          rintro rfl
          exact ha ((h a e.2).1 he).1
        simp [he, ha, hname, ih]

/-! ## Comments before mentions -/

/-- No comment is taken for the value. -/
def ClearValue (v : Place) : Prop := v.bare.kind ≠ .comment

/-- The first part of the construct is no comment. -/
def ProperHead (p : Place) : Prop := ∀ q ∈ p.namedChildren.head?, q.kind ≠ .comment

/-- No comment is taken for the value that is the first part of the construct. -/
def ClearHead (p : Place) : Prop := ∀ q ∈ p.namedChildren.head?, ClearValue q

/-- No comment is taken for the value, or for what the module binds to its name. -/
def ClearObject (scope : Scope) (v : Place) : Prop :=
  ClearValue v ∧ (v.bare.kind = .identifier → ∀ b ∈ scope.lookup v.bare.text, ClearValue b.value)

/-- No comment is taken for what the function returns. -/
def ClearReturn (function : Place) : Prop :=
  ∀ body ∈ function.field? .body,
    if body.kind = .statementBlock then ∀ s ∈ body.namedChildren, s.kind = .returnStatement → ClearHead s
    else ClearValue body

instance (v : Place) : Decidable (ClearValue v) := inferInstanceAs (Decidable (v.bare.kind ≠ .comment))

instance (p : Place) : Decidable (ProperHead p) :=
  inferInstanceAs (Decidable (∀ q ∈ p.namedChildren.head?, q.kind ≠ .comment))

instance (p : Place) : Decidable (ClearHead p) :=
  inferInstanceAs (Decidable (∀ q ∈ p.namedChildren.head?, ClearValue q))

instance (scope : Scope) (v : Place) : Decidable (ClearObject scope v) := inferInstanceAs (Decidable (_ ∧ _))

instance (function : Place) : Decidable (ClearReturn function) :=
  inferInstanceAs (Decidable (∀ body ∈ function.field? .body,
    if body.kind = .statementBlock then ∀ s ∈ body.namedChildren, s.kind = .returnStatement → ClearHead s
    else ClearValue body))

/-- No comment is taken for the object that a factory is given, for what a static member returns, or for an
assignment. -/
@[mk_iff]
structure ClearStatics (program : Place) (d : Definition) : Prop where
  object : d.kind = .ofFactory → ∀ args ∈ d.place.field? .arguments, ClearHead args
  getters : d.kind = .ofClass → ∀ p ∈ Reading.written.members d, p.hasSymbol "static" = true →
    ∀ name ∈ ["propTypes", "defaultProps"], Keyed (keyFields .ofClass) p name → ClearReturn p
  functions : d.kind = .ofFactory → ∀ p ∈ Reading.written.members d, Keyed (keyFields .ofFactory) p "getDefaultProps" →
    ClearReturn p ∧ ∀ f ∈ p.field? .value, ClearValue f ∧ ClearReturn f.bare
  statements : ∀ p ∈ program.namedChildren, p.kind = .expressionStatement → ProperHead p

/-- No comment is taken for a value or a type that mentions are read from. Comments among members and in patterns do no
harm. -/
@[mk_iff]
structure ClearMentions (program : Place) (scope : Scope) (d : Definition) : Prop where
  statics : ClearStatics program d
  validators : ∀ v ∈ Reading.written.staticValues program d "propTypes", ClearObject scope v ∧
    ∀ o ∈ Reading.written.objectOf? scope v, ClearSpreads scope 4 o ∧
      ∀ p ∈ spreadSequence (Reading.written.spreadObject? scope) 4 o, p.kind ≠ .comment → ClearValue (givenValue p)
  defaults : ∀ v ∈ Reading.written.staticValues program d "defaultProps", ClearObject scope v ∧
    ∀ o ∈ Reading.written.objectOf? scope v, ∀ p ∈ o.namedChildren, p.kind ≠ .comment → ClearValue (givenValue p)
  parameters : ∀ p ∈ patternParts d, p.kind ≠ .comment → ClearValue (givenValue p)
  annotation : ∀ x ∈ d.declarator, ∀ note ∈ x.field? .type, ProperHead note ∧
    ∀ t ∈ note.namedChildren.head?, ∀ args ∈ t.field? .typeArguments, ProperHead args
  heritage : ∀ args ∈ heritageArguments? d.place, ProperHead args

instance (program : Place) (d : Definition) : Decidable (ClearStatics program d) :=
  decidable_of_iff _ (clearStatics_iff program d).symm

instance (program : Place) (scope : Scope) (d : Definition) : Decidable (ClearMentions program scope d) :=
  decidable_of_iff _ (clearMentions_iff program scope d).symm

theorem ClearValue.literal? {v : Place} (h : ClearValue v) : Reading.proper.literal? v = Reading.written.literal? v := by
  have hbare : Reading.proper.bare v = Reading.written.bare v := properBare_eq h
  rw [Reading.literal?, Reading.literal?, hbare]

theorem ProperHead.head? {p : Place} (h : ProperHead p) :
    (Reading.proper.parts p).head? = (Reading.written.parts p).head? := head?_properChildren h

theorem ClearHead.proper {p : Place} (h : ClearHead p) : ProperHead p := by
  intro q hq hc
  exact h q hq (by rw [bare_of_comment hc, hc])

theorem ClearObject.objectOf? {scope : Scope} {v : Place} (h : ClearObject scope v) :
    Reading.proper.objectOf? scope v = Reading.written.objectOf? scope v := by
  have hbare : Reading.proper.bare v = v.bare := properBare_eq h.1
  rw [Reading.objectOf?, Reading.objectOf?, h.1.literal?, hbare, boundObject?_proper h.2]
  rfl

theorem ClearReturn.returned? {function : Place} (h : ClearReturn function) :
    Reading.proper.returned? function = Reading.written.returned? function := by
  unfold Reading.returned?
  cases hb : function.field? .body with
  | none => rfl
  | some body =>
    have hbody := h body hb
    rw [Option.bind_some, Option.bind_some]
    split
    · next hk =>
      rw [if_pos hk] at hbody
      rw [← List.head?_filterMap, ← List.head?_filterMap]
      congr 1
      refine List.filterMap_congr fun s hs => ?_
      obtain ⟨hs, hreturn⟩ := List.mem_filter.1 hs
      have hclear := hbody s hs (by simpa using hreturn)
      rw [hclear.proper.head?]
      cases hq : (Reading.written.parts s).head? with
      | none => rfl
      | some q => exact (hclear q hq).literal?
    · next hk =>
      rw [if_neg hk] at hbody
      exact hbody.literal?

namespace ClearStatics

variable {program : Place} {d : Definition} {name : String}

theorem classValue? (h : ClearStatics program d) (hk : d.kind = .ofClass) (hname : name ∈ ["propTypes", "defaultProps"])
    {p : Place} (hp : p ∈ Reading.written.members d) :
    Reading.proper.classValue? name p = Reading.written.classValue? name p := by
  unfold Reading.classValue?
  split
  · next hkeyed =>
    rw [(h.getters hk p hp hkeyed.1 name hname hkeyed.2).returned?]
  · rfl

theorem factoryValue? (h : ClearStatics program d) (hk : d.kind = .ofFactory) {p : Place}
    (hp : p ∈ Reading.written.members d) :
    Reading.proper.factoryValue? name p = Reading.written.factoryValue? name p := by
  unfold Reading.factoryValue?
  split
  · rfl
  · split
    · next hkeyed =>
      obtain ⟨hreturn, hfunction⟩ := h.functions hk p hp hkeyed.2
      rw [hreturn.returned?]
      cases hf : p.field? .value with
      | none => rfl
      | some f =>
        obtain ⟨hvalue, hbody⟩ := hfunction f hf
        have hbare : Reading.proper.bare f = f.bare := properBare_eq hvalue
        rw [Option.bind_some, Option.bind_some, hbare, hbody.returned?]
        rfl
    · rfl

theorem assignedValue? (h : ClearStatics program d) {p : Place} (hp : p ∈ program.namedChildren) (names : List String) :
    Reading.proper.assignedValue? names name p = Reading.written.assignedValue? names name p := by
  unfold Reading.assignedValue?
  split
  · next hk => rw [(h.statements p hp hk).head?]
  · rfl

theorem staticValues (h : ClearStatics program d) (hname : name ∈ ["propTypes", "defaultProps"]) :
    Reading.proper.staticValues program d name = Reading.written.staticValues program d name := by
  unfold Reading.staticValues
  rw [members_proper h.object, List.filterMap_congr fun p hp => h.assignedValue? hp d.names]
  congr 1
  cases hk : d.kind with
  | ofFunction => rfl
  | ofClass => exact List.filterMap_congr fun p hp => h.classValue? hk hname hp
  | ofFactory => exact List.filterMap_congr fun p hp => h.factoryValue? hk hp

end ClearStatics

/-- The reading sees the mentions that apply, and what they give. -/
structure SeesMentions (r : Reading) (program : Place) (scope : Scope) (d : Definition) : Prop where
  validators : r.validatorMentions scope program d = Reading.written.validatorMentions scope program d
  types : r.typeMentions program d = Reading.written.typeMentions program d
  defaults : r.defaultMentions scope program d = Reading.written.defaultMentions scope program d
  parameterValues : ∀ name, ∀ p ∈ Reading.parameterMentions d name, r.defaultAt p = Reading.written.defaultAt p
  memberValues : ∀ name, ∀ p ∈ Reading.written.defaultMentions scope program d name,
    r.defaultAt p = Reading.written.defaultAt p
  marks : ∀ name, ∀ p ∈ Reading.written.validatorMentions scope program d name,
    (r.EndsInMark p ↔ Reading.written.EndsInMark p)

theorem defaultAt_proper {p : Place} (h : ClearValue (givenValue p)) :
    Reading.proper.defaultAt p = Reading.written.defaultAt p := by
  have hbare : Reading.proper.bare (givenValue p) = Reading.written.bare (givenValue p) := properBare_eq h
  unfold Reading.defaultAt
  simp only [hbare]

theorem endsInMark_proper {p : Place} (h : ClearValue (givenValue p)) :
    Reading.proper.EndsInMark p ↔ Reading.written.EndsInMark p := by
  unfold Reading.EndsInMark
  refine and_congr_right fun hk => exists_congr fun value => and_congr_right fun hv => ?_
  have hgiven : givenValue p = value := by simp [givenValue, hk, Option.mem_def.1 hv]
  have hbare : Reading.proper.bare value = Reading.written.bare value := properBare_eq (hgiven ▸ h)
  rw [hbare]

theorem componentArgument?_proper {note : Place} (hnote : ProperHead note)
    (hargs : ∀ t ∈ note.namedChildren.head?, ∀ args ∈ t.field? .typeArguments, ProperHead args) :
    Reading.proper.componentArgument? note = Reading.written.componentArgument? note := by
  rw [Reading.componentArgument?, Reading.componentArgument?, hnote.head?]
  cases ht : (Reading.written.parts note).head? with
  | none => rfl
  | some t =>
    have hhead : ((t.field? .typeArguments).bind fun args => (Reading.proper.parts args).head?) =
        (t.field? .typeArguments).bind fun args => (Reading.written.parts args).head? :=
      Option.bind_congr fun args ha => (hargs t ht args ha).head?
    by_cases hk : t.kind = .genericType
    · simp only [hk, Option.filter_some, beq_self_eq_true, if_true, Option.bind_some, hhead]
    · simp [hk, Option.filter_some]

namespace ClearMentions

variable {program : Place} {scope : Scope} {d : Definition}

theorem typePlace? (h : ClearMentions program scope d) : Reading.proper.typePlace? d = Reading.written.typePlace? d := by
  unfold Reading.typePlace?
  cases d.kind with
  | ofFunction =>
    dsimp only
    congr 1
    refine funext fun _ => ?_
    cases hx : d.declarator with
    | none => rfl
    | some x =>
      rw [Option.bind_some]
      cases hnote : x.field? .type with
      | none => rfl
      | some note =>
        obtain ⟨hclear, hargs⟩ := h.annotation x hx note hnote
        exact componentArgument?_proper hclear hargs
  | ofClass =>
    dsimp only
    cases ha : heritageArguments? d.place with
    | none => rfl
    | some args => exact (h.heritage args ha).head?
  | ofFactory => rfl

theorem sees (h : ClearMentions program scope d) : SeesMentions .proper program scope d where
  validators := by
    funext name
    unfold Reading.validatorMentions
    rw [h.statics.staticValues (by simp), List.filterMap_congr fun v hv => (h.validators v hv).1.objectOf?]
    congr 1
    refine List.flatMap_congr fun o ho => ?_
    obtain ⟨v, hv, hvo⟩ := List.mem_filterMap.1 ho
    exact ((h.validators v hv).2 o hvo).1.sees.1
  types := by
    funext name
    rw [Reading.typeMentions, Reading.typeMentions, h.typePlace?]
  defaults := by
    funext name
    unfold Reading.defaultMentions
    rw [h.statics.staticValues (by simp), List.filterMap_congr fun v hv => (h.defaults v hv).1.objectOf?]
  parameterValues name p hp := by
    obtain ⟨hp, hgives⟩ := List.mem_filter.1 hp
    exact defaultAt_proper (h.parameters p hp (of_decide_eq_true hgives).ne_comment)
  memberValues name p hp := by
    obtain ⟨hp, hmentions⟩ := List.mem_filter.1 hp
    obtain ⟨o, ho, hpo⟩ := List.mem_flatMap.1 hp
    obtain ⟨v, hv, hvo⟩ := List.mem_filterMap.1 ho
    exact defaultAt_proper ((h.defaults v hv).2 o hvo p hpo (of_decide_eq_true hmentions).ne_comment)
  marks name p hp := by
    obtain ⟨hp, hmentions⟩ := List.mem_filter.1 hp
    obtain ⟨o, ho, hpo⟩ := List.mem_flatMap.1 hp
    obtain ⟨v, hv, hvo⟩ := List.mem_filterMap.1 ho
    exact endsInMark_proper (((h.validators v hv).2 o hvo).2 p hpo (of_decide_eq_true hmentions).ne_comment)

end ClearMentions

theorem sees_of_clear {r : Reading} {program : Place} {scope : Scope} {d : Definition}
    (hr : r = .written ∨ r = .proper ∧ ClearMentions program scope d) : SeesMentions r program scope d := by
  rcases hr with rfl | ⟨rfl, hclear⟩
  · exact ⟨rfl, rfl, rfl, fun _ _ _ => rfl, fun _ _ _ => rfl, fun _ _ _ => Iff.rfl⟩
  · exact hclear.sees

/-! ## The entry of a property -/

theorem last_of_map_eq {α β γ : Type} {f : α → γ} {g : β → γ} {as : List α} {bs : List β} (h : as.map f = bs.map g) :
    (as = [] ↔ bs = []) ∧ as.getLast?.map f = bs.getLast?.map g := by
  rw [← List.map_eq_nil_iff (f := f), ← List.getLast?_map, h, List.map_eq_nil_iff, List.getLast?_map]
  exact ⟨Iff.rfl, rfl⟩

section Entry

variable {r : Reading} {program : Place} {scope : Scope} {d : Definition}

/-- What validators say of a property comes from its mentions: there is something if there is one, the last gives the
type, and the last pair the flag. -/
theorem SeesMentions.validators_said (h : SeesMentions r program scope d) (name : String) :
    let said := (validatorsOf program scope d).filter fun v => v.name = name
    let pt := r.validatorMentions scope program d name
    (said = [] ↔ pt = []) ∧ said.getLast?.map Validation.type = pt.getLast?.map declaredType ∧
      ((said.filterMap Validation.required).getLast?.getD false = true ↔
        ∃ q, (pt.filter fun p => p.kind = .pair).getLast? = some q ∧ r.EndsInMark q) := by
  intro said pt
  let ps := ((Reading.written.staticValues program d "propTypes").filterMap (Reading.written.objectOf? scope)).flatMap
    (spreadSequence (Reading.written.spreadObject? scope) 4)
  have hpt : pt = membersNaming name ps :=
    (congrFun h.validators name).trans (List.filter_congr fun p _ => by simp [mentions_iff])
  have hsaid : said = (ps.filterMap Validation.ofMember?).filter fun v => v.name = name := by
    simp only [said, ps, validatorsOf_eq_sequence]
  have hnaming : said.map some = pt.map Validation.ofMember? := by
    rw [hsaid, hpt]
    exact validations_naming name ps
  obtain ⟨hnil, hlast⟩ := last_of_map_eq hnaming
  refine ⟨hnil, ?_, ?_⟩
  · cases hm : pt.getLast? with
    | none =>
      rw [hm] at hlast
      rw [Option.map_eq_none_iff.1 hlast]
      rfl
    | some m =>
      rw [hpt] at hm
      have hdeclared : declaredName? m = some name :=
        of_decide_eq_true (List.mem_filter.1 (List.mem_of_getLast? hm)).2
      obtain ⟨v, hv, _, htype, _⟩ := ofMember?_of_declared hdeclared
      rw [hsaid, getLast?_validations hm, hv, Option.map_some, Option.map_some, htype]
  · have hmark : ∀ q, (pt.filter fun p => p.kind = .pair).getLast? = some q → (r.EndsInMark q ↔ EndsRequired q) := by
      intro q hq
      have hq : q ∈ pt := (List.mem_filter.1 (List.mem_of_getLast? hq)).1
      exact (h.marks name q (congrFun h.validators name ▸ hq)).trans endsInMark_written
    rw [exists_congr fun q => and_congr_right (hmark q), hsaid, hpt]
    exact flag_of_last_pair name ps

theorem SeesMentions.types_said (h : SeesMentions r program scope d) (name : String) :
    (typesOf program d).filter (fun m => m.name = name) = r.typeMentions program d name := by
  rw [h.types, Reading.typeMentions, typePlace?_written, typesOf]
  cases propsType? d <;> rfl

theorem SeesMentions.parameterDefaults_said (h : SeesMentions r program scope d) (name : String) :
    ((parameterDefaultsOf d).filter fun x => x.1 = name).map Prod.snd =
      (Reading.parameterMentions d name).map r.defaultAt := by
  have hgiven : (Reading.parameterMentions d name).map r.defaultAt =
      (Reading.parameterMentions d name).map fun p => defaultOf (givenValue p) :=
    List.map_congr_left fun p hp => (h.parameterValues name p hp).trans (defaultAt_written p)
  rw [hgiven, parameterDefaultsOf_eq]
  exact map_snd_filter_filterMap _ fun _ _ => patternDefault?_eq_some_iff

theorem SeesMentions.defaultProps_said (h : SeesMentions r program scope d) (name : String) :
    ((defaultPropsOf program scope d).filter fun x => x.1 = name).map Prod.snd =
      (r.defaultMentions scope program d name).map r.defaultAt := by
  have hgiven : (Reading.written.defaultMentions scope program d name).map r.defaultAt =
      (Reading.written.defaultMentions scope program d name).map fun p => defaultOf (givenValue p) :=
    List.map_congr_left fun p hp => (h.memberValues name p hp).trans (defaultAt_written p)
  rw [h.defaults, hgiven, defaultPropsOf_eq]
  exact map_snd_filter_filterMap _ fun _ _ => memberDefault?_eq_some_iff

end Entry

def mentionLines : List String :=
  ["export function A(\x7b x = 'a' \x7d: \x7b x?: number \x7d) \x7b return <a/>; \x7d\n",
    "A.propTypes = \x7b x: string.isRequired \x7d;\n", "A.defaultProps = "]

def mentionParameter : Node :=
  .mk .requiredParameter ⟨18, 45⟩ none [
    (some .pattern, .mk .objectPattern ⟨18, 29⟩ none [
      (none, .mk .objectAssignmentPattern ⟨20, 27⟩ none [
        (some .left, .mk .shorthandPropertyIdentifierPattern ⟨20, 21⟩ none []),
        (some .right, .mk .string ⟨24, 27⟩ none [])])]),
    (some .type, .mk .typeNote ⟨29, 45⟩ none [
      (none, .mk .objectType ⟨31, 45⟩ none [
        (none, .mk .propertySignature ⟨33, 43⟩ none [
          (some .name, .mk .propertyIdentifier ⟨33, 34⟩ none []),
          (none, .mk .symbol ⟨34, 35⟩ none []),
          (some .type, .mk .typeNote ⟨35, 43⟩ none [(none, .mk .predefinedType ⟨37, 43⟩ none [])])])])])]

def mentionFunction : Node :=
  .mk .functionDeclaration ⟨7, 63⟩ none [
    (some .name, .mk .identifier ⟨16, 17⟩ none []),
    (some .parameters, .mk .formalParameters ⟨17, 46⟩ none [(none, mentionParameter)]),
    (some .body, .mk .statementBlock ⟨47, 63⟩ none [
      (none, .mk .returnStatement ⟨49, 61⟩ none [(none, .mk .jsxSelfClosingElement ⟨56, 60⟩ none [])])])]

/-- The validator of `x`, which ends in `.isRequired`. -/
def mentionValidator : Node :=
  .mk .pair ⟨80, 100⟩ none [
    (some .key, .mk .propertyIdentifier ⟨80, 81⟩ none []),
    (some .value, .mk .memberExpression ⟨83, 100⟩ none [
      (some .object, .mk .identifier ⟨83, 89⟩ none []),
      (some .property, .mk .propertyIdentifier ⟨90, 100⟩ none [])])]

/-- A module with all four kinds of mentions of `x`. What is assigned to `A.defaultProps` has a text and a node. -/
def mentionProgram (text : String) (value : Node) : Place :=
  .root ⟨((mentionLines ++ [text, ";"]).flatMap String.toList).toArray⟩ (.mk .program ⟨0, value.stop + 1⟩ none [
    (none, .mk .exportStatement ⟨0, 63⟩ none [(some .declaration, mentionFunction)]),
    (none, validatorStatement 64 103 [mentionValidator]),
    (none, .mk .expressionStatement ⟨104, value.stop + 1⟩ none [
      (none, .mk .assignmentExpression ⟨104, value.stop⟩ none [
        (some .left, .mk .memberExpression ⟨104, 118⟩ none [
          (some .object, .mk .identifier ⟨104, 105⟩ none []),
          (some .property, .mk .propertyIdentifier ⟨106, 118⟩ none [])]),
        (some .right, value)])])])

def plainDefaults : Place :=
  mentionProgram "\x7b x: b \x7d" (.mk .object ⟨121, 129⟩ none [(none, pairNode 123 124 127)])

def commentedDefaults : Place :=
  mentionProgram "(/* c */ \x7b x: b \x7d)" (.mk .parenthesizedExpression ⟨121, 139⟩ none [
    (none, .mk .comment ⟨122, 129⟩ none []),
    (none, .mk .object ⟨130, 138⟩ none [(none, pairNode 132 133 136)])])

/-- The definition that a module exports. -/
def exportedDefinition (program : Place) : Definition :=
  (resolve program (Scope.ofProgram program)).toOption.getD default

end ReactCatalog
