import ReactCatalog.Proofs.Likeness

/-!
# Members of places that read alike

The methods of a class or an object, the types that validators and annotations name, and default values are the same
for places that read alike.
-/

namespace ReactCatalog

namespace Likeness

variable {M : Place → Place → Prop} {p p' : Place}

section

variable (hM : Likeness M) (h : M p p')

include hM h

/-! ## Methods -/

theorem classMemberName? : p.classMemberName? = p'.classMemberName? :=
  bind_eq_of_rel (rel_or (hM.field? h .name) (hM.field? h .property)) fun _ _ hk => hM.propertyKey? hk

theorem objectMemberName? : p.objectMemberName? = p'.objectMemberName? :=
  bind_eq_of_rel (rel_or (hM.field? h .name) (hM.field? h .key)) fun _ _ hk => hM.propertyKey? hk

theorem parameterDoc? : parameterDoc? p = parameterDoc? p' := by
  unfold ReactCatalog.parameterDoc?
  rw [hM.kind h, hM.text h, hM.fieldText? h, hM.fieldText? h, isSome_eq_of_rel (hM.field? h .value)]

theorem parameterDocs : parameterDocs p = parameterDocs p' := by
  unfold ReactCatalog.parameterDocs
  rcases rel_cases (hM.field? h .parameter) with ⟨hx, hy⟩ | ⟨q, q', hx, hy, hq⟩
  · rw [hx, hy]
    rcases rel_cases (hM.field? h .parameters) with ⟨hx, hy⟩ | ⟨q, q', hx, hy, hq⟩
    · rw [hx, hy]
    · rw [hx, hy]
      exact filterMap_eq_of_rel (hM.namedChildren hq) fun _ _ hc => hM.parameterDoc? hc
  · rw [hx, hy]
    dsimp only
    rw [hM.text hq]

theorem memberFunction? (fields : List Kind) : Option.Rel M (memberFunction? fields p) (memberFunction? fields p') := by
  have hvalue : Option.Rel M (((p.field? .value).map Place.bare).filter Place.isFunctionLiteral)
      (((p'.field? .value).map Place.bare).filter Place.isFunctionLiteral) :=
    rel_filter (rel_map (hM.field? h .value) fun _ _ hv => hM.bare hv) fun _ _ hf => hM.isFunctionLiteral hf
  unfold ReactCatalog.memberFunction?
  rw [hM.kind h]
  split
  · exact .some h
  · split
    · exact hvalue
    · exact .none

theorem modifiersOf {f f' : Place} (hf : M f f') : modifiersOf p f = modifiersOf p' f' := by
  unfold ReactCatalog.modifiersOf
  simp only [hM.hasSymbol h, hM.hasSymbol hf]

theorem publicMethod? (hd : p.docblock? = p'.docblock?) (fields : List Kind) {name? : Place → Option String}
    (hn : name? p = name? p') : publicMethod? fields name? p = publicMethod? fields name? p' := by
  unfold ReactCatalog.publicMethod?
  rw [hn]
  refine congrArg _ (funext fun name => ?_)
  refine bind_eq_of_rel (hM.memberFunction? h fields) fun f f' hf => ?_
  rw [methodDoc, methodDoc, hd, hM.modifiersOf h hf, hM.parameterDocs hf]

theorem classMethods (hp : Place.passesDocs p.kind = false) : classMethods p = classMethods p' := by
  unfold ReactCatalog.classMethods
  have hbody := hM.documentedField h (fun hpass => by simp [hp] at hpass) .body
  rcases rel_cases hbody with ⟨hx, hy⟩ | ⟨b, b', hx, hy, hb⟩
  · rw [hx, hy]
  · rw [hx, hy]
    exact filterMap_eq_of_rel (hM.documentedNamed hb.1 fun _ => hb.2) fun _ _ hm =>
      hM.publicMethod? hm.1 hm.2 classFields (hM.classMemberName? hm.1)

theorem objectMethods (hp : Place.passesDocs p.kind = false) : objectMethods p = objectMethods p' :=
  filterMap_eq_of_rel (hM.documentedNamed h fun hpass => by simp [hp] at hpass) fun _ _ hm =>
    hM.publicMethod? hm.1 hm.2 objectFields (hM.objectMemberName? hm.1)

/-! ## Validators -/

theorem withoutRequired? : Option.Rel M (withoutRequired? p) (withoutRequired? p') := by
  unfold ReactCatalog.withoutRequired?
  rw [hM.kind h, hM.fieldText? h]
  split
  · exact hM.field? h .object
  · exact .none

theorem firstArgument? : Option.Rel M (firstArgument? p) (firstArgument? p') :=
  rel_map (rel_bind (hM.field? h .arguments) fun _ _ ha => head?_rel (hM.namedChildren ha)) fun _ _ hv => hM.bare hv

theorem customType : customType p = customType p' := by
  rw [ReactCatalog.customType, ReactCatalog.customType, hM.text h]

theorem withoutComments : List.Forall₂ M (withoutComments p.namedChildren) (withoutComments p'.namedChildren) :=
  filter_rel (hM.namedChildren h) fun _ _ hc => by rw [hM.kind hc]

theorem enumMember : enumMember p = enumMember p' := by
  rw [ReactCatalog.enumMember, ReactCatalog.enumMember, hM.text h, hM.isLiteral h]

theorem keyed? : Option.Rel (fun x y => x.1 = y.1 ∧ M x.2 y.2) (keyed? p) (keyed? p') := by
  unfold ReactCatalog.keyed?
  rw [hM.kind h]
  split
  · refine rel_bind (hM.field? h .key) fun k k' hk => ?_
    rw [hM.propertyKey? hk]
    cases k'.propertyKey? with
    | none => exact .none
    | some key =>
      show Option.Rel _ ((p.field? .value).bind fun v => some (key, v)) ((p'.field? .value).bind fun v => some (key, v))
      refine rel_bind (hM.field? h .value) fun v v' hv => ?_
      exact .some ⟨rfl, hv⟩
  · exact .none

end

end Likeness

/-- What is described of the first argument of a validator. -/
structure ArgumentDoc where
  kind : Kind
  text : String
  members : List Json
  alternatives : List Json
  item : Json
  /-- The members of an object. -/
  shape : Option Json

def argumentDoc (a : Place) : ArgumentDoc where
  kind := a.kind
  text := a.text
  members := (withoutComments a.namedChildren).map enumMember
  alternatives := (withoutComments a.namedChildren).map fun c => (validatorType c).toValue
  item := itemType a
  shape := if a.kind = .object then some (shapeType a) else none

/-- The type that a call names, from what is described of its argument. -/
def callType (custom : TypeDoc) (raw : String) (name : Option String) (a : ArgumentDoc) : TypeDoc :=
  if name = some "oneOf" then
    if a.kind = .array then (TypeDoc.named "enum").withValue (.array a.members)
    else ((TypeDoc.named "enum").withValue (.string a.text)).withRaw raw
  else if name = some "oneOfType" then
    if a.kind = .array then (TypeDoc.named "union").withValue (.array a.alternatives) else custom
  else if name = some "arrayOf" then (TypeDoc.named "arrayOf").withValue a.item
  else if name = some "objectOf" then (TypeDoc.named "objectOf").withValue a.item
  else if name = some "shape" then (a.shape.map (TypeDoc.named "shape").withValue).getD custom
  else if name = some "exact" then (a.shape.map (TypeDoc.named "exact").withValue).getD custom
  else if name = some "instanceOf" then (TypeDoc.named "instanceOf").withValue (.string a.text)
  else custom

theorem alternatives_eq (a : Place) :
    (a.namedChildren.attach.filterMap fun ⟨c, _⟩ =>
      if c.kind = .comment then none else some (validatorType c).toValue) = (argumentDoc a).alternatives := by
  have hfilter : ∀ ps : List Place, (ps.filterMap fun c =>
      if c.kind = .comment then none else some (validatorType c).toValue) =
        (withoutComments ps).map fun c => (validatorType c).toValue := by
    intro ps
    induction ps with
    | nil => rfl
    | cons c rest ih =>
      by_cases hc : c.kind = .comment
      · simpa [withoutComments, hc] using ih
      · simpa [withoutComments, hc] using ih
  rw [argumentDoc, ← hfilter]
  simp

theorem validatorType_of_call {p : Place} (hk : p.bare.kind = .callExpression) :
    validatorType p = ((firstArgument? p.bare).map fun a =>
      callType (customType p.bare) p.bare.text ((p.bare.field? .function).bind Place.calledName?) (argumentDoc a)).getD
        (customType p.bare) := by
  rw [validatorType]
  dsimp only
  simp only [hk]
  split
  · next a hname ha =>
    rw [ha, hname]
    rfl
  · next a hname ha =>
    rw [ha, hname, alternatives_eq]
    rfl
  · next a hname ha =>
    rw [ha, hname]
    rfl
  · next a hname ha =>
    rw [ha, hname]
    rfl
  · next a hname ha =>
    rw [ha, hname]
    simp only [Option.map_some, Option.getD_some]
    by_cases hobject : a.kind = .object
    · simp [callType, argumentDoc, hobject]
    · simp [callType, argumentDoc, hobject]
  · next a hname ha =>
    rw [ha, hname]
    by_cases hobject : a.kind = .object
    · simp [callType, argumentDoc, hobject]
    · simp [callType, argumentDoc, hobject]
  · next a hname ha =>
    rw [ha, hname]
    rfl
  · cases ha : firstArgument? p.bare with
    | none => rfl
    | some a => simp_all [callType]

theorem validatorType_of_not_call {p : Place} (hk : p.bare.kind ≠ .callExpression) :
    validatorType p =
      if p.bare.kind = .identifier ∨ p.bare.kind = .memberExpression then
        (p.bare.calledName?.filter primitiveValidators.contains).elim (customType p.bare) .named
      else customType p.bare := by
  rw [validatorType]
  dsimp only
  split
  case h_1 hn | h_2 hn =>
    rw [if_pos (by simp [hn])]
    cases p.bare.calledName? with
    | none => rfl
    | some n =>
      rw [Option.filter_some]
      dsimp only
      split <;> rfl
  case h_3 hc => exact absurd hc hk
  case h_4 hi hm _ => exact (if_neg fun hor => hor.elim hi hm).symm

theorem propType_eq (p : Place) :
    propType p = ((withoutRequired? p.bare).map fun q => (validatorType q, true)).getD (validatorType p, false) := by
  rw [propType]
  split
  · next q hq => rw [hq]; rfl
  · next hq => rw [hq]; rfl

theorem annotatedType_eq (p : Place) :
    annotatedType p =
      match p.kind with
      | .typeNote | .parenthesizedType => (p.namedChildren.head?.map annotatedType).getD (.named p.text)
      | .literalType => (TypeDoc.named "literal").withValue (.string p.text)
      | .unionType => ((TypeDoc.named "union").withRaw p.text).withElements (alternatives p)
      | .arrayType =>
        ((TypeDoc.named "Array").withRaw p.text).withElements (p.namedChildren.head?.map annotatedType).toList
      | .genericType =>
        ((TypeDoc.named ((p.fieldText? .name).getD p.text)).withRaw p.text).withElements
          (((p.field? .typeArguments).map fun a => a.namedChildren.map annotatedType).getD [])
      | .functionType => signatureType "function" p.text
      | .objectType => signatureType "object" p.text
      | _ => .named p.text := by
  rw [annotatedType]
  generalize p.kind = k
  split
  · split <;> simp [*]
  · split <;> simp [*]
  · rfl
  · rfl
  · split <;> simp [*]
  · split <;> simp [*]
  · rfl
  · rfl
  · simp

theorem alternatives_flatMap (p : Place) :
    alternatives p = p.namedChildren.flatMap fun c =>
      if c.kind = .unionType then alternatives c else [annotatedType c] := by
  rw [alternatives]
  simp

/-- What an object of validators says of one member. -/
def shapeMember? (c : Place) : Option (String × Json) :=
  (keyed? c).map fun m =>
    let entry := (propType m.2).1.toValue.setMember "required" (.bool (propType m.2).2)
    (m.1, (c.docblock?.map fun d => entry.setMember "description" (.string d)).getD entry)

theorem shapeType_eq (p : Place) :
    shapeType p = .object (Dictionary.ofList (p.namedChildren.filterMap shapeMember?)) := by
  rw [shapeType]
  congr 2
  rw [List.filterMap_congr (g := fun c => shapeMember? c.1)]
  · simp
  · rintro ⟨c, hc⟩ _
    dsimp only
    unfold shapeMember?
    split
    · next hk => simp [hk]
    · next key value hk =>
      rw [hk]
      cases c.docblock? <;> rfl

namespace Likeness

variable {M : Place → Place → Prop} {p p' : Place}

/-- Validators that read alike name the same types. -/
theorem validators (hM : Likeness M) (h : M p p') :
    propType p = propType p' ∧ validatorType p = validatorType p' ∧ itemType p = itemType p' ∧
      (p.kind = .object → shapeType p = shapeType p') := by
  -- the four functions call one another on smaller parts, so they are compared together
  induction hn : sizeOf p.node using Nat.strongRecOn generalizing p p' with
  | ind n ih =>
    subst hn
    have hb := hM.bare h
    have hsize := Place.sizeOf_bare_le p
    have hargument : ∀ a a', sizeOf a.node < sizeOf p.node → M a a' → argumentDoc a = argumentDoc a' := by
      intro a a' ha hrel
      obtain ⟨_, _, hitem, hshape⟩ := ih _ ha hrel rfl
      have hmembers := map_eq_of_rel_list (hM.withoutComments hrel) fun _ _ hc => hM.enumMember hc
      have halternatives : (argumentDoc a).alternatives = (argumentDoc a').alternatives := by
        refine map_eq_of_rel_list (rel_mem (hM.withoutComments hrel)) fun c c' hc => ?_
        have hlt := Place.sizeOf_node_lt_of_mem_namedChildren (List.mem_of_mem_filter hc.1)
        rw [(ih _ (by omega) hc.2 rfl).2.1]
      simp only [argumentDoc, ArgumentDoc.mk.injEq]
      refine ⟨hM.kind hrel, hM.text hrel, hmembers, halternatives, hitem, ?_⟩
      rw [← hM.kind hrel]
      split
      · next hobject => rw [hshape hobject]
      · rfl
    have hvalidator : validatorType p = validatorType p' := by
      by_cases hk : p.bare.kind = .callExpression
      · rw [validatorType_of_call hk, validatorType_of_call (hM.kind hb ▸ hk), hM.customType hb, hM.text hb,
          bind_eq_of_rel (hM.field? hb .function) fun _ _ hf => hM.calledName? hf]
        rcases rel_cases (hM.firstArgument? hb) with ⟨hx, hy⟩ | ⟨a, a', hx, hy, ha⟩
        · rw [hx, hy]
        · have hlt := sizeOf_node_lt_of_firstArgument? hx
          rw [hx, hy, Option.map_some, Option.map_some, hargument a a' (by omega) ha]
      · rw [validatorType_of_not_call hk, validatorType_of_not_call (hM.kind hb ▸ hk), hM.kind hb, hM.calledName? hb,
          hM.customType hb]
    have hprop : propType p = propType p' := by
      rw [propType_eq, propType_eq, hvalidator]
      rcases rel_cases (hM.withoutRequired? hb) with ⟨hx, hy⟩ | ⟨q, q', hx, hy, hq⟩
      · rw [hx, hy]
      · have hlt := sizeOf_node_lt_of_withoutRequired? hx
        rw [hx, hy, Option.map_some, Option.map_some, (ih _ (by omega) hq rfl).2.1]
    refine ⟨hprop, hvalidator, by rw [itemType, itemType, hprop], ?_⟩
    intro hobject
    have hmembers := hM.documentedNamed h (fun hpass => by simp [hobject, Place.passesDocs] at hpass)
    rw [shapeType_eq, shapeType_eq, filterMap_eq_of_rel (rel_mem hmembers) fun c c' hc => ?_]
    have hlt := Place.sizeOf_node_lt_of_mem_namedChildren hc.1
    unfold shapeMember?
    rcases rel_cases (hM.keyed? hc.2.1) with ⟨hx, hy⟩ | ⟨m, m', hx, hy, hkey, hvalue⟩
    · rw [hx, hy]
      rfl
    · have hm := sizeOf_node_lt_of_keyed? hx
      rw [hx, hy, Option.map_some, Option.map_some, hkey, (ih _ (by omega) hvalue rfl).1, hc.2.2]

/-! ## Annotations -/

/-- Types that read alike are described alike, and so are their alternatives. -/
theorem annotations (hM : Likeness M) (h : M p p') :
    annotatedType p = annotatedType p' ∧ alternatives p = alternatives p' := by
  induction hn : sizeOf p.node using Nat.strongRecOn generalizing p p' with
  | ind n ih =>
    subst hn
    have halternatives : alternatives p = alternatives p' := by
      rw [alternatives_flatMap, alternatives_flatMap]
      refine flatMap_eq_of_rel (rel_mem (hM.namedChildren h)) fun c c' hc => ?_
      obtain ⟨htype, hmore⟩ := ih _ (Place.sizeOf_node_lt_of_mem_namedChildren hc.1) hc.2 rfl
      rw [hM.kind hc.2, htype, hmore]
    have hinner : p.namedChildren.head?.map annotatedType = p'.namedChildren.head?.map annotatedType := by
      rcases rel_cases (head?_rel (rel_mem (hM.namedChildren h))) with ⟨hx, hy⟩ | ⟨c, c', hx, hy, hc⟩
      · rw [hx, hy]
      · rw [hx, hy, Option.map_some, Option.map_some,
          (ih _ (Place.sizeOf_node_lt_of_mem_namedChildren hc.1) hc.2 rfl).1]
    have harguments : ((p.field? .typeArguments).map fun a => a.namedChildren.map annotatedType) =
        (p'.field? .typeArguments).map fun a => a.namedChildren.map annotatedType := by
      rcases rel_cases (hM.field? h .typeArguments) with ⟨hx, hy⟩ | ⟨a, a', hx, hy, ha⟩
      · rw [hx, hy]
      · have hlt := Place.sizeOf_node_lt_of_field? hx
        rw [hx, hy, Option.map_some, Option.map_some, map_eq_of_rel_list (rel_mem (hM.namedChildren ha))]
        intro c c' hc
        have hc' := Place.sizeOf_node_lt_of_mem_namedChildren hc.1
        exact (ih _ (by omega) hc.2 rfl).1
    refine ⟨?_, halternatives⟩
    rw [annotatedType_eq, annotatedType_eq, hM.kind h, hM.text h, hM.fieldText? h, hinner, harguments, halternatives]

section

variable (hM : Likeness M) (h : M p p')

include hM h

/-- The member that a signature declares. -/
theorem typeMember? (hd : p.docblock? = p'.docblock?) : typeMember? p = typeMember? p' := by
  have htype : (p.field? .type).map annotatedType = (p'.field? .type).map annotatedType :=
    map_eq_of_rel (hM.field? h .type) fun _ _ ht => (hM.annotations ht).1
  unfold ReactCatalog.typeMember?
  rw [hM.kind h, htype, hM.text h, hd, hM.hasSymbol h]
  split
  · exact bind_eq_of_rel (hM.field? h .name) fun _ _ hk => by rw [hM.propertyKey? hk]
  · exact bind_eq_of_rel (hM.field? h .name) fun _ _ hk => by rw [hM.propertyKey? hk]
  · rfl

/-- The members of a type in braces. -/
theorem typeMembers (hp : Place.passesDocs p.kind = false) :
    p.namedChildren.filterMap ReactCatalog.typeMember? = p'.namedChildren.filterMap ReactCatalog.typeMember? :=
  filterMap_eq_of_rel (hM.documentedNamed h fun hpass => by simp [hp] at hpass) fun _ _ hm => hM.typeMember? hm.1 hm.2

theorem declaredParts : List.Forall₂ M (declaredParts p) (declaredParts p') := by
  unfold ReactCatalog.declaredParts
  rw [hM.kind h]
  split
  · refine List.rel_append (flatMap_rel (filter_rel (hM.children h) fun _ _ hc => by rw [hM.kind hc]) ?_) ?_
    · exact fun _ _ hc => hM.namedChildren hc
    · exact toList_rel (hM.field? h .body)
  · exact toList_rel (hM.field? h .value)
  · exact .nil

theorem preorder : List.Forall₂ M p.preorder p'.preorder := by
  induction hn : sizeOf p.node using Nat.strongRecOn generalizing p p' with
  | ind n ih =>
    subst hn
    rw [Place.preorder_eq, Place.preorder_eq]
    refine .cons h (flatMap_rel (rel_mem (hM.children h)) fun c c' hc => ?_)
    exact ih _ (Place.sizeOf_node_lt_of_mem_children hc.1) hc.2 rfl

/-! ## Default values -/

theorem firstParameter? : Option.Rel M (firstParameter? p) (firstParameter? p') :=
  rel_or (hM.field? h .parameter) (rel_bind (hM.field? h .parameters) fun _ _ hps =>
    find?_rel (hM.namedChildren hps) fun _ _ hc => by rw [hM.kind hc])

theorem isTypedParameter : isTypedParameter p = isTypedParameter p' := by
  rw [ReactCatalog.isTypedParameter, ReactCatalog.isTypedParameter, hM.kind h]

theorem defaultOf : defaultOf p = defaultOf p' := by
  rw [ReactCatalog.defaultOf, ReactCatalog.defaultOf, hM.text h, hM.isLiteral h]

theorem parameterPattern? : Option.Rel M (parameterPattern? p) (parameterPattern? p') := by
  have hleft : ∀ q q', M q q' → Option.Rel M (if q.kind = .assignmentPattern then q.field? .left else some q)
      (if q'.kind = .assignmentPattern then q'.field? .left else some q') := by
    intro q q' hq
    rw [hM.kind hq]
    split
    · exact hM.field? hq .left
    · exact .some hq
  unfold ReactCatalog.parameterPattern?
  rw [hM.isTypedParameter h]
  split
  · exact rel_bind (hM.field? h .pattern) hleft
  · exact hleft p p' h

theorem patternDefault? : patternDefault? p = patternDefault? p' := by
  unfold ReactCatalog.patternDefault?
  rw [hM.kind h, hM.fieldText? h]
  split
  · refine congrArg _ (funext fun name => ?_)
    exact bind_eq_of_rel (hM.field? h .right) fun _ _ hv => by rw [hM.defaultOf hv]
  · refine bind_eq_of_rel (hM.field? h .key) fun k k' hk => bind_eq_of_rel (hM.field? h .value) fun v v' hv => ?_
    rw [hM.kind hv, hM.propertyKey? hk]
    split
    · refine congrArg _ (funext fun key => ?_)
      exact bind_eq_of_rel (hM.field? hv .right) fun _ _ hr => by rw [hM.defaultOf hr]
    · rfl
  · rfl

theorem parameterDefaults : parameterDefaults p = parameterDefaults p' := by
  unfold ReactCatalog.parameterDefaults
  rcases rel_cases (rel_bind (hM.firstParameter? h) fun _ _ hq => hM.parameterPattern? hq) with
    ⟨hx, hy⟩ | ⟨q, q', hx, hy, hq⟩
  · rw [hx, hy]
  · rw [hx, hy]
    dsimp only
    rw [hM.kind hq, filterMap_eq_of_rel (hM.namedChildren hq) fun _ _ hc => hM.patternDefault? hc]

theorem memberDefault? : memberDefault? p = memberDefault? p' := by
  unfold ReactCatalog.memberDefault?
  rw [hM.kind h, hM.text h]
  split
  · refine bind_eq_of_rel (hM.field? h .key) fun k k' hk => bind_eq_of_rel (hM.field? h .value) fun v v' hv => ?_
    rw [hM.propertyKey? hk, hM.defaultOf hv]
  · rfl
  · rfl

theorem objectDefaults : objectDefaults p = objectDefaults p' :=
  filterMap_eq_of_rel (hM.namedChildren h) fun _ _ hm => hM.memberDefault? hm

end

end Likeness

end ReactCatalog
