import ReactCatalog.Proofs.LikeModules

/-!
# Documentation of components that read alike

In modules that read alike, corresponding components have the same documentation but for their descriptions
(`document_rel`). The description is the one part that depends on what is around the definition.
-/

namespace ReactCatalog

variable {M : Place → Place → Prop}

/-! ## Types -/

section

variable {p p' program program' : Place}

theorem Likeness.typeForm (hM : Likeness M) (h : M p p') : typeForm p = typeForm p' := by
  unfold ReactCatalog.typeForm
  rw [hM.kind h, hM.text h, hM.fieldText? h]

/-- A type in braces hands no comment on. -/
theorem passesDocs_of_body (h : typeForm p = .body) : Place.passesDocs p.kind = false := by
  unfold ReactCatalog.typeForm at h
  split at h <;> first | contradiction | simp [Place.passesDocs, *]

/-- The statements declare corresponding things, or nothing that is a type. -/
theorem StatementMatch.declarationIn? (h : StatementMatch M p p') (hM : Likeness M) :
    Option.Rel (fun d d' => M d d' ∨ isTypeDeclaration d = false ∧ isTypeDeclaration d' = false)
      (declarationIn? p) (declarationIn? p') := by
  have hvariables : ∀ {q q' : Place}, DeclarationMatch M q q' →
      isTypeDeclaration q = false ∧ isTypeDeclaration q' = false := by
    intro q q' hq
    unfold isTypeDeclaration
    rw [← hq.kind]
    rcases hq.ofVariables with hv | hv
    · simp [hv]
    · simp [hv]
  unfold ReactCatalog.declarationIn?
  rw [← h.kind hM]
  cases h with
  | alike h =>
    split
    · exact rel_imp (hM.field? h .declaration) fun _ _ hd => .inl hd
    · exact .some (.inl h)
  | exported hk _ _ hd _ _ _ =>
    rw [if_pos hk, if_pos hk]
    exact rel_imp hd fun _ _ hd => .inl hd
  | assigned ha ha' _ _ =>
    have hk := Place.kind_of_assignment? ha
    have hk' := Place.kind_of_assignment? ha'
    have hne : p.kind ≠ .exportStatement := by simp [hk]
    rw [if_neg hne, if_neg hne]
    exact .some (.inr (by simp [isTypeDeclaration, hk, hk']))
  | declared h =>
    have hne : p.kind ≠ .exportStatement := by rcases h.ofVariables with hv | hv <;> simp [hv]
    rw [if_neg hne, if_neg hne]
    exact .some (.inr (hvariables h))
  | exportedDeclaration hk _ _ hq hq' h =>
    rw [if_pos hk, if_pos hk, hq, hq']
    exact .some (.inr (hvariables h))

variable (hM : Likeness M) (h : List.Forall₂ (StatementMatch M) program.namedChildren program'.namedChildren)

include hM h

theorem typeDeclaration?_rel (name : String) :
    Option.Rel M (typeDeclaration? program name) (typeDeclaration? program' name) := by
  have hfound : Option.Rel (fun d d' => M d d' ∨ isTypeDeclaration d = false ∧ isTypeDeclaration d' = false)
      (typeDeclaration? program name) (typeDeclaration? program' name) := by
    refine find?_rel (filterMap_rel h fun _ _ hp => hp.declarationIn? hM) fun d d' hd => ?_
    rcases hd with hd | ⟨hn, hn'⟩
    · unfold isTypeDeclaration
      rw [hM.kind hd, hM.fieldText? hd]
    · rw [hn, hn', Bool.false_and, Bool.false_and]
  rcases rel_cases hfound with ⟨hx, hy⟩ | ⟨d, d', hx, hy, hd⟩
  · rw [hx, hy]
    exact .none
  · rw [hx, hy]
    refine .some (hd.resolve_right fun hn => ?_)
    -- what is found is a type declaration
    have hfound := List.find?_some hx
    simp [hn.1] at hfound

theorem typeMembersTo_eq_of_rel (levels : Nat) (hp : M p p') :
    typeMembersTo program levels p = typeMembersTo program' levels p' := by
  -- a name goes down two levels at once
  induction levels using Nat.strongRecOn generalizing p p' with
  | ind levels ih =>
    cases levels with
    | zero => rw [typeMembersTo, typeMembersTo]
    | succ levels =>
      rw [typeMembersTo_succ, typeMembersTo_succ, ← hM.typeForm hp]
      cases hf : typeForm p with
      | body => exact hM.typeMembers hp (passesDocs_of_body hf)
      | wrapper =>
        rcases rel_cases (head?_rel (hM.namedChildren hp)) with ⟨hx, hy⟩ | ⟨c, c', hx, hy, hc⟩
        · rw [hx, hy]
          rfl
        · rw [hx, hy]
          exact ih levels (Nat.lt_succ_self levels) hc
      | intersection =>
        exact flatMap_eq_of_rel (hM.namedChildren hp) fun _ _ hc => ih levels (Nat.lt_succ_self levels) hc
      | reference name =>
        dsimp only
        rw [ofName_eq, ofName_eq]
        rcases rel_cases (typeDeclaration?_rel hM h name) with ⟨hx, hy⟩ | ⟨d, d', hx, hy, hd⟩
        · rw [hx, hy]
          rfl
        · rw [hx, hy]
          exact flatMap_eq_of_rel (hM.declaredParts hd) fun _ _ hq => ih (levels - 1) (by omega) hq
      | other => rfl

end

/-! ## Static members -/

/-- The members have the same name, and values that read alike without their wrappers. -/
def MemberMatch (M : Place → Place → Prop) (m m' : String × Place) : Prop := m.1 = m'.1 ∧ SameBare M m.2 m'.2

theorem Place.kind_of_asObject? {p o : Place} (h : p.asObject? = some o) : o.kind = .object := by
  unfold Place.asObject? at h
  split at h
  · next hk =>
    cases h
    exact hk
  · cases h

namespace Likeness

variable {p p' : Place} (hM : Likeness M) (h : M p p')

include hM h

theorem classValue? : Option.Rel M (Statics.classValue? p) (Statics.classValue? p') := by
  unfold Statics.classValue?
  rw [hM.kind h, hM.hasSymbol h]
  split
  · exact hM.field? h .value
  · exact hM.field? h .value
  · split
    · exact hM.returnedObject? h
    · exact .none
  · exact .none

theorem classMember? : Option.Rel (MemberMatch M) (Statics.classMember? p) (Statics.classMember? p') := by
  unfold Statics.classMember?
  rw [hM.hasSymbol h, hM.classMemberName? h]
  split
  · cases p'.classMemberName? with
    | none => exact .none
    | some name => exact rel_map (hM.classValue? h) fun _ _ hv => ⟨rfl, hM.sameBare hv⟩
  · exact .none

theorem objectMember? : Option.Rel (MemberMatch M) (Statics.objectMember? p) (Statics.objectMember? p') := by
  have hdefaults : ∀ {q q' : Place}, M q q' → Option.Rel (MemberMatch M) (q.returnedObject?.map ("defaultProps", ·))
      (q'.returnedObject?.map ("defaultProps", ·)) :=
    fun hq => rel_map (hM.returnedObject? hq) fun _ _ ho => ⟨rfl, hM.sameBare ho⟩
  unfold Statics.objectMember?
  rw [bind_eq_of_rel (rel_or (hM.field? h .key) (hM.field? h .name)) fun _ _ hk => hM.propertyKey? hk, hM.kind h]
  cases ((p'.field? .key) <|> (p'.field? .name)).bind Place.propertyKey? with
  | none => exact .none
  | some name =>
    simp only [Option.bind_eq_bind, Option.bind_some]
    split
    · split
      · exact hdefaults h
      · exact .none
    · refine rel_bind (hM.field? h .value) fun v v' hv => ?_
      split
      · exact hdefaults (hM.bare hv)
      · exact .some ⟨rfl, hM.sameBare hv⟩
    · exact .none

/-- The object given to a class factory. -/
theorem factoryObject? : Option.Rel (fun o o' => M o o' ∧ o.kind = .object) (factoryObject? p) (factoryObject? p') := by
  unfold ReactCatalog.factoryObject?
  refine rel_bind (hM.field? h .arguments) fun a a' ha => rel_bind (head?_rel (hM.namedChildren ha)) fun v v' hv => ?_
  rcases rel_cases (hM.asObject? (hM.bare hv)) with ⟨hx, hy⟩ | ⟨o, o', hx, hy, ho⟩
  · rw [hx, hy]
    exact .none
  · rw [hx, hy]
    exact .some ⟨ho, Place.kind_of_asObject? hx⟩

end Likeness

theorem StatementMatch.assignedMember? {p p' : Place} (h : StatementMatch M p p') (hM : Likeness M)
    (names : List String) :
    Option.Rel (MemberMatch M) (Statics.assignedMember? names p) (Statics.assignedMember? names p') := by
  refine rel_bind (h.assignment? hM) fun a a' ha => ?_
  obtain ⟨left, right⟩ := a
  obtain ⟨left', right'⟩ := a'
  obtain ⟨hl, hr⟩ := ha
  dsimp only at hl hr ⊢
  refine rel_bind (hM.field? hl .object) fun o o' ho => ?_
  rw [hM.fieldText? hl, hM.kind hl, hM.kind ho, hM.text ho]
  cases left'.fieldText? .property with
  | none => exact .none
  | some name =>
    simp only [Option.bind_eq_bind, Option.bind_some]
    split
    · exact .some ⟨rfl, hr⟩
    · exact .none

/-- The static members correspond. -/
structure StaticsMatch (M : Place → Place → Prop) (s s' : Statics) : Prop where
  propTypes : List.Forall₂ (SameBare M) s.propTypes s'.propTypes
  defaultProps : List.Forall₂ (SameBare M) s.defaultProps s'.defaultProps
  displayName : s.displayName = s'.displayName

theorem StaticsMatch.record (hM : Likeness M) {s s' : Statics} {m m' : String × Place} (hs : StaticsMatch M s s')
    (h : MemberMatch M m m') : StaticsMatch M (s.record m.1 m.2) (s'.record m'.1 m'.2) := by
  obtain ⟨hname, hvalue⟩ := h
  unfold Statics.record
  rw [← hname, ← hM.stringValue? hvalue, ← hs.displayName]
  split
  · exact ⟨List.rel_append hs.propTypes (.cons hvalue .nil), hs.defaultProps, rfl⟩
  · exact ⟨hs.propTypes, List.rel_append hs.defaultProps (.cons hvalue .nil), rfl⟩
  · exact ⟨hs.propTypes, hs.defaultProps, rfl⟩
  · exact hs

section

variable {program program' : Place} {d d' : Definition} (hM : Likeness M)
  (h : List.Forall₂ (StatementMatch M) program.namedChildren program'.namedChildren) (hd : DefinitionMatch M d d')

include hM h hd

theorem staticMembers_rel : List.Forall₂ (MemberMatch M) (staticMembers program d) (staticMembers program' d') := by
  unfold staticMembers
  rw [← hd.kind, ← hd.names]
  refine List.rel_append ?_ (filterMap_rel h fun _ _ hp => hp.assignedMember? hM d.names)
  cases d.kind with
  | ofFunction => exact .nil
  | ofClass =>
    rcases rel_cases (hM.field? hd.place .body) with ⟨hx, hy⟩ | ⟨b, b', hx, hy, hb⟩
    · rw [hx, hy]
      exact .nil
    · rw [hx, hy]
      exact filterMap_rel (hM.namedChildren hb) fun _ _ hm => hM.classMember? hm
  | ofFactory =>
    rcases rel_cases (hM.factoryObject? hd.place) with ⟨hx, hy⟩ | ⟨o, o', hx, hy, ho, _⟩
    · rw [hx, hy]
      exact .nil
    · rw [hx, hy]
      exact filterMap_rel (hM.namedChildren ho) fun _ _ hm => hM.objectMember? hm

theorem staticsOf_rel : StaticsMatch M (staticsOf program d) (staticsOf program' d') := by
  rw [staticsOf_eq_foldl, staticsOf_eq_foldl]
  exact foldl_rel (staticMembers_rel hM h hd) ⟨.nil, .nil, rfl⟩ fun _ _ _ _ hs hm => hs.record hM hm

end

section

variable {d d' : Definition} (hM : Likeness M) (hd : DefinitionMatch M d d')

include hM hd

theorem methodsOf_eq_of_rel : methodsOf d = methodsOf d' := by
  have hclass := hd.ofClass
  unfold methodsOf
  rw [← hd.kind]
  cases hk : d.kind with
  | ofFunction => rfl
  | ofClass => exact hM.classMethods hd.place (hclass hk)
  | ofFactory =>
    rw [map_eq_of_rel (hM.factoryObject? hd.place) fun o o' ho => hM.objectMethods ho.1 (by rw [ho.2]; rfl)]

theorem identifier?_eq_of_rel : d.identifier? = d'.identifier? := by
  unfold Definition.identifier?
  rw [hM.fieldText? hd.place, hd.names]

omit hd in
theorem firstTypeArgument?_rel {p p' : Place} (h : M p p') :
    Option.Rel M (firstTypeArgument? p) (firstTypeArgument? p') :=
  rel_bind (hM.field? h .typeArguments) fun _ _ ha => head?_rel (hM.namedChildren ha)

omit hd in
theorem DeclaratorMatch.declaredPropsType? {p p' : Place} (h : DeclaratorMatch M p p') :
    Option.Rel M (declaredPropsType? p) (declaredPropsType? p') := by
  unfold ReactCatalog.declaredPropsType?
  refine rel_bind h.type fun n n' hn => rel_bind (head?_rel (hM.namedChildren hn)) fun t t' ht => ?_
  rw [hM.kind ht, hM.fieldText? ht]
  split
  · exact .none
  cases t'.fieldText? .name with
  | none => exact .none
  | some name =>
    simp only [Option.bind_eq_bind, Option.bind_some]
    split
    · exact firstTypeArgument?_rel hM ht
    · exact .none

theorem propsType?_rel : Option.Rel M (propsType? d) (propsType? d') := by
  unfold propsType?
  rw [← hd.kind]
  cases d.kind with
  | ofFunction =>
    refine rel_or ?_ (rel_bind hd.declarator fun _ _ h => h.declaredPropsType? hM)
    exact rel_bind (rel_filter (hM.firstParameter? hd.place) fun _ _ hp => hM.isTypedParameter hp)
      fun _ _ hp => hM.field? hp .type
  | ofClass =>
    refine rel_bind (find?_rel (hM.children hd.place) fun _ _ hc => by rw [hM.kind hc]) fun c c' hc => ?_
    refine rel_bind (find?_rel (hM.preorder hc) fun _ _ ha => by rw [hM.kind ha]) fun a a' ha => ?_
    exact head?_rel (hM.namedChildren ha)
  | ofFactory => exact .none

end

/-! ## Validators -/

/-- The documentation with another description. -/
def ComponentDoc.describe (text : String) (doc : ComponentDoc) : ComponentDoc := { doc with description := text }

namespace ComponentDoc

variable (text : String) (doc : ComponentDoc)

theorem addSource_describe (specifier : String) :
    (doc.describe text).addSource specifier = (doc.addSource specifier).describe text := by
  unfold addSource
  show (if doc.composes.contains specifier then _ else _) = _
  split <;> rfl

theorem applyTypeMember_describe (m : TypeMember) :
    applyTypeMember (doc.describe text) m = (applyTypeMember doc m).describe text := rfl

theorem applyDefaults_describe (ds : List (String × DefaultValue)) :
    applyDefaults (doc.describe text) ds = (applyDefaults doc ds).describe text := by
  induction ds generalizing doc with
  | nil => rfl
  | cons m rest ih => exact ih (setDefault doc m.1 m.2)

variable {text doc} in
/-- What each step over related lists does, all steps do. -/
theorem foldl_describe {α β : Type} {R : α → β → Prop} {f : ComponentDoc → α → ComponentDoc}
    {f' : ComponentDoc → β → ComponentDoc} {l : List α} {l' : List β} {doc' : ComponentDoc}
    (hdoc : doc' = doc.describe text) (h : List.Forall₂ R l l')
    (hf : ∀ a b, R a b → ∀ doc : ComponentDoc, f' (doc.describe text) b = (f doc a).describe text) :
    l'.foldl f' doc' = (l.foldl f doc).describe text := by
  refine foldl_rel (S := fun x y : ComponentDoc => y = x.describe text) h hdoc ?_
  rintro doc _ a b rfl hab
  exact hf a b hab doc

end ComponentDoc

section

variable {s s' : Scope} (hM : Likeness M) (hs : ScopeMatch M s s') (text : String)

include hM hs

omit hM in
theorem addImported_describe (doc : ComponentDoc) (name : String) :
    applyValidators.addImported s' (doc.describe text) name =
      (applyValidators.addImported s doc name).describe text := by
  unfold applyValidators.addImported Scope.importOf?
  rw [hs.imports]
  cases Dictionary.find? s'.imports name with
  | none => rfl
  | some specifier => exact doc.addSource_describe text specifier

omit hs in
/-- A member that names a property says the same of it. -/
theorem namedValidator_describe (spreads : Nat) {p p' : Place} (h : Likeness.Documented M p p')
    (hk : p.kind ≠ .spreadElement) (doc : ComponentDoc) :
    applyValidators.member s' spreads (doc.describe text) p' =
      (applyValidators.member s spreads doc p).describe text := by
  obtain ⟨h, hdoc⟩ := h
  rw [applyValidators.member.eq_def, applyValidators.member.eq_def]
  dsimp only
  rw [← hM.kind h]
  split
  · rw [← bind_eq_of_rel (hM.field? h .key) fun _ _ hc => hM.propertyKey? hc]
    rcases rel_cases (hM.field? h .value) with ⟨hx, hy⟩ | ⟨v, v', hx, hy, hv⟩
    · rw [hx, hy]
      cases (p.field? .key).bind Place.propertyKey? <;> rfl
    · rw [hx, hy]
      cases (p.field? .key).bind Place.propertyKey? with
      | none => rfl
      | some name =>
        dsimp only
        rw [(hM.validators hv).1, hdoc]
        rfl
  · rw [hM.text h, hM.customType h]
    rfl
  · next hspread => exact absurd hspread hk
  · rfl

/-- A member says the same of a property, or spreads the same. -/
theorem validator_describe (spreads : Nat) {p p' : Place} (h : Likeness.Documented M p p') (doc : ComponentDoc) :
    applyValidators.member s' spreads (doc.describe text) p' =
      (applyValidators.member s spreads doc p).describe text := by
  induction spreads generalizing p p' doc with
  | zero =>
    by_cases hk : p.kind = .spreadElement
    · rw [applyValidators.member.eq_def, applyValidators.member.eq_def]
      simp only [hk, hM.kind h.1 ▸ hk]
    · exact namedValidator_describe hM text 0 h hk doc
  | succ spreads ih =>
    by_cases hk : p.kind = .spreadElement
    · have hhead : Option.Rel M (p.namedChildren.head?.map Place.bare) (p'.namedChildren.head?.map Place.bare) :=
        rel_map (head?_rel (hM.namedChildren h.1)) fun _ _ hv => hM.bare hv
      rw [applyValidators.member.eq_def, applyValidators.member.eq_def]
      simp only [hk, hM.kind h.1 ▸ hk]
      rcases rel_cases hhead with ⟨hx, hy⟩ | ⟨v, v', hx, hy, hv⟩
      · rw [hx, hy]
      rw [hx, hy]
      dsimp only
      rw [← hM.kind hv, ← hM.text hv]
      split
      · rcases rel_cases (hM.field? hv .object) with ⟨hx, hy⟩ | ⟨o, o', hx, hy, ho⟩
        · rw [hx, hy]
        · rw [hx, hy]
          dsimp only
          rw [← hM.kind ho, ← hM.text ho, addImported_describe hs]
          split <;> rfl
      · rcases rel_cases (hs.object? hM (hM.sameBare hv)) with ⟨hx, hy⟩ | ⟨o, o', hx, hy, ho, hobject⟩
        · rw [hx, hy]
          exact addImported_describe hs text doc v.text
        · rw [hx, hy]
          refine ComponentDoc.foldl_describe rfl (hM.documentedNamed ho fun hpass => ?_) fun _ _ hm => ih hm
          simp [hobject, Place.passesDocs] at hpass
      · rfl
    · exact namedValidator_describe hM text (spreads + 1) h hk doc

theorem applyValidators_describe {o o' : Place} (h : M o o') (hk : o.kind = .object) (doc : ComponentDoc) :
    applyValidators s' spreadLimit o' (doc.describe text) = (applyValidators s spreadLimit o doc).describe text := by
  unfold applyValidators
  refine ComponentDoc.foldl_describe rfl (hM.documentedNamed h fun hpass => ?_) fun _ _ hm =>
    validator_describe hM hs text spreadLimit hm
  simp [hk, Place.passesDocs] at hpass

end

/-! ## The whole -/

/-- Corresponding components have the same documentation but for their descriptions. -/
theorem document_rel {program program' : Place} {d d' : Definition} (hM : Likeness M)
    (h : List.Forall₂ (StatementMatch M) program.namedChildren program'.namedChildren) (hd : DefinitionMatch M d d') :
    document program' (Scope.ofProgram program') d' =
      (document program (Scope.ofProgram program) d).describe (d'.place.docblock?.getD "") := by
  have hs := ScopeMatch.ofProgram hM h
  have hstatics := staticsOf_rel hM h hd
  have htypes : (propsType? d).map (typeMembers program) = (propsType? d').map (typeMembers program') :=
    map_eq_of_rel (propsType?_rel hM hd) fun _ _ hp => typeMembersTo_eq_of_rel hM h typeLevels hp
  have hobjects : ∀ {l l' : List Place}, List.Forall₂ (SameBare M) l l' →
      List.Forall₂ (fun o o' => M o o' ∧ o.kind = .object) (l.filterMap (Scope.ofProgram program).object?)
        (l'.filterMap (Scope.ofProgram program').object?) :=
    fun hl => filterMap_rel hl fun _ _ hv => hs.object? hM hv
  unfold document
  refine ComponentDoc.foldl_describe ?_ (hobjects hstatics.defaultProps) fun o o' ho doc => ?_
  · have hdefaults : ∀ {doc doc' : ComponentDoc}, doc' = doc.describe (d'.place.docblock?.getD "") →
        (if d'.kind = .ofFunction then applyDefaults doc' (parameterDefaults d'.place) else doc') =
          (if d.kind = .ofFunction then applyDefaults doc (parameterDefaults d.place) else doc).describe
            (d'.place.docblock?.getD "") := by
      rintro doc _ rfl
      rw [hd.kind, hM.parameterDefaults hd.place, doc.applyDefaults_describe]
      split <;> rfl
    refine hdefaults ?_
    rw [← htypes]
    refine ComponentDoc.foldl_describe (R := Eq) ?_ (List.forall₂_refl _) fun m m' hm doc => ?_
    · refine ComponentDoc.foldl_describe ?_ (hobjects hstatics.propTypes) fun o o' ho =>
        applyValidators_describe hM hs _ ho.1 ho.2
      rw [hstatics.displayName, methodsOf_eq_of_rel hM hd, identifier?_eq_of_rel hM hd]
      rfl
    · rw [hm, doc.applyTypeMember_describe]
  · rw [hM.objectDefaults ho.1, doc.applyDefaults_describe]

theorem Node.ReadsLike.refl (s : Source) (n : Node) : Node.ReadsLike s s n n := by
  induction hn : sizeOf n using Nat.strongRecOn generalizing n with
  | ind k ih =>
    subst hn
    refine .intro rfl rfl rfl (fun _ => rfl) fun i c c' hc hc' => ?_
    rw [hc, Option.some.injEq] at hc'
    rw [← hc']
    exact ih _ (Node.sizeOf_lt_of_mem_children (List.mem_of_getElem? hc)) c rfl

theorem likeness_eq : Likeness (· = ·) where
  reads h := h ▸ .refl _ _
  down := by
    rintro p _ rfl i c c' hc hc'
    rw [hc, Option.some.injEq] at hc'
    rw [hc']

theorem rel_self {R : Place → Place → Prop} (h : ∀ p, R p p) (x : Option Place) : Option.Rel R x x := by
  cases x with
  | none => exact .none
  | some p => exact .some (h p)

/-- If the comments are the same as well, the documentation is. -/
theorem document_eq_of_rel {program program' : Place} {d d' : Definition} (hM : Likeness M)
    (h : List.Forall₂ (StatementMatch M) program.namedChildren program'.namedChildren) (hd : DefinitionMatch M d d')
    (hdocs : d'.place.docblock? = d.place.docblock?) :
    document program' (Scope.ofProgram program') d' = document program (Scope.ofProgram program) d := by
  -- a module is like itself, so its own description is the comment of its definition
  have hself : DefinitionMatch (· = ·) d d :=
    ⟨rfl, rfl, rfl, rel_self (fun _ => likeness_eq.declarator rfl) d.declarator, hd.ofClass⟩
  rw [document_rel hM h hd, hdocs]
  exact (document_rel likeness_eq (List.forall₂_same.2 fun _ _ => .alike rfl) hself).symm

end ReactCatalog
