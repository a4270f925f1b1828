import ReactCatalog.Proofs.Properties
import ReactCatalog.Proofs.TypeExpansion

/-!
# Own and inherited members of an interface

If the type of the properties is an interface, its members are those that it inherits, followed by those of its own
body (`typeMembersTo_of_namesInterface`). So an own member decides the annotated type of its property and, unless a
validator does, whether it is required. The description, however, is the first one that is not empty, and an inherited
one comes before the own (`own_member_of_interface`, `inherited_description_stays`).
-/

namespace ReactCatalog

/-- The type is this interface, so many levels down: its name, perhaps in an annotation or in parentheses, or the name
of an alias of such a type. -/
inductive NamesInterface (program : Place) : Nat → Place → Place → Prop
  | name {p i : Place} {name : String} : typeForm p = .reference name → typeDeclaration? program name = some i →
      i.kind = .interfaceDeclaration → NamesInterface program 2 p i
  | inner {levels : Nat} {p q i : Place} : typeForm p = .wrapper → p.namedChildren.head? = some q →
      NamesInterface program levels q i → NamesInterface program (levels + 1) p i
  | ofAlias {levels : Nat} {p q i d : Place} {name : String} : typeForm p = .reference name →
      typeDeclaration? program name = some d → d.kind = .typeAliasDeclaration → d.field? .value = some q →
      NamesInterface program levels q i → NamesInterface program (levels + 2) p i

/-- The signatures in braces, as members. -/
def bodyMembers (body : Place) : List TypeMember := body.namedChildren.filterMap typeMember?

/-- The members of the types that an interface extends, down to a number of levels. -/
def inheritedMembers (program : Place) (levels : Nat) (i : Place) : List TypeMember :=
  (extendedTypes i).flatMap (typeMembersTo program levels)

/-- The members of one name. -/
def membersNamed (name : String) (ms : List TypeMember) : List TypeMember := ms.filter fun m => m.name = name

theorem NamesInterface.isInterface {program p i : Place} {levels : Nat} (h : NamesInterface program levels p i) :
    i.kind = .interfaceDeclaration := by
  induction h with
  | name _ _ hk => exact hk
  | inner _ _ _ ih => exact ih
  | ofAlias _ _ _ _ _ ih => exact ih

/-- Listing a type that is an interface is listing the parts of the interface. -/
theorem NamesInterface.typeMembersTo_eq {program p i : Place} {levels n : Nat} (h : NamesInterface program levels p i)
    (hn : levels < n) :
    typeMembersTo program n p = (declaredParts i).flatMap (typeMembersTo program (n - levels)) := by
  induction h generalizing n with
  | name hf hd _ =>
    obtain ⟨k, rfl⟩ : ∃ k, n = k + 1 := ⟨n - 1, by omega⟩
    rw [typeMembersTo_succ, hf]
    dsimp only
    rw [ofName_eq, hd]
    rfl
  | @inner levels _ _ _ hf hq _ ih =>
    obtain ⟨k, rfl⟩ : ∃ k, n = k + 1 := ⟨n - 1, by omega⟩
    rw [typeMembersTo_succ, hf]
    dsimp only
    rw [hq, Option.elim_some, ih (by omega), show k + 1 - (levels + 1) = k - levels by omega]
  | @ofAlias levels _ _ _ _ _ hf hd hk hv _ ih =>
    obtain ⟨k, rfl⟩ : ∃ k, n = k + 1 := ⟨n - 1, by omega⟩
    rw [typeMembersTo_succ, hf]
    dsimp only
    rw [ofName_eq, hd, Option.elim_some, declaredParts_alias hk, hv, Option.toList_some, List.flatMap_singleton,
      ih (by omega), show k - 1 - levels = k + 1 - (levels + 2) by omega]

/-- The members of an interface are those that it inherits, and then its own. -/
theorem typeMembersTo_of_namesInterface {program p i body : Place} {levels n : Nat}
    (h : NamesInterface program levels p i) (hn : levels < n) (hb : i.field? .body = some body)
    (hf : typeForm body = .body) :
    typeMembersTo program n p = inheritedMembers program (n - levels) i ++ bodyMembers body := by
  obtain ⟨k, hk⟩ : ∃ k, n - levels = k + 1 := ⟨n - levels - 1, by omega⟩
  have hbody : typeMembersTo program (n - levels) body = bodyMembers body := by
    rw [hk, typeMembersTo_succ, hf]
    rfl
  rw [h.typeMembersTo_eq hn, declaredParts_interface h.isInterface, hb, Option.toList_some, List.flatMap_append,
    List.flatMap_singleton, hbody]
  rfl

/-! ## Descriptions -/

/-- The first text that is not empty. -/
def firstText (texts : List String) : String := (texts.find? fun t => !t.isEmpty).getD ""

theorem firstText_cons (t : String) (rest : List String) :
    firstText (t :: rest) = if t.isEmpty then firstText rest else t := by
  unfold firstText
  rw [List.find?_cons]
  cases t.isEmpty <;> rfl

theorem firstText_append (ts us : List String) :
    firstText (ts ++ us) = if (firstText ts).isEmpty then firstText us else firstText ts := by
  induction ts with
  | nil => rfl
  | cons t rest ih =>
    rw [List.cons_append, firstText_cons, firstText_cons, ih]
    cases ht : t.isEmpty with
    | true => simp
    | false => simp [ht]

/-- The description that a list of validators leaves: the last one given. -/
def describedBy (vs : List Validation) : String := (vs.filterMap Validation.description).getLast?.getD ""

theorem withValidators_description (vs : List Validation) (x : PropDoc) :
    (withValidators vs x).description = (vs.filterMap Validation.description).getLast?.getD x.description := by
  unfold withValidators
  induction vs generalizing x with
  | nil => rfl
  | cons v rest ih =>
    rw [List.foldl_cons, ih]
    cases hv : v.description with
    | none => simp [Validation.edit, hv]
    | some t => simp [Validation.edit, hv, List.getLast?_cons]

/-- Members of a type fill in a description that is still empty. -/
theorem withTypes_description (ms : List TypeMember) (x : PropDoc) :
    (withTypes ms x).description = firstText (x.description :: ms.filterMap TypeMember.description) := by
  unfold withTypes
  induction ms generalizing x with
  | nil =>
    rw [List.foldl_nil, List.filterMap_nil, firstText_cons]
    split
    · next h => exact String.isEmpty_iff.1 h
    · rfl
  | cons m rest ih =>
    rw [List.foldl_cons, ih, firstText_cons, firstText_cons]
    cases hm : m.description with
    | none => simp [TypeMember.edit, hm]
    | some t =>
      by_cases hx : x.description = ""
      · simp [TypeMember.edit, hm, hx, firstText_cons]
      · simp [TypeMember.edit, hm, hx]

/-! ## The entry of an own member -/

/-- The entry of a member of the annotated type: the last member of the name gives the type, and the flag where no
validator does; the description is the first that is not empty. -/
theorem find?_document_annotated (scope : Scope) {program : Place} {d : Definition} {name : String} {m : TypeMember}
    (hm : (membersNamed name (typesOf program d)).getLast? = some m) :
    let vs := (validatorsOf program scope d).filter fun v => v.name = name
    ∃ prop, Dictionary.find? (document program scope d).properties name = some prop ∧ prop.tsType = some m.type ∧
      (vs = [] → prop.required = !m.optional) ∧
      prop.description =
        firstText (describedBy vs :: (membersNamed name (typesOf program d)).filterMap TypeMember.description) := by
  intro vs
  have hsome : ¬ ((typesOf program d).filter fun m => m.name = name) = [] := by
    intro h
    rw [membersNamed, h] at hm
    cases hm
  have hfound := find?_document program scope d name
  dsimp only at hfound
  rw [if_neg fun hnone => hsome hnone.2.1] at hfound
  obtain ⟨_, htype, hrequired, _⟩ := withTypes_spec (membersNamed name (typesOf program d)) (withValidators vs .empty)
  refine ⟨_, hfound, ?_, ?_, ?_⟩
  · rw [withDefaults_eq, withDefaults_eq]
    refine htype.trans ?_
    rw [hm]
    rfl
  · intro hnone
    rw [withDefaults_eq, withDefaults_eq]
    refine hrequired.trans ?_
    rw [hm, hnone]
    rfl
  · rw [withDefaults_eq, withDefaults_eq]
    refine (withTypes_description (membersNamed name (typesOf program d)) (withValidators vs .empty)).trans ?_
    rw [withValidators_description]
    rfl

/-- The texts that members come with. -/
def describedAs (ms : List TypeMember) : List String := ms.filterMap TypeMember.description

/-- If the type of the properties is an interface with a member in its own body, the property has the type of that
member and, where there is no validator, is required unless the member is optional; whatever is inherited. Of the
descriptions the validators' goes first, then what is inherited, and the own one only if all these are empty. -/
theorem own_member_of_interface (scope : Scope) {program p i body : Place} {d : Definition} {levels : Nat}
    {name : String} {o : TypeMember} (hp : propsType? d = some p) (hi : NamesInterface program levels p i)
    (hlevels : levels < 9) (hb : i.field? .body = some body) (hf : typeForm body = .body)
    (ho : (membersNamed name (bodyMembers body)).getLast? = some o) :
    let vs := (validatorsOf program scope d).filter fun v => v.name = name
    let inherited := membersNamed name (inheritedMembers program (9 - levels) i)
    let own := membersNamed name (bodyMembers body)
    ∃ prop, Dictionary.find? (document program scope d).properties name = some prop ∧ prop.tsType = some o.type ∧
      (vs = [] → prop.required = !o.optional) ∧
      prop.description = firstText (describedBy vs :: describedAs (inherited ++ own)) ∧
      (describedBy vs = "" → prop.description =
        if firstText (describedAs inherited) = "" then firstText (describedAs own)
        else firstText (describedAs inherited)) := by
  intro vs inherited own
  have hmembers : membersNamed name (typesOf program d) = inherited ++ own := by
    have hall : typesOf program d = inheritedMembers program (9 - levels) i ++ bodyMembers body := by
      simp only [typesOf, hp, Option.map_some, Option.getD_some]
      exact typeMembersTo_of_namesInterface hi hlevels hb hf
    rw [hall, membersNamed, List.filter_append]
    rfl
  have hlast : (membersNamed name (typesOf program d)).getLast? = some o := by
    rw [hmembers, List.getLast?_append, ho]
    rfl
  obtain ⟨prop, hprop, htype, hrequired, hdescription⟩ := find?_document_annotated scope hlast
  rw [hmembers] at hdescription
  refine ⟨prop, hprop, htype, hrequired, hdescription, ?_⟩
  intro hnone
  have hempty : "".isEmpty = true := rfl
  rw [hdescription, hnone, firstText_cons, if_pos hempty, List.filterMap_append, firstText_append]
  simp only [String.isEmpty_iff]
  rfl

def overrideLines : List String :=
  ["interface B \x7b /** Old. */ x: string \x7d\n", "interface I extends B \x7b /** New. */ x?: number \x7d\n",
    "export function F(p: I) \x7b return <a/>; \x7d"]

def overrideBody : Node :=
  .mk .interfaceBody ⟨60, 86⟩ none [
    (none, .mk .comment ⟨62, 73⟩ none []), (none, signatureNode 74 [.mk .symbol ⟨75, 76⟩ none []] 76)]

def overrideInterface : Node :=
  .mk .interfaceDeclaration ⟨38, 86⟩ none [
    (some .name, letterNode 48),
    (none, .mk .extendsTypeClause ⟨50, 59⟩ none [(some .type, letterNode 58)]),
    (some .body, overrideBody)]

def overrideAnnotation : Node := .mk .typeNote ⟨106, 109⟩ none [(none, letterNode 108)]

def overrideParameter : Node :=
  .mk .requiredParameter ⟨105, 109⟩ none [
    (some .pattern, .mk .identifier ⟨105, 106⟩ none []), (some .type, overrideAnnotation)]

def overrideFunction : Node :=
  .mk .functionDeclaration ⟨94, 127⟩ none [
    (some .name, .mk .identifier ⟨103, 104⟩ none []),
    (some .parameters, .mk .formalParameters ⟨104, 110⟩ none [(none, overrideParameter)]),
    (some .body, .mk .statementBlock ⟨111, 127⟩ none [
      (none, .mk .returnStatement ⟨113, 125⟩ none [(none, .mk .jsxSelfClosingElement ⟨120, 124⟩ none [])])])]

/-- A module with an interface that extends another one; both declare and describe the member `x`. -/
def overrideProgram : Place :=
  .root ⟨(overrideLines.flatMap String.toList).toArray⟩ (.mk .program ⟨0, 127⟩ none [
    (none, .mk .interfaceDeclaration ⟨0, 37⟩ none [
      (some .name, letterNode 10),
      (some .body, .mk .interfaceBody ⟨12, 37⟩ none [
        (none, .mk .comment ⟨14, 25⟩ none []), (none, signatureNode 26 [] 27)])]),
    (none, overrideInterface),
    (none, .mk .exportStatement ⟨87, 127⟩ none [(some .declaration, overrideFunction)])])

/-- The parts of the module: the annotation names the interface, which has one member `x` of its own, optional and
described, and inherits one that is described too. -/
theorem exists_override_members :
    ∃ d p i body o, resolve overrideProgram (Scope.ofProgram overrideProgram) = .ok d ∧ propsType? d = some p ∧
      NamesInterface overrideProgram 3 p i ∧ i.field? .body = some body ∧ typeForm body = .body ∧
      membersNamed "x" (bodyMembers body) = [o] ∧ o.optional = true ∧ o.description = some "New." ∧
      describedAs (membersNamed "x" (inheritedMembers overrideProgram 6 i)) = ["Old."] ∧
      validatorsOf overrideProgram (Scope.ofProgram overrideProgram) d = [] := by
  have hd : ∃ d ∈ (resolve overrideProgram (Scope.ofProgram overrideProgram)).toOption, ∃ p ∈ propsType? d,
      typeForm p = .wrapper ∧ (∃ q ∈ p.namedChildren.head?, typeForm q = .reference "I") ∧
      (validatorsOf overrideProgram (Scope.ofProgram overrideProgram) d).isEmpty := by
    decide +kernel
  have hi : ∃ i ∈ typeDeclaration? overrideProgram "I", i.kind = .interfaceDeclaration ∧
      describedAs (membersNamed "x" (inheritedMembers overrideProgram 6 i)) = ["Old."] ∧
      ∃ body ∈ i.field? .body, typeForm body = .body ∧
        (membersNamed "x" (bodyMembers body)).map (fun m => (m.optional, m.description)) = [(true, some "New.")] := by
    decide +kernel
  obtain ⟨d, hd, p, hp, hf, ⟨q, hq, hname⟩, hv⟩ := hd
  obtain ⟨i, hi, hk, hinherited, body, hb, hbody, hown⟩ := hi
  obtain ⟨o, ho⟩ : ∃ o, membersNamed "x" (bodyMembers body) = [o] :=
    List.length_eq_one_iff.1 (by simpa using congrArg List.length hown)
  rw [ho] at hown
  simp only [List.map_cons, List.map_nil, List.cons.injEq, Prod.mk.injEq, and_true] at hown
  refine ⟨d, p, i, body, o, ?_, hp, .inner hf hq (.name hname hi hk), hb, hbody, ho, hown.1, hown.2, hinherited,
    List.isEmpty_iff.1 hv⟩
  cases hr : resolve overrideProgram (Scope.ofProgram overrideProgram) with
  | error e => simp [hr, Except.toOption] at hd
  | ok d' => simpa [hr, Except.toOption] using hd

/-- The type and the flag are those of the own member, and the description the inherited one. -/
theorem override_of_own_member :
    ∃ (d : Definition) (o : TypeMember) (prop : PropDoc),
      resolve overrideProgram (Scope.ofProgram overrideProgram) = .ok d ∧ o.description = some "New." ∧
      Dictionary.find? (document overrideProgram (Scope.ofProgram overrideProgram) d).properties "x" = some prop ∧
      prop.tsType = some o.type ∧ prop.required = false ∧ prop.description = "Old." := by
  obtain ⟨d, p, i, body, o, hd, hp, hi, hb, hf, ho, hopt, hnew, hold, hv⟩ := exists_override_members
  have hlast : (membersNamed "x" (bodyMembers body)).getLast? = some o := by rw [ho]; rfl
  obtain ⟨prop, hprop, htype, hrequired, _, hdescription⟩ :=
    own_member_of_interface (Scope.ofProgram overrideProgram) hp hi (by decide) hb hf hlast
  refine ⟨d, o, prop, hd, hnew, hprop, htype, ?_, ?_⟩
  · rw [hrequired (by rw [hv]; rfl), hopt]
    rfl
  · rw [hdescription (by rw [hv]; rfl), hold, if_neg (by decide)]
    rfl

/-- The own member is described and no validator is, and yet the description is not the one of the own member. -/
theorem inherited_description_stays :
    ∃ d p i body o prop, resolve overrideProgram (Scope.ofProgram overrideProgram) = .ok d ∧ propsType? d = some p ∧
      NamesInterface overrideProgram 3 p i ∧ i.field? .body = some body ∧
      membersNamed "x" (bodyMembers body) = [o] ∧ o.description = some "New." ∧
      validatorsOf overrideProgram (Scope.ofProgram overrideProgram) d = [] ∧
      Dictionary.find? (document overrideProgram (Scope.ofProgram overrideProgram) d).properties "x" = some prop ∧
      prop.description ≠ "New." := by
  obtain ⟨d, p, i, body, o, hd, hp, hi, hb, hf, ho, hopt, hnew, hold, hv⟩ := exists_override_members
  have hmembers : typesOf overrideProgram d = inheritedMembers overrideProgram 6 i ++ bodyMembers body := by
    simp only [typesOf, hp, Option.map_some, Option.getD_some]
    exact typeMembersTo_of_namesInterface hi (by decide) hb hf
  have hnamed : membersNamed "x" (typesOf overrideProgram d) =
      membersNamed "x" (inheritedMembers overrideProgram 6 i) ++ [o] := by
    rw [hmembers, membersNamed, List.filter_append]
    exact congrArg _ ho
  have hlast : (membersNamed "x" (typesOf overrideProgram d)).getLast? = some o := by rw [hnamed]; simp
  obtain ⟨prop, hprop, _, _, hdescription⟩ :=
    find?_document_annotated (Scope.ofProgram overrideProgram) hlast
  refine ⟨d, p, i, body, o, prop, hd, hp, hi, hb, ho, hnew, hv, hprop, ?_⟩
  rw [hdescription, hv, hnamed, List.filterMap_append, ← describedAs, hold]
  simp [firstText_cons, describedBy]

end ReactCatalog
