import ReactCatalog.Proofs.ValidatorForms

/-!
# Marks inside composite validators

A composite validator has others in it: the items of a collection, the members of an object, the alternatives of a
union. What is described of it is what is around the position, filled with what is described there
(`Inside.exists_surrounds`), so an expression that differs in one position is described differently there alone.

Items and members may be marked with `.isRequired`, which changes their flag and nothing else. Alternatives are not
asked for a mark, and a second mark is not taken off. There a validator becomes one that is only known by its text
(`required_mark_in_position`, `mark_hides_alternative`).
-/

namespace ReactCatalog

/-! ## What is around a position -/

/-- Where a composite validator has another one. -/
inductive Position where
  | item
  | member
  | alternative
  deriving DecidableEq

/-- What is read in a position: a type, and whether it is required. Alternatives are never required. -/
def Position.reads : Position → Place → TypeDoc × Bool
  | alternative, p => (validatorType p, false)
  | item, p => propType p
  | member, p => propType p

/-- What the description of a composite validator has around one position. -/
inductive Surround where
  | item (form : CollectionForm)
  | member (form : RecordForm) (key : String) (doc : Option String) (before after : List (String × Json))
  | alternative (before after : List Json)

namespace Surround

def position : Surround → Position
  | item _ => .item
  | member .. => .member
  | alternative .. => .alternative

/-- The description with something in the position. -/
def fill : Surround → TypeDoc × Bool → TypeDoc
  | item form, (t, required) =>
    (TypeDoc.named form.name).withValue
      (if required then t.toValue.setMember "required" (.bool true) else t.toValue)
  | member form key doc before after, (t, required) =>
    let entry := t.toValue.setMember "required" (.bool required)
    let entry := (doc.map fun d => entry.setMember "description" (.string d)).getD entry
    (TypeDoc.named form.name).withValue (.object (Dictionary.ofList (before ++ (key, entry) :: after)))
  | alternative before after, (t, _) =>
    (TypeDoc.named "union").withValue (.array (before ++ t.toValue :: after))

end Surround

/-- Descriptions around one another, outermost first, each with its own flag, filled with an innermost one. -/
def fillAll : List (Surround × Bool) → TypeDoc × Bool → TypeDoc × Bool
  | [], inner => inner
  | (s, required) :: rest, inner => (s.fill (fillAll rest inner), required)

/-- A collection is described around its item. -/
theorem validatorType_item {form : CollectionForm} {p a : Place} (h : argumentOf? form.name p.bare = some a) :
    validatorType p = (Surround.item form).fill (propType a) := by
  have hitem : (argumentDoc a).item =
      if (propType a).2 then (propType a).1.toValue.setMember "required" (.bool true) else (propType a).1.toValue := by
    rw [argumentDoc, itemType]
  rw [validatorType_of_argumentOf? h, Surround.fill, ← hitem]
  cases form <;> rfl

/-- An object is described around each of its members. -/
theorem validatorType_member {form : RecordForm} {p o c a : Place} {before after : List Place} {key : String}
    (h : argumentOf? form.name p.bare = some o) (hk : o.kind = .object)
    (hsplit : o.namedChildren = before ++ c :: after) (hkey : keyed? c = some (key, a)) :
    validatorType p = (Surround.member form key c.docblock? (before.filterMap shapeMember?)
      (after.filterMap shapeMember?)).fill (propType a) := by
  have hmember : shapeMember? c = some (key, (c.docblock?.map fun d =>
      ((propType a).1.toValue.setMember "required" (.bool (propType a).2)).setMember "description" (.string d)).getD
        ((propType a).1.toValue.setMember "required" (.bool (propType a).2))) := by
    rw [shapeMember?, hkey]
    rfl
  have hshape : (argumentDoc o).shape = some (shapeType o) := if_pos hk
  rw [validatorType_of_argumentOf? h, Surround.fill, ← List.filterMap_cons_some hmember, ← List.filterMap_append,
    ← hsplit, ← shapeType_eq]
  cases form <;> simp [callType, hshape, RecordForm.name]

/-- The types of alternatives, which are not asked whether they are required. -/
def alternativeTypes (ps : List Place) : List Json := (withoutComments ps).map fun p => (validatorType p).toValue

/-- A union is described around each of its alternatives. -/
theorem validatorType_alternative {p o a : Place} {before after : List Place}
    (h : argumentOf? "oneOfType" p.bare = some o) (hk : o.kind = .array)
    (hsplit : o.namedChildren = before ++ a :: after) (ha : a.kind ≠ .comment) :
    validatorType p =
      (Surround.alternative (alternativeTypes before) (alternativeTypes after)).fill (validatorType a, false) := by
  have htypes : (argumentDoc o).alternatives =
      alternativeTypes before ++ (validatorType a).toValue :: alternativeTypes after := by
    have hall : (argumentDoc o).alternatives = alternativeTypes o.namedChildren := rfl
    rw [hall, hsplit, alternativeTypes, withoutComments, List.filter_append,
      List.filter_cons_of_pos (by simpa using ha), List.map_append, List.map_cons]
    rfl
  rw [validatorType_of_argumentOf? h, Surround.fill, ← htypes, callType, if_neg (by simp), if_pos rfl,
    if_pos (show (argumentDoc o).kind = .array from hk)]

/-! ## Expressions that differ in one position -/

def Place.ReadsLike (p p' : Place) : Prop := Node.ReadsLike p.source p'.source p.node p'.node

theorem likeness_readsLike : Likeness Place.ReadsLike := likeness_reads

/-- The validators `a` and `a'` have the same position in `p` and `p'`, and what is beside them there reads alike. -/
inductive SamePosition (a a' : Place) : Position → Place → Place → Prop
  | item {p p' : Place} (form : CollectionForm) : argumentOf? form.name p.bare = some a →
      argumentOf? form.name p'.bare = some a' → SamePosition a a' .item p p'
  | member {p p' o o' c c' : Place} {before before' after after' : List Place} {key : String} (form : RecordForm) :
      argumentOf? form.name p.bare = some o → argumentOf? form.name p'.bare = some o' →
      o.kind = .object → o'.kind = .object →
      o.namedChildren = before ++ c :: after → o'.namedChildren = before' ++ c' :: after' →
      List.Forall₂ (Likeness.Documented Place.ReadsLike) before before' →
      List.Forall₂ (Likeness.Documented Place.ReadsLike) after after' →
      keyed? c = some (key, a) → keyed? c' = some (key, a') → c.docblock? = c'.docblock? →
      SamePosition a a' .member p p'
  | alternative {p p' o o' : Place} {before before' after after' : List Place} :
      argumentOf? "oneOfType" p.bare = some o → argumentOf? "oneOfType" p'.bare = some o' →
      o.kind = .array → o'.kind = .array →
      o.namedChildren = before ++ a :: after → o'.namedChildren = before' ++ a' :: after' →
      List.Forall₂ Place.ReadsLike before before' → List.Forall₂ Place.ReadsLike after after' →
      a.kind ≠ .comment → a'.kind ≠ .comment →
      SamePosition a a' .alternative p p'

/-- The validators `v` and `v'` have the same position, of the given kind, at some depth in `p` and `p'`, and all else
that is described there reads alike. On the way down items and members may be marked, the same way in both. -/
inductive Inside (v v' : Place) (k : Position) : Place → Place → Prop
  | direct {required : Bool} {p p' q q' : Place} : marked? required p = some q → marked? required p' = some q' →
      SamePosition v v' k q q' → Inside v v' k p p'
  | deeper {required : Bool} {p p' q q' x x' : Place} {j : Position} : marked? required p = some q →
      marked? required p' = some q' → SamePosition x x' j q q' →
      (j = .alternative → marked? true x = none ∧ marked? true x' = none) → Inside v v' k x x' → Inside v v' k p p'

theorem shapeMember?_eq_of_documented {c c' : Place} (h : Likeness.Documented Place.ReadsLike c c') :
    shapeMember? c = shapeMember? c' := by
  unfold shapeMember?
  rcases rel_cases (likeness_readsLike.keyed? h.1) with ⟨hx, hy⟩ | ⟨m, m', hx, hy, hkey, hvalue⟩
  · rw [hx, hy]
    rfl
  · rw [hx, hy, Option.map_some, Option.map_some, hkey, (likeness_readsLike.validators hvalue).1, h.2]

theorem alternativeTypes_eq_of_rel {ps ps' : List Place} (h : List.Forall₂ Place.ReadsLike ps ps') :
    alternativeTypes ps = alternativeTypes ps' := by
  have hproper : List.Forall₂ Place.ReadsLike (withoutComments ps) (withoutComments ps') :=
    filter_rel h fun _ _ hc => by rw [likeness_readsLike.kind hc]
  exact map_eq_of_rel_list hproper fun _ _ hc => by rw [(likeness_readsLike.validators hc).2.1]

namespace SamePosition

variable {a a' p p' : Place} {k : Position}

theorem kind (h : SamePosition a a' k p p') : p.bare.kind = .callExpression ∧ p'.bare.kind = .callExpression := by
  cases h with
  | item _ h h' => exact ⟨kind_of_argumentOf? h, kind_of_argumentOf? h'⟩
  | member _ h h' => exact ⟨kind_of_argumentOf? h, kind_of_argumentOf? h'⟩
  | alternative h h' => exact ⟨kind_of_argumentOf? h, kind_of_argumentOf? h'⟩

/-- A composite validator is described by what is around the position, and this is the same in both. -/
theorem exists_surround (h : SamePosition a a' k p p') :
    ∃ s : Surround, s.position = k ∧ validatorType p = s.fill (k.reads a) ∧ validatorType p' = s.fill (k.reads a') := by
  cases h with
  | item form h h' => exact ⟨.item form, rfl, validatorType_item h, validatorType_item h'⟩
  | member form h h' hk hk' hsplit hsplit' hbefore hafter hkey hkey' hdoc =>
    refine ⟨_, rfl, validatorType_member h hk hsplit hkey, ?_⟩
    rw [hdoc, filterMap_eq_of_rel hbefore fun _ _ hc => shapeMember?_eq_of_documented hc,
      filterMap_eq_of_rel hafter fun _ _ hc => shapeMember?_eq_of_documented hc]
    exact validatorType_member h' hk' hsplit' hkey'
  | alternative h h' hk hk' hsplit hsplit' hbefore hafter hc hc' =>
    refine ⟨_, rfl, validatorType_alternative h hk hsplit hc, ?_⟩
    rw [alternativeTypes_eq_of_rel hbefore, alternativeTypes_eq_of_rel hafter]
    exact validatorType_alternative h' hk' hsplit' hc'

end SamePosition

/-- What is around a position at some depth is described the same way in both. -/
theorem Inside.exists_surrounds {v v' p p' : Place} {k : Position} (h : Inside v v' k p p') :
    ∃ ss, ss.getLast?.map (fun s : Surround × Bool => s.1.position) = some k ∧
      propType p = fillAll ss (k.reads v) ∧ propType p' = fillAll ss (k.reads v') := by
  have hcall : ∀ {required p q}, marked? required p = some q → q.bare.kind = .callExpression →
      propType p = (validatorType q, required) :=
    fun hq hk => propType_of_marked? hq (by simp [withoutRequired?, hk])
  induction h with
  | @direct required p p' q q' hq hq' hpos =>
    obtain ⟨s, hs, ht, ht'⟩ := hpos.exists_surround
    refine ⟨[(s, required)], by simp [hs], ?_, ?_⟩
    · rw [hcall hq hpos.kind.1, ht]
      rfl
    · rw [hcall hq' hpos.kind.2, ht']
      rfl
  | @deeper required p p' q q' x x' j hq hq' hpos hplain _ ih =>
    obtain ⟨s, _, ht, ht'⟩ := hpos.exists_surround
    obtain ⟨ss, hlast, hx, hx'⟩ := ih
    -- a composite alternative is not marked, so it is read as it would be anywhere
    have hreads : j.reads x = propType x ∧ j.reads x' = propType x' := by
      cases j with
      | alternative =>
        obtain ⟨hm, hm'⟩ := hplain rfl
        exact ⟨(propType_of_marked? rfl hm).symm, (propType_of_marked? rfl hm').symm⟩
      | item | member => exact ⟨rfl, rfl⟩
    refine ⟨(s, required) :: ss, ?_, ?_, ?_⟩
    · cases ss with
      | nil => simp at hlast
      | cons s' rest => rwa [List.getLast?_cons_cons]
    · rw [hcall hq hpos.kind.1, ht, hreads.1, hx]
      rfl
    · rw [hcall hq' hpos.kind.2, ht', hreads.2, hx']
      rfl

/-! ## One more mark -/

/-- What ends in `.isRequired` is no validator that is known, if it is not asked for the mark. -/
theorem validatorType_of_mark {p q : Place} (h : marked? true p = some q) : validatorType p = customType p.bare := by
  have hmark : p.bare.kind = .memberExpression ∧ p.bare.fieldText? .property = some "isRequired" := by
    by_contra hne
    have hnone : marked? true p = none := if_neg hne
    rw [h] at hnone
    cases hnone
  have hcall : p.bare.kind ≠ .callExpression := by simp [hmark.1]
  have hname : p.bare.calledName? = some "isRequired" := by simp [Place.calledName?, hmark.1, hmark.2]
  rw [validatorType_of_not_call hcall, if_pos (.inr hmark.1), hname]
  rfl

theorem validatorType_bare (p : Place) : validatorType p.bare = validatorType p := by
  have hbare := bare_bare p
  by_cases hk : p.bare.kind = .callExpression
  · rw [validatorType_of_call hk, validatorType_of_call (by rwa [hbare]), hbare]
  · rw [validatorType_of_not_call hk, validatorType_of_not_call (by rwa [hbare]), hbare]

/-- The validator `v'` is `v` with a mark after it, perhaps in wrappers of its own, in the same position of what is else
alike. What is described around them is the same. Of an item or a member the flag changes, and nothing else, unless `v`
has a mark already. An alternative becomes one that is only known by its text, and so does what has two marks. -/
theorem required_mark_in_position {k : Position} {p p' v v' u : Place} (h : Inside v v' k p p')
    (hu : marked? true v' = some u) (hlike : v.bare.ReadsLike u.bare) :
    ∃ ss, ss.getLast?.map (fun s : Surround × Bool => s.1.position) = some k ∧
      propType p = fillAll ss (k.reads v) ∧ propType p' = fillAll ss (k.reads v') ∧
      (k ≠ .alternative → marked? true v = none →
        k.reads v = ((propType v).1, false) ∧ k.reads v' = ((propType v).1, true)) ∧
      (k ≠ .alternative → (marked? true v).isSome → k.reads v' = (customType v.bare, true)) ∧
      (k = .alternative → k.reads v' = (customType v'.bare, false)) := by
  obtain ⟨ss, hlast, hp, hp'⟩ := h.exists_surrounds
  have hasked : k ≠ .alternative → k.reads v = propType v ∧ k.reads v' = propType v' := by
    intro hk
    cases k with
    | alternative => exact absurd rfl hk
    | item | member => exact ⟨rfl, rfl⟩
  have htype : propType v' = (validatorType v, true) := by
    have hq : withoutRequired? v'.bare = some u := hu
    rw [propType_eq, hq, ← validatorType_bare v, (likeness_readsLike.validators hlike).2.1, validatorType_bare]
    rfl
  refine ⟨ss, hlast, hp, hp', fun hk hv => ?_, fun hk hv => ?_, ?_⟩
  · obtain ⟨hr, hr'⟩ := hasked hk
    have hown : propType v = (validatorType v, false) := propType_of_marked? rfl hv
    rw [hr, hr', htype, hown]
    exact ⟨rfl, rfl⟩
  · obtain ⟨w, hw⟩ := Option.isSome_iff_exists.1 hv
    rw [(hasked hk).2, htype, validatorType_of_mark hw]
  · rintro rfl
    rw [Position.reads, validatorType_of_mark hu]

/-! ## A member and an alternative -/

/-- What a call has for its first argument. -/
def argumentAt (p : Place) : Place := ((p.field? .arguments).bind fun a => a.namedChildren.head?).getD p

theorem argumentOf?_bare {name : String} {p a : Place} (hp : p.inside? = none)
    (hcall : p.kind = .callExpression ∧ ∃ f ∈ p.field? .function, Names name f)
    (ha : ((p.field? .arguments).bind fun a => a.namedChildren.head?) = some a) (hbare : a.inside? = none) :
    argumentOf? name p.bare = some a := by
  rw [Place.bare_of_inside?_eq_none hp, argumentOf?, if_pos hcall, firstArgument?, ha, Option.map_some,
    Place.bare_of_inside?_eq_none hbare]

/-- The expression `arrayOf(shape(…))` for an object that has a validator under `a`, and `bool` under `b`. -/
def listOf (value : Node) : Node :=
  callNode (wordNode 0 7) (callNode (wordNode 8 13) (.mk .object ⟨14, value.stop + 10⟩ none [
    (none, pairOf (.mk .propertyIdentifier ⟨15, 16⟩ none []) value),
    (none, pairOf (.mk .propertyIdentifier ⟨value.stop + 2, value.stop + 3⟩ none [])
      (wordNode (value.stop + 5) (value.stop + 9)))]))

def plainList : Place := .root ⟨"arrayOf(shape(\x7ba: string, b: bool\x7d))".toList.toArray⟩ (listOf (wordNode 18 24))

def markedList : Place :=
  .root ⟨"arrayOf(shape(\x7ba: string.isRequired, b: bool\x7d))".toList.toArray⟩
    (listOf (memberNode (wordNode 18 24) 35))

theorem keyed?_of_pair {p k v : Place} {key : String} (hk : p.kind = .pair) (hkey : p.field? .key = some k)
    (hname : k.propertyKey? = some key) (hv : p.field? .value = some v) : keyed? p = some (key, v) := by
  simp [keyed?, hk, hkey, hname, hv]

/-- The member of the object in the expression at some position. -/
def memberAt (p : Place) (i : Nat) : Place := (argumentAt (argumentAt p)).namedChildren.getD i p

def valueAt (p : Place) : Place := ((memberAt p 0).field? .value).getD p

theorem member_inside : Inside (valueAt plainList) (valueAt markedList) .member plainList markedList := by
  have hplain : ∀ p, marked? false p = some p := fun _ => rfl
  have hitem : SamePosition (argumentAt plainList) (argumentAt markedList) .item plainList markedList :=
    .item .arrayOf (argumentOf?_bare rfl (by decide +kernel) rfl rfl) (argumentOf?_bare rfl (by decide +kernel) rfl rfl)
  have hsplit : (argumentAt (argumentAt plainList)).namedChildren =
      [] ++ memberAt plainList 0 :: [memberAt plainList 1] := rfl
  have hsplit' : (argumentAt (argumentAt markedList)).namedChildren =
      [] ++ memberAt markedList 0 :: [memberAt markedList 1] := rfl
  have hbool : Node.readsLike plainList.source markedList.source 2 (memberAt plainList 1).node
      (memberAt markedList 1).node = true := by
    decide +kernel
  have hbeside : Likeness.Documented Place.ReadsLike (memberAt plainList 1) (memberAt markedList 1) :=
    ⟨Node.readsLike_sound hbool, by decide +kernel⟩
  refine .deeper (hplain _) (hplain _) hitem (fun h => by cases h) (.direct (hplain _) (hplain _) ?_)
  exact .member .shape (argumentOf?_bare rfl (by decide +kernel) rfl rfl)
    (argumentOf?_bare rfl (by decide +kernel) rfl rfl) rfl rfl hsplit hsplit' .nil (.cons hbeside .nil)
    (keyed?_of_pair rfl rfl (show _ = some "a" by decide +kernel) rfl)
    (keyed?_of_pair rfl rfl (by decide +kernel) rfl) (by decide +kernel)

/-- What stands before the mark. -/
def unmarkedAt (p : Place) : Place := (p.field? .object).getD p

theorem marked?_of_field {p q : Place} (hp : p.inside? = none)
    (hmark : p.kind = .memberExpression ∧ p.fieldText? .property = some "isRequired") (hq : p.field? .object = some q) :
    marked? true p = some q := by
  rw [marked?, Place.bare_of_inside?_eq_none hp, if_pos hmark, hq]

/-- The validator of a member, two levels deep, gets its mark. -/
theorem member_marked_at_depth :
    let v := valueAt plainList
    let v' := valueAt markedList
    Inside v v' .member plainList markedList ∧ marked? true v' = some (unmarkedAt v') ∧ v.ReadsLike (unmarkedAt v') ∧
      ∃ ss, propType plainList = fillAll ss ((propType v).1, false) ∧
        propType markedList = fillAll ss ((propType v).1, true) := by
  intro v v'
  have hmark : marked? true v' = some (unmarkedAt v') := marked?_of_field rfl (by decide +kernel) rfl
  have hword : Node.readsLike plainList.source markedList.source 1 v.node (unmarkedAt v').node = true := by
    decide +kernel
  have hnone : (marked? true v).isNone = true := by decide +kernel
  have hlike : v.ReadsLike (unmarkedAt v') := Node.readsLike_sound hword
  obtain ⟨ss, _, hp, hp', hflag, _⟩ := required_mark_in_position member_inside hmark (likeness_readsLike.bare hlike)
  obtain ⟨hr, hr'⟩ := hflag (by decide) (Option.isNone_iff_eq_none.1 hnone)
  exact ⟨member_inside, hmark, hlike, ss, hp.trans (congrArg _ hr), hp'.trans (congrArg _ hr')⟩

/-- The expression `oneOfType([…, number])`. -/
def unionOf (value : Node) : Node :=
  callNode (wordNode 0 9) (.mk .array ⟨10, value.stop + 9⟩ none [
    (none, value), (none, wordNode (value.stop + 2) (value.stop + 8))])

def plainUnion : Place := .root ⟨"oneOfType([string, number])".toList.toArray⟩ (unionOf (wordNode 11 17))

def markedUnion : Place :=
  .root ⟨"oneOfType([string.isRequired, number])".toList.toArray⟩ (unionOf (memberNode (wordNode 11 17) 28))

def alternativeAt (p : Place) (i : Nat) : Place := (argumentAt p).namedChildren.getD i p

theorem alternative_inside :
    Inside (alternativeAt plainUnion 0) (alternativeAt markedUnion 0) .alternative plainUnion markedUnion := by
  have hplain : ∀ p, marked? false p = some p := fun _ => rfl
  have hsplit : (argumentAt plainUnion).namedChildren =
      [] ++ alternativeAt plainUnion 0 :: [alternativeAt plainUnion 1] := rfl
  have hsplit' : (argumentAt markedUnion).namedChildren =
      [] ++ alternativeAt markedUnion 0 :: [alternativeAt markedUnion 1] := rfl
  have hnumber : Node.readsLike plainUnion.source markedUnion.source 1 (alternativeAt plainUnion 1).node
      (alternativeAt markedUnion 1).node = true := by
    decide +kernel
  exact .direct (hplain _) (hplain _) (.alternative (argumentOf?_bare rfl (by decide +kernel) rfl rfl)
    (argumentOf?_bare rfl (by decide +kernel) rfl rfl) rfl rfl hsplit hsplit' .nil
    (.cons (Node.readsLike_sound hnumber) .nil) (by decide) (by decide))

/-- The validator of an alternative is known, and with its mark it is not. -/
theorem mark_hides_alternative :
    let v := alternativeAt plainUnion 0
    let v' := alternativeAt markedUnion 0
    Inside v v' .alternative plainUnion markedUnion ∧ marked? true v' = some (unmarkedAt v') ∧
      v.ReadsLike (unmarkedAt v') ∧ propType v = (.named "string", false) ∧
      ∃ ss, propType plainUnion = fillAll ss (.named "string", false) ∧
        propType markedUnion = fillAll ss ((TypeDoc.named "custom").withRaw "string.isRequired", false) := by
  intro v v'
  have hmark : marked? true v' = some (unmarkedAt v') := marked?_of_field rfl (by decide +kernel) rfl
  have hword : Node.readsLike plainUnion.source markedUnion.source 1 v.node (unmarkedAt v').node = true := by
    decide +kernel
  have hnone : (marked? true v).isNone = true := by decide +kernel
  have hwritten : (Validator.primitive "string" (by decide)).WrittenAt v := by decide +kernel
  have htext : v'.bare.text = "string.isRequired" := by decide +kernel
  have htype : validatorType v = .named "string" := Validator.validatorType_of_writtenAt hwritten
  have hown : propType v = (validatorType v, false) :=
    propType_of_marked? rfl (Option.isNone_iff_eq_none.1 hnone)
  obtain ⟨ss, _, hp, hp'⟩ := alternative_inside.exists_surrounds
  refine ⟨alternative_inside, hmark, Node.readsLike_sound hword, ?_, ss, ?_, ?_⟩
  · rw [hown, htype]
  · rw [hp, Position.reads, htype]
  · rw [hp', Position.reads, validatorType_of_mark hmark, customType, htext]

end ReactCatalog
