import ReactCatalog.Proofs.Resolution
import ReactCatalog.Proofs.Validators

/-!
# Spread objects of validators

An object of validators may spread others that the module binds to names, and those may spread more, even one another.
The members of a spread object apply in the place where it is spread, four levels deep (`spreadSequence`); of what is
imported and spread the module is noted. Where no chain is deeper, each property has the type that it has in the value
of the object (`spreads_applied_in_place`).

What a member spreads is its first part, and that may be a comment. Then the spread says nothing
(`comment_hides_spread`).
-/

namespace ReactCatalog

/-! ## What a member spreads -/

theorem sizeOf_node_lt_of_insideBy {p q : Place} (h : insideBy Place.properChildren p = some q) :
    sizeOf q.node < sizeOf p.node := by
  have hmem : q ∈ p.properChildren := by
    unfold insideBy at h
    split at h
    all_goals first
      | exact List.mem_of_head? h
      | exact List.mem_of_getLast? h
      | cases h
  exact Place.sizeOf_node_lt_of_mem_namedChildren (List.mem_of_mem_filter hmem)

/-- The value without the wrappers around it, where comments do not count. -/
def Place.properBare (p : Place) : Place :=
  match _h : insideBy Place.properChildren p with
  | some q => q.properBare
  | none => p
termination_by sizeOf p.node
decreasing_by exact sizeOf_node_lt_of_insideBy _h

/-- How constructs are read: what their parts are, and what they are without wrappers. -/
structure Reading where
  parts : Place → List Place
  bare : Place → Place

namespace Reading

/-- All that is named counts, comments as well. -/
def written : Reading := ⟨Place.namedChildren, Place.bare⟩

/-- Comments do not count. -/
def proper : Reading := ⟨Place.properChildren, Place.properBare⟩

variable (r : Reading) (scope : Scope)

/-- The value that a member spreads. -/
def spreadValue? (p : Place) : Option Place :=
  if p.kind = .spreadElement then (r.parts p).head?.map r.bare else none

/-- The object that the module binds to a name. -/
def boundObject? (v : Place) : Option Place :=
  if v.kind = .identifier then ((scope.lookup v.text).map fun b => r.bare b.value).filter fun o => o.kind == .object
  else none

/-- The object of the module that a member spreads by its name. -/
def spreadObject? (p : Place) : Option Place := (r.spreadValue? p).bind (r.boundObject? scope)

/-- The module of what a member spreads: a member of an imported name, or an imported name that is bound to no
object. -/
def spreadSource? (p : Place) : Option String :=
  (r.spreadValue? p).bind fun v =>
    match v.kind with
    | .memberExpression =>
      ((v.field? .object).filter fun x => x.kind == .identifier).bind fun x => scope.importOf? x.text
    | .identifier => if (r.boundObject? scope v).isSome then none else scope.importOf? v.text
    | _ => none

/-- What a member does by itself: it says something of a property, or names a module. -/
def applyMember (doc : ComponentDoc) (p : Place) : ComponentDoc :=
  let doc := ((Validation.ofMember? p).map fun v => doc.modifyProp v.name v.edit.update).getD doc
  ((r.spreadSource? scope p).map doc.addSource).getD doc

end Reading

/-- The members of an object, with those of spread objects in their places down to a number of levels. Spreads that are
deeper are left out. -/
def spreadSequence (spread? : Place → Option Place) (levels : Nat) (object : Place) : List Place :=
  object.namedChildren.flatMap (ofMember levels)
where
  ofMember : Nat → Place → List Place
    | 0, p => if p.kind = .spreadElement then [] else [p]
    | levels + 1, p =>
      match spread? p with
      | some object => object.namedChildren.flatMap (ofMember levels)
      | none => [p]

/-! ## Members apply one after the other -/

theorem boundObject?_written (scope : Scope) {v : Place} (hk : v.kind = .identifier) (hv : v.bare = v) :
    Reading.written.boundObject? scope v = scope.object? v := by
  unfold Reading.boundObject? Scope.object?
  simp only [hk, hv, if_true, Reading.written]
  cases scope.lookup v.text with
  | none => rfl
  | some b =>
    simp only [Option.map_some, Option.bind_some, Option.filter_some, Place.asObject?, beq_iff_eq]

/-- A member that is no spread does what it does by itself. -/
theorem applyMember_of_ne {p : Place} (hk : p.kind ≠ .spreadElement) (scope : Scope) (levels : Nat)
    (doc : ComponentDoc) :
    applyValidators.member scope levels doc p = Reading.written.applyMember scope doc p := by
  have hsource : Reading.written.spreadSource? scope p = none := by
    simp [Reading.spreadSource?, Reading.spreadValue?, hk]
  rw [applyValidators.member.eq_def, Reading.applyMember, hsource]
  unfold Validation.ofMember?
  dsimp only
  split
  · next hp =>
    simp only [hp]
    cases (p.field? .key).bind Place.propertyKey? with
    | none => rfl
    | some name => cases p.field? .value <;> rfl
  · next hp =>
    simp only [hp]
    rfl
  · next hp => exact absurd hp hk
  · next h₁ h₂ _ =>
    split
    · next hp => exact absurd hp h₁
    · next hp => exact absurd hp h₂
    · rfl

/-- A spread that is not too deep does what the members of its object do, or names a module. -/
theorem applyMember_of_spread {p : Place} (hk : p.kind = .spreadElement) (scope : Scope) (levels : Nat)
    (doc : ComponentDoc) :
    applyValidators.member scope (levels + 1) doc p =
      match Reading.written.spreadObject? scope p with
      | some object => object.namedChildren.foldl (applyValidators.member scope levels) doc
      | none => Reading.written.applyMember scope doc p := by
  have hown : Validation.ofMember? p = none := by simp [Validation.ofMember?, hk]
  have hvalue : Reading.written.spreadValue? p = p.namedChildren.head?.map Place.bare := if_pos hk
  rw [applyValidators.member.eq_def, Reading.spreadObject?, Reading.applyMember, Reading.spreadSource?, hvalue, hown]
  simp only [hk]
  cases p.namedChildren.head? with
  | none => rfl
  | some q =>
    simp only [Option.map_some, Option.bind_some, Option.map_none, Option.getD_none]
    by_cases hmember : q.bare.kind = .memberExpression
    · have hobject : Reading.written.boundObject? scope q.bare = none := by simp [Reading.boundObject?, hmember]
      simp only [hobject, hmember]
      cases q.bare.field? .object with
      | none => rfl
      | some x =>
        simp only [Option.filter_some, beq_iff_eq]
        split <;> rfl
    by_cases hname : q.bare.kind = .identifier
    · simp only [boundObject?_written scope hname (bare_bare q), hname]
      cases scope.object? q.bare <;> rfl
    · have hobject : Reading.written.boundObject? scope q.bare = none := if_neg hname
      simp [hobject]

/-- One member does what the members of its sequence do. -/
theorem member_eq_sequence (scope : Scope) (levels : Nat) (doc : ComponentDoc) (p : Place) :
    applyValidators.member scope levels doc p =
      (spreadSequence.ofMember (Reading.written.spreadObject? scope) levels p).foldl
        (Reading.written.applyMember scope) doc := by
  induction levels generalizing doc p with
  | zero =>
    by_cases hk : p.kind = .spreadElement
    · rw [applyValidators.member.eq_def]
      simp [spreadSequence.ofMember, hk]
    · rw [applyMember_of_ne hk, spreadSequence.ofMember, if_neg hk]
      rfl
  | succ levels ih =>
    by_cases hk : p.kind = .spreadElement
    · rw [applyMember_of_spread hk, spreadSequence.ofMember]
      cases Reading.written.spreadObject? scope p with
      | none => rfl
      | some object =>
        dsimp only
        rw [List.foldl_flatMap]
        exact List.foldl_ext _ _ doc fun doc q _ => ih doc q
    · have hobject : Reading.written.spreadObject? scope p = none := by
        simp [Reading.spreadObject?, Reading.spreadValue?, hk]
      rw [applyMember_of_ne hk, spreadSequence.ofMember, hobject]
      rfl

theorem applyValidators_eq_sequence (scope : Scope) (levels : Nat) (object : Place) (doc : ComponentDoc) :
    applyValidators scope levels object doc =
      (spreadSequence (Reading.written.spreadObject? scope) levels object).foldl
        (Reading.written.applyMember scope) doc := by
  unfold applyValidators spreadSequence
  rw [List.foldl_flatMap]
  exact List.foldl_ext _ _ doc fun doc p _ => member_eq_sequence scope levels doc p

/-! ## What the members say together -/

section

variable (r : Reading) (scope : Scope)

theorem properties_applyMember (doc : ComponentDoc) (p : Place) :
    (r.applyMember scope doc p).properties =
      applyEdits ((Validation.ofMember? p).toList.map Validation.edit) doc.properties := by
  have hsource : ∀ (source : Option String) (doc : ComponentDoc),
      ((source.map doc.addSource).getD doc).properties = doc.properties := by
    intro source doc
    cases source with
    | none => rfl
    | some specifier =>
      simp only [Option.map_some, Option.getD_some, ComponentDoc.addSource]
      split <;> rfl
  unfold Reading.applyMember
  rw [hsource]
  cases Validation.ofMember? p <;> rfl

/-- A module is noted unless it has been. -/
theorem composes_applyMember (doc : ComponentDoc) (p : Place) :
    (r.applyMember scope doc p).composes =
      match r.spreadSource? scope p with
      | some specifier => if specifier ∈ doc.composes then doc.composes else doc.composes ++ [specifier]
      | none => doc.composes := by
  have hvalidated : (((Validation.ofMember? p).map fun v => doc.modifyProp v.name v.edit.update).getD doc).composes =
      doc.composes := by
    cases Validation.ofMember? p <;> rfl
  unfold Reading.applyMember
  cases r.spreadSource? scope p with
  | none => exact hvalidated
  | some specifier =>
    simp only [Option.map_some, Option.getD_some, ComponentDoc.addSource, hvalidated, List.contains_iff_mem]
    split <;> simp [hvalidated]

/-- The modules that members name are added in the order in which they first come up, each once. -/
theorem composes_foldl (ps : List Place) (doc : ComponentDoc) :
    (ps.foldl (r.applyMember scope) doc).composes =
      doc.composes ++ ((ps.filterMap (r.spreadSource? scope)).removeAll doc.composes).eraseDups := by
  induction ps generalizing doc with
  | nil => simp
  | cons p rest ih =>
    rw [List.foldl_cons, ih, composes_applyMember]
    cases hs : r.spreadSource? scope p with
    | none => simp [hs]
    | some specifier =>
      by_cases hm : specifier ∈ doc.composes
      · simp [hs, hm, List.removeAll]
      · -- what is noted now is left out of what comes later
        have hlater : ∀ l : List String, l.removeAll (doc.composes ++ [specifier]) =
            (l.removeAll doc.composes).filter fun s => !s == specifier := by
          intro l
          rw [List.removeAll, List.removeAll, List.filter_filter]
          refine List.filter_congr fun s _ => ?_
          simp [beq_eq_decide, Bool.and_comm]
        have hfirst : ∀ l : List String,
            (specifier :: l).removeAll doc.composes = specifier :: l.removeAll doc.composes := by
          simp [List.removeAll, hm]
        simp only [hm, if_false, List.filterMap_cons, hs, hlater, hfirst, List.eraseDups_cons, List.append_assoc,
          List.singleton_append]

theorem properties_sequence (ps : List Place) (doc : ComponentDoc) :
    (ps.foldl (r.applyMember scope) doc).properties =
      applyEdits ((ps.filterMap Validation.ofMember?).map Validation.edit) doc.properties := by
  rw [properties_foldl (properties_applyMember r scope)]
  congr 1
  induction ps with
  | nil => rfl
  | cons p rest ih => cases hp : Validation.ofMember? p <;> simp [hp, ih]

/-- The type that a property has in a table. -/
def typeUnder (name : String) (table : Dictionary PropDoc) : Option TypeDoc :=
  (Dictionary.find? table name).bind PropDoc.type

/-- The last member that declares a property gives its type. -/
theorem typeUnder_sequence (ps : List Place) (doc : ComponentDoc) (name : String) :
    typeUnder name (ps.foldl (r.applyMember scope) doc).properties =
      ((membersNaming name ps).getLast?.map declaredType).or (typeUnder name doc.properties) := by
  have hmine : ((ps.filterMap Validation.ofMember?).map Validation.edit).filter (fun e => e.name = name) =
      ((ps.filterMap Validation.ofMember?).filter fun v => v.name = name).map Validation.edit := by
    rw [List.filter_map]
    rfl
  unfold typeUnder
  rw [properties_sequence, find?_applyEdits, hmine]
  cases hlast : (membersNaming name ps).getLast? with
  | none =>
    have hnone := congrArg List.length (validations_naming name ps)
    rw [List.getLast?_eq_none_iff.1 hlast] at hnone
    have hempty : ((ps.filterMap Validation.ofMember?).filter fun v => v.name = name) = [] := by
      simpa using hnone
    rw [hempty]
    rfl
  | some m =>
    have hdeclared : declaredName? m = some name :=
      of_decide_eq_true (List.mem_filter.1 (List.mem_of_getLast? hlast)).2
    obtain ⟨v, hv, _, htype, _, _⟩ := ofMember?_of_declared hdeclared
    have hv' := getLast?_validations hlast
    rw [hv] at hv'
    generalize ((ps.filterMap Validation.ofMember?).filter fun v => v.name = name) = vs at hv' ⊢
    obtain ⟨init, rfl⟩ := List.getLast?_eq_some_iff.1 hv'
    split
    · next hnil => simp at hnil
    · have happlied := (withValidators_spec (init ++ [v]) ((Dictionary.find? doc.properties name).getD .empty)).1
      rw [hv'] at happlied
      rw [editEntry, List.foldl_map, Option.bind_some, Option.map_some, Option.some_or, ← htype]
      exact happlied

end

/-! ## The value of an object -/

/-- Evaluating members from left to right turns a table into another. A table has, under each name, the member that
gives the property. A spread object is evaluated by itself and laid over what was there. Only pairs, shorthands and
spreads are evaluated: methods, accessors and members with a computed key are silent, so the table is the value of the
object as far as those three go. -/
inductive Assembles (spread? : Place → Option Place) : List Place → Dictionary Place → Dictionary Place → Prop
  | nil {t : Dictionary Place} : Assembles spread? [] t t
  | declared {p : Place} {name : String} {rest : List Place} {t t' : Dictionary Place} : declaredName? p = some name →
      Assembles spread? rest (Dictionary.insert name p t) t' → Assembles spread? (p :: rest) t t'
  | spread {p object : Place} {rest : List Place} {value t t' : Dictionary Place} : spread? p = some object →
      Assembles spread? object.namedChildren [] value → Assembles spread? rest (Dictionary.overlay t value) t' →
      Assembles spread? (p :: rest) t t'
  | silent {p : Place} {rest : List Place} {t t' : Dictionary Place} : declaredName? p = none → spread? p = none →
      Assembles spread? rest t t' → Assembles spread? (p :: rest) t t'

/-- Objects that spread objects are nested at most so many levels deep. -/
def ChainsWithin (spread? : Place → Option Place) : Nat → Place → Prop
  | 0, object => ∀ p ∈ object.namedChildren, (spread? p).isNone
  | levels + 1, object => ∀ p ∈ object.namedChildren, ∀ o ∈ spread? p, ChainsWithin spread? levels o

instance ChainsWithin.decidable (spread? : Place → Option Place) :
    ∀ levels object, Decidable (ChainsWithin spread? levels object)
  | 0, object => inferInstanceAs (Decidable (∀ p ∈ object.namedChildren, (spread? p).isNone))
  | levels + 1, object =>
    have := ChainsWithin.decidable spread? levels
    inferInstanceAs (Decidable (∀ p ∈ object.namedChildren, ∀ o ∈ spread? p, ChainsWithin spread? levels o))

/-- Only spreads spread. -/
def OfSpreads (spread? : Place → Option Place) : Prop := ∀ p o, spread? p = some o → p.kind = .spreadElement

theorem declaredName?_of_spread {p : Place} (hk : p.kind = .spreadElement) : declaredName? p = none := by
  simp [declaredName?, hk]

section

variable {spread? : Place → Option Place} (hspread : OfSpreads spread?)

include hspread

theorem Assembles.unique {ps : List Place} {t t₁ t₂ : Dictionary Place} (h₁ : Assembles spread? ps t t₁)
    (h₂ : Assembles spread? ps t t₂) : t₁ = t₂ := by
  have hdeclared : ∀ {p o name}, declaredName? p = some name → spread? p ≠ some o := by
    intro p o name hn ho
    rw [declaredName?_of_spread (hspread p o ho)] at hn
    cases hn
  induction h₁ generalizing t₂ with
  | nil =>
    cases h₂ with
    | nil => rfl
  | declared hn _ ih =>
    cases h₂ with
    | declared hn' h₂ =>
      rw [hn, Option.some.injEq] at hn'
      subst hn'
      exact ih h₂
    | spread ho _ _ => exact absurd ho (hdeclared hn)
    | silent hn' _ _ =>
      rw [hn] at hn'
      cases hn'
  | spread ho _ _ ihvalue ih =>
    cases h₂ with
    | declared hn _ => exact absurd ho (hdeclared hn)
    | spread ho' hvalue h₂ =>
      rw [ho, Option.some.injEq] at ho'
      subst ho'
      obtain rfl := ihvalue hvalue
      exact ih h₂
    | silent _ ho' _ =>
      rw [ho] at ho'
      cases ho'
  | silent hn ho _ ih =>
    cases h₂ with
    | declared hn' _ =>
      rw [hn] at hn'
      cases hn'
    | spread ho' _ _ =>
      rw [ho] at ho'
      cases ho'
    | silent _ _ h₂ => exact ih h₂

end

/-- The value of an object has, under each name, the last of some members that declares it. -/
structure ValueOf (spread? : Place → Option Place) (object : Place) (ps : List Place) (value : Dictionary Place) :
    Prop where
  assembles : Assembles spread? object.namedChildren [] value
  sorted : Dictionary.Sorted value
  last : ∀ name, Dictionary.find? value name = (membersNaming name ps).getLast?

/-- The members put a table in place of another: what they declare comes before what was there. -/
structure Puts (ps : List Place) (t t' : Dictionary Place) : Prop where
  sorted : Dictionary.Sorted t'
  last : ∀ name, Dictionary.find? t' name = (membersNaming name ps).getLast?.or (Dictionary.find? t name)

theorem membersNaming_append (name : String) (ps qs : List Place) :
    membersNaming name (ps ++ qs) = membersNaming name ps ++ membersNaming name qs :=
  List.filter_append ..

theorem Puts.trans {ps qs : List Place} {t t₁ t₂ : Dictionary Place} (h₁ : Puts ps t t₁) (h₂ : Puts qs t₁ t₂) :
    Puts (ps ++ qs) t t₂ where
  sorted := h₂.sorted
  last name := by rw [h₂.last, h₁.last, membersNaming_append, List.getLast?_append, Option.or_assoc]

section

variable {spread? : Place → Option Place} {t : Dictionary Place}

/-- A member without an object to spread puts itself under the name that it declares. -/
theorem assembles_single (ht : Dictionary.Sorted t) {p : Place} (ho : spread? p = none) :
    ∃ t₁, (∀ rest t', Assembles spread? rest t₁ t' → Assembles spread? (p :: rest) t t') ∧ Puts [p] t t₁ := by
  cases hn : declaredName? p with
  | none =>
    refine ⟨t, fun rest t' h => .silent hn ho h, ht, fun name => ?_⟩
    simp [membersNaming, hn]
  | some name =>
    refine ⟨_, fun rest t' h => .declared hn h, ht.insert name p, fun other => ?_⟩
    rw [Dictionary.find?_insert]
    by_cases h : other = name
    · simp [membersNaming, hn, h]
    · simp [membersNaming, hn, h, Ne.symm h]

/-- A member that spreads an object puts the members of its value. -/
theorem assembles_spread (ht : Dictionary.Sorted t) {p object : Place} {ps : List Place} {value : Dictionary Place}
    (ho : spread? p = some object) (hv : ValueOf spread? object ps value) :
    ∃ t₁, (∀ rest t', Assembles spread? rest t₁ t' → Assembles spread? (p :: rest) t t') ∧ Puts ps t t₁ := by
  refine ⟨_, fun rest t' h => .spread ho hv.assembles h, ht.overlay value, fun name => ?_⟩
  rw [Dictionary.find?_overlay hv.sorted.nodup_keys, hv.last]

/-- Members put what each of them puts. -/
theorem assembles_members {f : Place → List Place} {ps : List Place}
    (h : ∀ p ∈ ps, ∀ t, Dictionary.Sorted t →
      ∃ t₁, (∀ rest t', Assembles spread? rest t₁ t' → Assembles spread? (p :: rest) t t') ∧ Puts (f p) t t₁)
    (ht : Dictionary.Sorted t) : ∃ t', Assembles spread? ps t t' ∧ Puts (ps.flatMap f) t t' := by
  induction ps generalizing t with
  | nil => exact ⟨t, .nil, ht, fun name => rfl⟩
  | cons p rest ih =>
    obtain ⟨t₁, hstep, hput⟩ := h p List.mem_cons_self t ht
    obtain ⟨t₂, hrest, hputs⟩ := ih (fun q hq => h q (List.mem_cons_of_mem _ hq)) hput.sorted
    exact ⟨t₂, hstep rest t₂ hrest, by simpa using hput.trans hputs⟩

/-- An object has a value if each of its members puts something. -/
theorem exists_valueOf_members {f : Place → List Place} {object : Place}
    (h : ∀ p ∈ object.namedChildren, ∀ t, Dictionary.Sorted t →
      ∃ t₁, (∀ rest t', Assembles spread? rest t₁ t' → Assembles spread? (p :: rest) t t') ∧ Puts (f p) t t₁) :
    ∃ value, ValueOf spread? object (object.namedChildren.flatMap f) value := by
  obtain ⟨value, ha, hputs⟩ := assembles_members h .nil
  exact ⟨value, ha, hputs.sorted, fun name => (hputs.last name).trans Option.or_none⟩

/-- An object whose chains are not too deep has a value: under each name the last member of its sequence that declares
it. -/
theorem exists_valueOf {levels : Nat} {object : Place} (h : ChainsWithin spread? levels object) :
    ∃ value, ValueOf spread? object (spreadSequence spread? levels object) value := by
  induction levels generalizing object with
  | zero =>
    refine exists_valueOf_members fun p hp t ht => ?_
    obtain ⟨t₁, hstep, hput⟩ := assembles_single ht (Option.isNone_iff_eq_none.1 (h p hp))
    refine ⟨t₁, hstep, hput.sorted, fun name => ?_⟩
    rw [hput.last, spreadSequence.ofMember]
    split
    · next hk => simp [membersNaming, declaredName?_of_spread hk]
    · rfl
  | succ levels ih =>
    refine exists_valueOf_members fun p hp t ht => ?_
    rw [spreadSequence.ofMember]
    cases ho : spread? p with
    | none => exact assembles_single ht ho
    | some o =>
      obtain ⟨inner, hinner⟩ := ih (h p hp o ho)
      exact assembles_spread ht ho hinner

end

/-! ## Comments before what is spread -/

theorem strips_properBare (p : Place) : Strips Place.properChildren p p.properBare := by
  fun_induction Place.properBare p with
  | case1 p q h ih => exact .wrapper h ih
  | case2 p h => exact .done h

theorem properBare_eq {p : Place} (h : p.bare.kind ≠ .comment) : p.properBare = p.bare :=
  strips_iff.1 ((strips_properChildren h).1 (strips_properBare p))

/-- No comment stands where it is read what a member spreads, and what the name that it spreads is bound to. -/
def ClearSpread (scope : Scope) (p : Place) : Prop :=
  ∀ v ∈ Reading.written.spreadValue? p, v.kind ≠ .comment ∧
    (v.kind = .identifier → ∀ b ∈ scope.lookup v.text, b.value.bare.kind ≠ .comment)

/-- No comment stands where it is read what the members of an object spread, so many levels deep. -/
def ClearSpreads (scope : Scope) : Nat → Place → Prop
  | 0, _ => True
  | levels + 1, object => ∀ p ∈ object.namedChildren, ClearSpread scope p ∧
      ∀ o ∈ Reading.written.spreadObject? scope p, ClearSpreads scope levels o

instance (scope : Scope) (p : Place) : Decidable (ClearSpread scope p) :=
  inferInstanceAs (Decidable (∀ v ∈ Reading.written.spreadValue? p, v.kind ≠ .comment ∧
    (v.kind = .identifier → ∀ b ∈ scope.lookup v.text, b.value.bare.kind ≠ .comment)))

instance ClearSpreads.decidable (scope : Scope) : ∀ levels object, Decidable (ClearSpreads scope levels object)
  | 0, _ => .isTrue trivial
  | levels + 1, object =>
    have := ClearSpreads.decidable scope levels
    inferInstanceAs (Decidable (∀ p ∈ object.namedChildren, ClearSpread scope p ∧
      ∀ o ∈ Reading.written.spreadObject? scope p, ClearSpreads scope levels o))

/-- Where no comment stands, the first part of a construct is read as it is meant. -/
theorem head?_parts_proper {p : Place} (h : ∀ q ∈ p.namedChildren.head?, q.bare.kind ≠ .comment) :
    (Reading.proper.parts p).head?.map Reading.proper.bare =
      (Reading.written.parts p).head?.map Reading.written.bare := by
  have hhead : p.properChildren.head? = p.namedChildren.head? := by
    refine head?_properChildren fun q hq hc => h q hq ?_
    rw [bare_of_comment hc, hc]
  show p.properChildren.head?.map Place.properBare = p.namedChildren.head?.map Place.bare
  rw [hhead]
  cases hq : p.namedChildren.head? with
  | none => rfl
  | some q => rw [Option.map_some, Option.map_some, properBare_eq (h q hq)]

theorem spreadValue?_proper {p : Place} (h : ∀ v ∈ Reading.written.spreadValue? p, v.kind ≠ .comment) :
    Reading.proper.spreadValue? p = Reading.written.spreadValue? p := by
  unfold Reading.spreadValue? at h ⊢
  split
  · next hk =>
    simp only [hk, if_true] at h
    exact head?_parts_proper fun q hq => h q.bare (Option.mem_map.2 ⟨q, hq, rfl⟩)
  · rfl

theorem boundObject?_proper {scope : Scope} {v : Place}
    (h : v.kind = .identifier → ∀ b ∈ scope.lookup v.text, b.value.bare.kind ≠ .comment) :
    Reading.proper.boundObject? scope v = Reading.written.boundObject? scope v := by
  unfold Reading.boundObject?
  split
  · next hk =>
    cases hb : scope.lookup v.text with
    | none => rfl
    | some b =>
      have hbare : b.value.properBare = b.value.bare := properBare_eq (h hk b hb)
      simp only [Option.map_some, Reading.proper, Reading.written, hbare]
  · rfl

/-- Where no comment stands, a spread is read as it is meant. -/
theorem ClearSpread.proper {scope : Scope} {p : Place} (h : ClearSpread scope p) :
    Reading.proper.spreadObject? scope p = Reading.written.spreadObject? scope p ∧
      Reading.proper.spreadSource? scope p = Reading.written.spreadSource? scope p := by
  have hvalue := spreadValue?_proper fun v hv => (h v hv).1
  unfold Reading.spreadObject? Reading.spreadSource?
  rw [hvalue]
  cases hv : Reading.written.spreadValue? p with
  | none => exact ⟨rfl, rfl⟩
  | some v =>
    rw [Option.bind_some, Option.bind_some, Option.bind_some, Option.bind_some, boundObject?_proper (h v hv).2]
    exact ⟨rfl, rfl⟩

theorem spreadSource?_of_ne {r : Reading} {scope : Scope} {p : Place} (hk : p.kind ≠ .spreadElement) :
    r.spreadSource? scope p = none := by
  simp [Reading.spreadSource?, Reading.spreadValue?, hk]

/-- The reading sees the sequence that is applied, and the modules that its members name. -/
def Sees (r : Reading) (scope : Scope) (ps ps' : List Place) : Prop :=
  ps' = ps ∧ ∀ p ∈ ps, r.spreadSource? scope p = Reading.written.spreadSource? scope p

theorem ClearSpreads.sees {scope : Scope} {levels : Nat} {object : Place} (h : ClearSpreads scope levels object) :
    Sees .proper scope (spreadSequence (Reading.written.spreadObject? scope) levels object)
      (spreadSequence (Reading.proper.spreadObject? scope) levels object) := by
  induction levels generalizing object with
  | zero =>
    refine ⟨rfl, fun p hp => ?_⟩
    obtain ⟨q, _, hq⟩ := List.mem_flatMap.1 hp
    rw [spreadSequence.ofMember] at hq
    split at hq
    · cases hq
    · next hk =>
      obtain rfl := List.mem_singleton.1 hq
      rw [spreadSource?_of_ne hk, spreadSource?_of_ne hk]
  | succ levels ih =>
    have hmember : ∀ p ∈ object.namedChildren, Sees .proper scope
        (spreadSequence.ofMember (Reading.written.spreadObject? scope) (levels + 1) p)
        (spreadSequence.ofMember (Reading.proper.spreadObject? scope) (levels + 1) p) := by
      intro p hp
      obtain ⟨hobject, hsource⟩ := (h p hp).1.proper
      rw [spreadSequence.ofMember, spreadSequence.ofMember, hobject]
      cases ho : Reading.written.spreadObject? scope p with
      | none => exact ⟨rfl, fun q hq => by rw [List.mem_singleton.1 hq, hsource]⟩
      | some o => exact ih ((h p hp).2 o ho)
    refine ⟨List.flatMap_congr fun p hp => (hmember p hp).1, fun q hq => ?_⟩
    obtain ⟨p, hp, hq⟩ := List.mem_flatMap.1 hq
    exact (hmember p hp).2 q hq

theorem ofSpreads_spreadObject? (r : Reading) (scope : Scope) : OfSpreads (r.spreadObject? scope) := by
  intro p o h
  by_contra hk
  simp [Reading.spreadObject?, Reading.spreadValue?, hk] at h

/-- An object of validators does what its members do from left to right, with the members of spread objects in their
places, four levels deep. The modules that its spreads name are added in the order in which they first come up. If no
chain is deeper, then the object has a value, and each property has the type of the member that is there under its name.
This is so for what is read with comments counted, and with comments left out if none stands before what is spread. -/
theorem spreads_applied_in_place (scope : Scope) (object : Place) (doc : ComponentDoc) {r : Reading}
    (hr : r = .written ∨ r = .proper ∧ ClearSpreads scope 4 object) :
    let members := spreadSequence (r.spreadObject? scope) 4 object
    let after := applyValidators scope spreadLimit object doc
    after = members.foldl (r.applyMember scope) doc ∧
    after.composes =
      doc.composes ++ ((members.filterMap (r.spreadSource? scope)).removeAll doc.composes).eraseDups ∧
    (ChainsWithin (r.spreadObject? scope) 4 object →
      ∃ value, (∀ t, Assembles (r.spreadObject? scope) object.namedChildren [] t ↔ t = value) ∧
        ∀ name, typeUnder name after.properties =
          ((Dictionary.find? value name).map declaredType).or (typeUnder name doc.properties)) := by
  intro members after
  have hsees : Sees r scope (spreadSequence (Reading.written.spreadObject? scope) 4 object) members := by
    rcases hr with rfl | ⟨rfl, hclear⟩
    · exact ⟨rfl, fun _ _ => rfl⟩
    · exact hclear.sees
  have hafter : after = members.foldl (r.applyMember scope) doc := by
    rw [hsees.1]
    refine (applyValidators_eq_sequence scope 4 object doc).trans ?_
    refine List.foldl_ext _ _ doc fun doc p hp => ?_
    rw [Reading.applyMember, Reading.applyMember, hsees.2 p hp]
  refine ⟨hafter, ?_, fun hchains => ?_⟩
  · rw [hafter, composes_foldl]
  · obtain ⟨value, hvalue⟩ := exists_valueOf hchains
    refine ⟨value, fun t => ⟨fun ht => ?_, fun ht => ht ▸ hvalue.assembles⟩, fun name => ?_⟩
    · exact ht.unique (ofSpreads_spreadObject? r scope) hvalue.assembles
    · rw [hafter, typeUnder_sequence, hvalue.last]

def chainLines : List String :=
  ["import O from 'o';\n", "const a = \x7b x: string \x7d;\n", "const b = \x7b ...a, y: bool \x7d;\n",
    "A.propTypes = \x7b ...b, x: number, ...O.propTypes, ...O.other \x7d;"]

/-- The pair of two words at a place. -/
def pairNode (start colon stop : Nat) : Node :=
  .mk .pair ⟨start, stop⟩ none [
    (some .key, .mk .propertyIdentifier ⟨start, colon⟩ none []),
    (some .value, .mk .identifier ⟨colon + 2, stop⟩ none [])]

/-- The declaration of a name for an object. -/
def objectDeclaration (start nameStop stop : Nat) (members : List Node) : Node :=
  .mk .lexicalDeclaration ⟨start, stop⟩ none [
    (none, .mk .variableDeclarator ⟨start + 6, stop - 1⟩ none [
      (some .name, .mk .identifier ⟨start + 6, nameStop⟩ none []),
      (some .value, .mk .object ⟨nameStop + 3, stop - 1⟩ none (members.map (none, ·)))])]

/-- A member that spreads the member of a name. -/
def importedSpread (start dot stop : Nat) : Node :=
  .mk .spreadElement ⟨start, stop⟩ none [
    (none, .mk .memberExpression ⟨start + 3, stop⟩ none [
      (some .object, .mk .identifier ⟨start + 3, dot⟩ none []),
      (some .property, .mk .propertyIdentifier ⟨dot + 1, stop⟩ none [])])]

/-- The assignment to `A.propTypes`. -/
def validatorStatement (start stop : Nat) (members : List Node) : Node :=
  .mk .expressionStatement ⟨start, stop⟩ none [
    (none, .mk .assignmentExpression ⟨start, stop - 1⟩ none [
      (some .left, .mk .memberExpression ⟨start, start + 11⟩ none [
        (some .object, .mk .identifier ⟨start, start + 1⟩ none []),
        (some .property, .mk .propertyIdentifier ⟨start + 2, start + 11⟩ none [])]),
      (some .right, .mk .object ⟨start + 14, stop - 1⟩ none (members.map (none, ·)))])]

def chainProgram : Place :=
  .root ⟨(chainLines.flatMap String.toList).toArray⟩ (.mk .program ⟨0, 135⟩ none [
    (none, .mk .importStatement ⟨0, 18⟩ none [
      (none, .mk .importClause ⟨7, 8⟩ none [(none, .mk .identifier ⟨7, 8⟩ none [])]),
      (some .source, .mk .string ⟨14, 17⟩ none [])]),
    (none, objectDeclaration 19 26 43 [pairNode 31 32 40]),
    (none, objectDeclaration 44 51 72 [
      .mk .spreadElement ⟨56, 60⟩ none [(none, .mk .identifier ⟨59, 60⟩ none [])], pairNode 62 63 69]),
    (none, validatorStatement 73 135 [
      .mk .spreadElement ⟨89, 93⟩ none [(none, .mk .identifier ⟨92, 93⟩ none [])], pairNode 95 96 104,
      importedSpread 106 110 120, importedSpread 122 126 132])])

/-- The object that the last statement assigns. -/
def assignedObject (program : Place) : Place :=
  ((program.namedChildren.getLast?.bind Place.assignment?).map Prod.snd).getD program

/-- A chain of two spreads, a member that comes after them, and two spreads of what is imported. -/
theorem chain_applied_in_place :
    let scope := Scope.ofProgram chainProgram
    let object := assignedObject chainProgram
    let after := applyValidators scope spreadLimit object {}
    ClearSpreads scope 4 object ∧ ChainsWithin (Reading.proper.spreadObject? scope) 4 object ∧
      after.composes = ["o"] ∧
      ∃ value, Assembles (Reading.proper.spreadObject? scope) object.namedChildren [] value ∧
        (∀ name, typeUnder name after.properties = (Dictionary.find? value name).map declaredType) ∧
        (Dictionary.find? value "x").map Place.text = some "x: number" ∧
        (Dictionary.find? value "y").map Place.text = some "y: bool" := by
  intro scope object after
  have hclear : ClearSpreads scope 4 object := by decide +kernel
  have hchains : ChainsWithin (Reading.proper.spreadObject? scope) 4 object := by decide +kernel
  obtain ⟨_, hcomposes, hvalue⟩ := spreads_applied_in_place scope object {} (.inr ⟨rfl, hclear⟩)
  obtain ⟨value, hunique, htype⟩ := hvalue hchains
  obtain ⟨_, hv⟩ := exists_valueOf hchains
  obtain rfl := (hunique _).1 hv.assembles
  refine ⟨hclear, hchains, hcomposes.trans (by decide +kernel), _, hv.assembles, fun name => ?_, ?_, ?_⟩
  · exact (htype name).trans Option.or_none
  · rw [hv.last]
    decide +kernel
  · rw [hv.last]
    decide +kernel

def hiddenLines : List String :=
  ["const base = \x7b x: string \x7d;\n", "A.propTypes = \x7b .../* c */ base \x7d;"]

def hiddenProgram : Place :=
  .root ⟨(hiddenLines.flatMap String.toList).toArray⟩ (.mk .program ⟨0, 62⟩ none [
    (none, objectDeclaration 0 10 27 [pairNode 15 16 24]),
    (none, validatorStatement 28 62 [
      .mk .spreadElement ⟨44, 59⟩ none [
        (none, .mk .comment ⟨47, 54⟩ none []), (none, .mk .identifier ⟨55, 59⟩ none [])]])])

/-- The comment before the name hides the spread: the property `x` of the spread object is lost. -/
theorem comment_hides_spread :
    let scope := Scope.ofProgram hiddenProgram
    let object := assignedObject hiddenProgram
    let members := spreadSequence (Reading.proper.spreadObject? scope) 4 object
    let after := applyValidators scope spreadLimit object {}
    ChainsWithin (Reading.proper.spreadObject? scope) 4 object ∧
      members.filterMap declaredName? = ["x"] ∧ after.properties = [] ∧
      after ≠ members.foldl (Reading.proper.applyMember scope) {} := by
  intro scope object members after
  have hempty : after.properties = [] := by decide +kernel
  have hfolded : (members.foldl (Reading.proper.applyMember scope) {}).properties.map Prod.fst = ["x"] := by
    decide +kernel
  refine ⟨by decide +kernel, by decide +kernel, hempty, fun h => ?_⟩
  rw [← h, hempty] at hfolded
  cases hfolded

end ReactCatalog
