import ReactCatalog.Proofs.Properties
import ReactCatalog.Proofs.Resolution

/-!
# The names of a component

An exported value passes names on its way to a definition: the one that it is exported under, and those that it meets.
Of several exports of one definition the first is kept, and so the names of a component are those that the first
export passes (`names_of_first_export`). What a module assigns to any other name of the component is not taken up.
-/

namespace ReactCatalog

/-- By at most sixteen hops the export leads to a definition at this place. -/
def Exported.LeadsTo (scope : Scope) (e : Exported) (v : Place) : Prop :=
  ∃ n ≤ 16, Reaches Place.namedChildren scope n e.value v ∧ ∃ kind, IsDefinition v kind

/-- The name is the one that the value is exported under, or met on the way from the value. -/
def Exported.Passes (scope : Scope) (e : Exported) (name : String) : Prop :=
  e.name = some name ∨
    ∃ n ≤ 16, ∃ u, Reaches Place.namedChildren scope n e.value u ∧ u.kind = .identifier ∧ u.text = name

/-- The statement assigns a value to a member of a name. -/
def Place.AssignsMember (p : Place) (object key : String) (value : Place) : Prop :=
  ∃ left target, p.assignment? = some (left, value) ∧ left.kind = .memberExpression ∧
    left.field? .object = some target ∧ target.kind = .identifier ∧ target.text = object ∧
    left.fieldText? .property = some key

/-! ## Names met on the way -/

section

variable {scope : Scope} {p q u : Place}

theorem reaches_zero_iff : Reaches Place.namedChildren scope 0 p u ↔ u = p.bare := by
  rw [reaches_iff, valueAfter, Option.some.injEq, eq_comm]

/-- What is reached by way of the next value. -/
theorem reaches_succ_iff {step : Step} (hs : stepOf? scope p.bare = some step) (hq : step.next? = some q) (n : Nat) :
    Reaches Place.namedChildren scope (n + 1) p u ↔ Reaches Place.namedChildren scope n q u := by
  rw [reaches_iff, reaches_iff, valueAfter, hs, Option.bind_some, hq, Option.bind_some]

/-- A name is met at the start or by way of the next value. -/
theorem exists_reaches_succ {step : Step} (hs : stepOf? scope p.bare = some step) (hq : step.next? = some q)
    (hops : Nat) (met : Place → Prop) :
    (∃ n < hops + 1, ∃ u, Reaches Place.namedChildren scope n p u ∧ met u) ↔
      met p.bare ∨ ∃ n < hops, ∃ u, Reaches Place.namedChildren scope n q u ∧ met u := by
  constructor
  · rintro ⟨n, hn, u, hr, hm⟩
    cases n with
    | zero =>
      rw [reaches_zero_iff] at hr
      exact .inl (hr ▸ hm)
    | succ n => exact .inr ⟨n, by omega, u, (reaches_succ_iff hs hq n).1 hr, hm⟩
  · rintro (hm | ⟨n, hn, u, hr, hm⟩)
    · exact ⟨0, by omega, p.bare, reaches_zero_iff.2 rfl, hm⟩
    · exact ⟨n + 1, by omega, u, (reaches_succ_iff hs hq n).2 hr, hm⟩

theorem not_identifier_of_isDefinition {v : Place} {kind : DefinitionKind} (h : IsDefinition v kind) :
    v.kind ≠ .identifier := by
  intro hi
  have hs := stepOf?_of_isDefinition {} h
  simp [stepOf?, hi] at hs

/-- Only identifiers are names of other values. -/
theorem stepOf?_ne_name_of_call {v : Place} (hk : v.kind = .callExpression) (name : String) (b : Binding) :
    stepOf? scope v ≠ some (.name name b) := by
  cases hf : (v.field? .function).bind callName? with
  | none => simp [stepOf?_call_none hk hf]
  | some callName =>
    obtain ⟨callee, hf, hn⟩ := Option.bind_eq_some_iff.1 hf
    rw [stepOf?_call hk hf hn]
    split
    · simp
    · intro h
      obtain ⟨args, _, h⟩ := Option.bind_eq_some_iff.1 h
      obtain ⟨q, _, h⟩ := Option.map_eq_some_iff.1 h
      cases h

theorem stepOf?_eq_name {v : Place} {name : String} {b : Binding} (h : stepOf? scope v = some (.name name b)) :
    v.kind = .identifier ∧ v.text = name := by
  have hs := h
  unfold stepOf? at h
  split at h
  · next hk =>
    obtain ⟨b', _, hb⟩ := Option.map_eq_some_iff.1 h
    cases hb
    exact ⟨hk, rfl⟩
  case h_8 hk => exact absurd hs (stepOf?_ne_name_of_call hk name b)
  case h_9 => cases h
  all_goals
    split at h
    · cases h
    · cases h

theorem mem_addName (names : List String) (name other : String) :
    other ∈ addName names name ↔ other ∈ names ∨ other = name := by
  unfold addName
  split
  · next h =>
    have hm : name ∈ names := by simpa using h
    constructor
    · exact .inl
    · rintro (h | rfl)
      · exact h
      · exact hm
  · simp

/-- The names of a definition: those at hand, and those met on the way. -/
theorem definitionOf?_names {hops : Nat} {names : List String} {declarator : Option Place} {d : Definition}
    (h : definitionOf? scope hops p names declarator = some d) (name : String) :
    name ∈ d.names ↔ name ∈ names ∨
      ∃ n < hops, ∃ u, Reaches Place.namedChildren scope n p u ∧ u.kind = .identifier ∧ u.text = name := by
  induction hops generalizing p names declarator with
  | zero => cases h
  | succ hops ih =>
    unfold definitionOf? at h
    dsimp only at h
    split at h
    · cases h
    · next kind hs =>
      -- the value is the definition: no name is met
      cases h
      refine ⟨.inl, ?_⟩
      rintro (hn | ⟨n, hn, u, hr, hi, _⟩)
      · exact hn
      · have hd : IsDefinition p.bare kind := stepOf?_right hs
        have hzero : n = 0 := by
          apply (Reaches.here (strips_bare p)).eq_zero hd
          rw [Nat.zero_add]
          exact hr
        subst hzero
        rw [reaches_zero_iff.1 hr] at hi
        exact absurd hi (not_identifier_of_isDefinition hd)
    · next other b hs =>
      obtain ⟨hk, ht⟩ := stepOf?_eq_name hs
      rw [ih h, mem_addName, exists_reaches_succ hs rfl hops fun u => u.kind = .identifier ∧ u.text = name, or_assoc]
      have hmet : (p.bare.kind = .identifier ∧ p.bare.text = name) ↔ name = other := by
        rw [and_iff_right hk, ht, eq_comm]
      rw [hmet]
    · next w hs =>
      have hk : p.bare.kind ≠ .identifier := by
        intro hk
        simp [stepOf?, hk] at hs
      rw [ih h, exists_reaches_succ hs rfl hops fun u => u.kind = .identifier ∧ u.text = name]
      simp [hk]

end

/-! ## The first of several exports -/

/-- The first definition that is listed stays in front. -/
theorem foldl_addDistinct_cons (d : Definition) (ds acc : List Definition) :
    ∃ more, ds.foldl addDistinct (d :: acc) = d :: more := by
  induction ds generalizing acc with
  | nil => exact ⟨acc, rfl⟩
  | cons e rest ih =>
    have hstep : ∃ acc', addDistinct (d :: acc) e = d :: acc' := by
      unfold addDistinct
      split
      · exact ⟨acc, rfl⟩
      · exact ⟨acc ++ [e], rfl⟩
    obtain ⟨acc', hacc⟩ := hstep
    rw [List.foldl_cons, hacc]
    exact ih acc'

theorem head?_distinctDefinitions (ds : List Definition) : (distinctDefinitions ds).head? = ds.head? := by
  cases ds with
  | nil => rfl
  | cons d rest =>
    obtain ⟨more, hm⟩ := foldl_addDistinct_cons d rest []
    have hd : distinctDefinitions (d :: rest) = d :: more := hm
    rw [hd]
    rfl

/-- The component of a module is the definition that its first export with a definition leads to. -/
theorem exists_first_export {program : Place} {d : Definition}
    (h : resolve program (Scope.ofProgram program) = .ok d) :
    ∃ before e after, exportedValues program (Scope.ofProgram program) = before ++ e :: after ∧
      (∀ x ∈ before,
        definitionOf? (Scope.ofProgram program) (hopLimit + 1) x.value x.name.toList x.declarator = none) ∧
      definitionOf? (Scope.ofProgram program) (hopLimit + 1) e.value e.name.toList e.declarator = some d := by
  have hhead : (followedExports program).head? = some d := by
    rw [← head?_distinctDefinitions, ← definitions_eq, resolve_eq_ok_iff.1 h]
    rfl
  obtain ⟨rest, hl⟩ := List.head?_eq_some_iff.1 hhead
  obtain ⟨before, e, after, hs, hb, he, _⟩ := List.filterMap_eq_cons_iff.1 hl
  exact ⟨before, e, after, hs, hb, he⟩

theorem not_leadsTo_of_none {scope : Scope} {e : Exported}
    (h : definitionOf? scope (hopLimit + 1) e.value e.name.toList e.declarator = none) (v : Place) :
    ¬ e.LeadsTo scope v := by
  rintro ⟨n, hn, hr, kind, hk⟩
  obtain ⟨d, hd, _⟩ :=
    definitionOf?_complete hr hk (show n < hopLimit + 1 from Nat.lt_succ_of_le hn) e.name.toList e.declarator
  rw [h] at hd
  cases hd

theorem leadsTo_of_some {scope : Scope} {e : Exported} {d : Definition}
    (h : definitionOf? scope (hopLimit + 1) e.value e.name.toList e.declarator = some d) : e.LeadsTo scope d.place := by
  obtain ⟨n, hn, hr, hk⟩ := definitionOf?_sound h
  exact ⟨n, Nat.le_of_lt_succ hn, hr, d.kind, hk⟩

theorem mem_names_iff {scope : Scope} {e : Exported} {d : Definition}
    (h : definitionOf? scope (hopLimit + 1) e.value e.name.toList e.declarator = some d) (name : String) :
    name ∈ d.names ↔ e.Passes scope name := by
  rw [definitionOf?_names h, Option.mem_toList]
  simp only [Exported.Passes, hopLimit, Nat.lt_succ_iff]

/-! ## Static members -/

namespace Statics

/-- A pass that records at most one member of each place. -/
theorem foldl_eq_record {f : Statics → Place → Statics} {member? : Place → Option (String × Place)}
    (h : ∀ s p, f s p = s.note (member? p)) (ps : List Place) (s : Statics) :
    ps.foldl f s = (ps.filterMap member?).foldl (fun s m => s.record m.1 m.2) s := by
  induction ps generalizing s with
  | nil => rfl
  | cons p rest ih =>
    rw [List.foldl_cons, h, ih]
    cases hm : member? p <;> simp [hm, note]

theorem record_displayName (s : Statics) (name : String) (value : Place) :
    (s.record name value).displayName =
      if name = "displayName" then value.bare.stringValue? <|> s.displayName else s.displayName := by
  unfold record
  split
  · simp
  · simp
  · simp
  · next h => rw [if_neg h]

/-- The display name is the last one that is a string. -/
theorem displayName_foldl (ms : List (String × Place)) (s : Statics) :
    (ms.foldl (fun s m => s.record m.1 m.2) s).displayName =
      (((valuesUnder "displayName" ms).filterMap fun v => v.bare.stringValue?).getLast? <|> s.displayName) := by
  induction ms generalizing s with
  | nil => rfl
  | cons m rest ih =>
    obtain ⟨name, value⟩ := m
    rw [List.foldl_cons, ih, record_displayName]
    by_cases hn : name = "displayName"
    · cases hv : value.bare.stringValue? with
      | none => simp [valuesUnder, hn, hv]
      | some text =>
        simp only [valuesUnder, List.filter_cons, hn, decide_true, if_true, List.map_cons, List.filterMap_cons, hv,
          List.getLast?_cons]
        cases (List.filterMap (fun v => v.bare.stringValue?)
          (List.map Prod.snd (List.filter (fun m => m.1 = "displayName") rest))).getLast? <;> rfl
    · simp [valuesUnder, hn]

end Statics

/-- The static members of a component are recorded one after the other. -/
theorem staticsOf_eq_foldl (program : Place) (d : Definition) :
    staticsOf program d = (staticMembers program d).foldl (fun s m => s.record m.1 m.2) {} := by
  unfold staticsOf Statics.addAssigned staticMembers
  rw [Statics.foldl_eq_record (Statics.ofStatement_eq d.names), List.foldl_append]
  congr 1
  unfold ownStatics
  cases d.kind with
  | ofFunction => rfl
  | ofClass =>
    unfold Statics.ofClass
    cases d.place.field? .body with
    | none => rfl
    | some body => exact Statics.foldl_eq_record Statics.ofClassMember_eq _ _
  | ofFactory =>
    cases factoryObject? d.place with
    | none => rfl
    | some object => exact Statics.foldl_eq_record Statics.ofObjectMember_eq _ _

/-- A member that a statement assigns is taken up if it is assigned to one of the names. -/
theorem assignedMember?_eq_some_iff {p : Place} {object key : String} {value : Place}
    (h : p.AssignsMember object key value) (names : List String) :
    Statics.assignedMember? names p = some (key, value) ↔ object ∈ names := by
  obtain ⟨left, target, ha, hl, ht, hi, rfl, hk⟩ := h
  simp [Statics.assignedMember?, ha, ht, hk, hl, hi]

/-- The names of the component of a module are those that its first export with a definition passes. A member that the
module assigns to a name is taken up if the name is one of these, and so are the validators, default properties and
display name of the component. -/
theorem names_of_first_export {program : Place} {d : Definition}
    (h : resolve program (Scope.ofProgram program) = .ok d) :
    let scope := Scope.ofProgram program
    let members := staticMembers program d
    ∃ before e after, exportedValues program scope = before ++ e :: after ∧
      (∀ x ∈ before, ∀ v, ¬ x.LeadsTo scope v) ∧ e.LeadsTo scope d.place ∧
      (∀ name, name ∈ d.names ↔ e.Passes scope name) ∧
      (∀ p object key value, p.AssignsMember object key value →
        (Statics.assignedMember? d.names p = some (key, value) ↔ e.Passes scope object)) ∧
      (staticsOf program d).propTypes = Statics.valuesUnder "propTypes" members ∧
      (staticsOf program d).defaultProps = Statics.valuesUnder "defaultProps" members ∧
      (staticsOf program d).displayName =
        ((Statics.valuesUnder "displayName" members).filterMap fun v => v.bare.stringValue?).getLast? := by
  intro scope members
  obtain ⟨before, e, after, hs, hb, he⟩ := exists_first_export h
  obtain ⟨hpt, hdp⟩ := staticsOf_eq program d
  refine ⟨before, e, after, hs, fun x hx => not_leadsTo_of_none (hb x hx), leadsTo_of_some he, mem_names_iff he, ?_,
    hpt, hdp, ?_⟩
  · intro p object key value ha
    rw [assignedMember?_eq_some_iff ha, mem_names_iff he]
  · rw [staticsOf_eq_foldl, Statics.displayName_foldl]
    cases (List.filterMap (fun v => v.bare.stringValue?) (Statics.valuesUnder "displayName" members)).getLast? <;> rfl

/-- A module with a component has no other: every export that leads to a definition leads to this one. -/
theorem leadsTo_component {program : Place} {d : Definition} (h : resolve program (Scope.ofProgram program) = .ok d)
    {e : Exported} (he : e ∈ exportedValues program (Scope.ofProgram program)) {v : Place}
    (hv : e.LeadsTo (Scope.ofProgram program) v) : e.LeadsTo (Scope.ofProgram program) d.place := by
  obtain ⟨d', hd', hplace⟩ := mem_definitions_of_reached program ⟨e, he, hv⟩
  rw [resolve_eq_ok_iff.1 h, List.mem_singleton] at hd'
  rw [← hd', hplace]
  exact hv

def cardLines : List String :=
  ["function Card() \x7b return <a/>; \x7d\n", "const Memo = memo(Card);\n", "Memo.propTypes = \x7b x: string \x7d;\n",
    "export \x7b Card, Memo \x7d;"]

def cardFunction : Node :=
  .mk .functionDeclaration ⟨0, 32⟩ none [
    (some .name, .mk .identifier ⟨9, 13⟩ none []),
    (some .body, .mk .statementBlock ⟨16, 32⟩ none [
      (none, .mk .returnStatement ⟨18, 30⟩ none [(none, .mk .jsxSelfClosingElement ⟨25, 29⟩ none [])])])]

def cardMemo : Node :=
  .mk .lexicalDeclaration ⟨33, 57⟩ none [
    (none, .mk .variableDeclarator ⟨39, 56⟩ none [
      (some .name, .mk .identifier ⟨39, 43⟩ none []),
      (some .value, .mk .callExpression ⟨46, 56⟩ none [
        (some .function, .mk .identifier ⟨46, 50⟩ none []),
        (some .arguments, .mk .arguments ⟨50, 56⟩ none [(none, .mk .identifier ⟨51, 55⟩ none [])])])])]

def cardValidators : Node :=
  .mk .object ⟨75, 88⟩ none [
    (none, .mk .pair ⟨77, 86⟩ none [
      (some .key, .mk .propertyIdentifier ⟨77, 78⟩ none []), (some .value, .mk .identifier ⟨80, 86⟩ none [])])]

def cardAssignment : Node :=
  .mk .expressionStatement ⟨58, 89⟩ none [
    (none, .mk .assignmentExpression ⟨58, 88⟩ none [
      (some .left, .mk .memberExpression ⟨58, 72⟩ none [
        (some .object, .mk .identifier ⟨58, 62⟩ none []),
        (some .property, .mk .propertyIdentifier ⟨63, 72⟩ none [])]),
      (some .right, cardValidators)])]

/-- A module that exports a function and a wrapper of it, in this order, and assigns validators to the wrapper. -/
def cardProgram : Place :=
  .root ⟨(cardLines.flatMap String.toList).toArray⟩ (.mk .program ⟨0, 112⟩ none [
    (none, cardFunction),
    (none, cardMemo),
    (none, cardAssignment),
    (none, .mk .exportStatement ⟨90, 112⟩ none [
      (none, .mk .exportClause ⟨97, 111⟩ none [
        (none, .mk .exportSpecifier ⟨99, 103⟩ none [(some .name, .mk .identifier ⟨99, 103⟩ none [])]),
        (none, .mk .exportSpecifier ⟨105, 109⟩ none [(some .name, .mk .identifier ⟨105, 109⟩ none [])])])])])

theorem exists_resolve_card :
    ∃ d, resolve cardProgram (Scope.ofProgram cardProgram) = .ok d ∧ d.names = ["Card"] ∧
      (staticsOf cardProgram d).propTypes = [] := by
  have hd : (resolve cardProgram (Scope.ofProgram cardProgram)).toOption.any fun d =>
      d.names == ["Card"] && (staticsOf cardProgram d).propTypes.isEmpty := by
    decide +kernel
  cases hr : resolve cardProgram (Scope.ofProgram cardProgram) with
  | error e => simp [hr, Except.toOption] at hd
  | ok d => exact ⟨d, rfl, by simpa [hr, Except.toOption] using hd⟩

theorem card_names :
    ∃ d, resolve cardProgram (Scope.ofProgram cardProgram) = .ok d ∧
      ∃ e ∈ exportedValues cardProgram (Scope.ofProgram cardProgram), e.LeadsTo (Scope.ofProgram cardProgram) d.place ∧
        e.Passes (Scope.ofProgram cardProgram) "Card" ∧ ¬ e.Passes (Scope.ofProgram cardProgram) "Memo" := by
  obtain ⟨d, hd, hn, _⟩ := exists_resolve_card
  obtain ⟨before, e, after, hs, _, hl, hp, _⟩ := names_of_first_export hd
  have hmemo : "Memo" ∉ d.names := by simp [hn]
  exact ⟨d, hd, e, by simp [hs], hl, (hp "Card").1 (by simp [hn]), fun h => hmemo ((hp "Memo").2 h)⟩

/-- The second export leads to the same definition, but its name is not among those of the component, and what is
assigned to it is not taken up. -/
theorem card_wrapper_dropped :
    ∃ d, resolve cardProgram (Scope.ofProgram cardProgram) = .ok d ∧
      (∃ e ∈ exportedValues cardProgram (Scope.ofProgram cardProgram),
        e.LeadsTo (Scope.ofProgram cardProgram) d.place ∧ e.Passes (Scope.ofProgram cardProgram) "Memo") ∧
      "Memo" ∉ d.names ∧
      (∃ p ∈ cardProgram.namedChildren, ∃ value, p.AssignsMember "Memo" "propTypes" value) ∧
      (staticsOf cardProgram d).propTypes = [] := by
  obtain ⟨d, hd, hn, hpt⟩ := exists_resolve_card
  have hsecond : ∃ e ∈ exportedValues cardProgram (Scope.ofProgram cardProgram), e.name = some "Memo" ∧
      (definitionOf? (Scope.ofProgram cardProgram) (hopLimit + 1) e.value e.name.toList e.declarator).isSome := by
    decide +kernel
  obtain ⟨e, he, hname, hsome⟩ := hsecond
  obtain ⟨d', hd'⟩ := Option.isSome_iff_exists.1 hsome
  have hassigned : ∃ p ∈ cardProgram.namedChildren, ∃ q, p.assignment? = some q ∧ q.1.kind = .memberExpression ∧
      ∃ target, q.1.field? .object = some target ∧ target.kind = .identifier ∧ target.text = "Memo" ∧
        q.1.fieldText? .property = some "propTypes" := by
    decide +kernel
  obtain ⟨p, hp, ⟨left, value⟩, ha, hl, target, ht, hi, hm, hk⟩ := hassigned
  exact ⟨d, hd, ⟨e, he, leadsTo_component hd he (leadsTo_of_some hd'), .inl hname⟩, by simp [hn],
    ⟨p, hp, value, left, target, ha, hl, ht, hi, hm, hk⟩, hpt⟩

end ReactCatalog
