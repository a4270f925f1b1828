import Mathlib.Data.Set.Card
import ReactCatalog.Proofs.Places

/-!
# Resolution follows values to definitions

A value is stripped of its wrappers. It is then a definition, or a name or a call from which one hop leads to another
value, or a dead end. `Reaches` is that relation, with the number of hops. Resolving a module gives the one definition
that its exports reach by at most sixteen hops, or says how many there are (`resolve_reached`).

Which children of a node count is a parameter: resolution counts all named ones (`Place.namedChildren`), and so takes
a comment for an argument; a reader of the module does not (`Place.properChildren`).
-/

namespace ReactCatalog

/-! ## Definitions and hops -/

/-- The named children that are no comments. -/
def Place.properChildren (p : Place) : List Place := p.namedChildren.filter fun c => c.kind != .comment

def functionKinds : List Kind :=
  [.functionDeclaration, .functionExpression, .arrowFunction, .generatorFunctionDeclaration]

def classKinds : List Kind := [.classDeclaration, .classExpression]

def calleeKinds : List Kind := [.identifier, .memberExpression, .callExpression]

/-- A call of something by one of the names, alone or as a member. -/
def Place.Calls (v : Place) (names : List String) : Prop :=
  v.kind = .callExpression ∧
    ∃ callee name, v.field? .function = some callee ∧ callee.calledName? = some name ∧ name ∈ names

/-- A call of a name, a member, or what another call returns. -/
def Place.IsPlainCall (v : Place) : Prop :=
  v.kind = .callExpression ∧ ∃ callee, v.field? .function = some callee ∧ callee.kind ∈ calleeKinds

/-- The value defines a component in this way. -/
inductive IsDefinition (v : Place) : DefinitionKind → Prop
  | ofFunction : v.kind ∈ functionKinds → v.rendersElements = true → IsDefinition v .ofFunction
  | ofClass : v.kind ∈ classKinds → v.isComponentClass = true → IsDefinition v .ofClass
  | ofFactory : v.Calls factoryNames → IsDefinition v .ofFactory

/-- What is inside a construct that does not change what a value is. -/
def insideBy (view : Place → List Place) (p : Place) : Option Place :=
  match p.kind with
  | .parenthesizedExpression | .asExpression | .satisfiesExpression | .nonNullExpression => (view p).head?
  | .typeAssertion => (view p).getLast?
  | _ => none

/-- The value `p` is `v` once its wrappers are taken off. -/
inductive Strips (view : Place → List Place) : Place → Place → Prop
  | done {p : Place} : insideBy view p = none → Strips view p p
  | wrapper {p q v : Place} : insideBy view p = some q → Strips view q v → Strips view p v

/-- One hop from a value without wrappers: from a name to what it is bound to, from a call to an argument. -/
inductive Hop (view : Place → List Place) (scope : Scope) (v : Place) : Place → Prop
  | name {b : Binding} : v.kind = .identifier → scope.lookup v.text = some b → Hop view scope v b.value
  | first {args q : Place} : v.Calls wrapperNames → v.field? .arguments = some args → (view args).head? = some q →
      Hop view scope v q
  | last {args q : Place} : v.IsPlainCall → ¬ v.Calls factoryNames → ¬ v.Calls wrapperNames →
      v.field? .arguments = some args → (view args).getLast? = some q → Hop view scope v q

/-- By that many hops the value `p` leads to the value `v`, which has no wrappers. -/
inductive Reaches (view : Place → List Place) (scope : Scope) : Nat → Place → Place → Prop
  | here {p v : Place} : Strips view p v → Reaches view scope 0 p v
  | hop {n : Nat} {p u q v : Place} : Strips view p u → Hop view scope u q → Reaches view scope n q v →
      Reaches view scope (n + 1) p v

/-- The definitions that the exports of a module reach. -/
def reachedDefinitions (view : Place → List Place) (program : Place) : Set Place :=
  {v | ∃ e ∈ exportedValues program (Scope.ofProgram program), ∃ n ≤ 16,
    Reaches view (Scope.ofProgram program) n e.value v ∧ ∃ kind, IsDefinition v kind}

/-! ## Stripping -/

theorem strips_bare (p : Place) : Strips Place.namedChildren p p.bare := by
  fun_induction Place.bare p with
  | case1 p q h ih => exact .wrapper h ih
  | case2 p h => exact .done h

theorem Strips.unique {view : Place → List Place} {p v w : Place} (hv : Strips view p v) (hw : Strips view p w) :
    v = w := by
  induction hv with
  | done h =>
    cases hw with
    | done _ => rfl
    | wrapper h' _ => simp [h] at h'
  | wrapper h _ ih =>
    cases hw with
    | done h' => simp [h] at h'
    | wrapper h' hw =>
      rw [h, Option.some.injEq] at h'
      subst h'
      exact ih hw

/-- What is left has no wrappers. -/
theorem Strips.self {view : Place → List Place} {p v : Place} (h : Strips view p v) : Strips view v v := by
  induction h with
  | done hi => exact .done hi
  | wrapper _ _ ih => exact ih

theorem strips_iff {p v : Place} : Strips Place.namedChildren p v ↔ v = p.bare := by
  constructor
  · intro h
    exact h.unique (strips_bare p)
  · rintro rfl
    exact strips_bare p

/-! ## Steps -/

theorem callName?_isSome_iff (callee : Place) : (callName? callee).isSome ↔ callee.kind ∈ calleeKinds := by
  unfold callName? calleeKinds
  split
  · next h => simp [h]
  · next h => simp [h]
  · next h => simp [h]
  · next h₁ h₂ h₃ =>
    simp only [Option.isSome_none, Bool.false_eq_true, List.mem_cons, List.not_mem_nil, or_false, false_iff]
    rintro (h | h | h)
    · exact h₁ h
    · exact h₂ h
    · exact h₃ h

/-- The name of a callee is the one it is called by, unless it has none. -/
theorem callName?_mem {callee : Place} {name : String} {names : List String} (hempty : "" ∉ names)
    (h : callName? callee = some name) :
    name ∈ names ↔ ∃ other, callee.calledName? = some other ∧ other ∈ names := by
  unfold callName? at h
  unfold Place.calledName?
  split at h
  · next hk =>
    cases h
    simp [hk]
  · next hk =>
    simp only [Option.some.injEq] at h
    subst h
    simp only [hk]
    cases callee.fieldText? .property with
    | none => simp [hempty]
    | some t => simp
  · next hk =>
    cases h
    simp [hk, hempty]
  · cases h

/-- A call by its callee. -/
theorem calls_iff {v callee : Place} {name : String} {names : List String} (hempty : "" ∉ names)
    (hk : v.kind = .callExpression) (hf : v.field? .function = some callee) (hn : callName? callee = some name) :
    v.Calls names ↔ name ∈ names := by
  rw [callName?_mem hempty hn]
  unfold Place.Calls
  constructor
  · rintro ⟨_, callee', other, hf', h⟩
    rw [hf, Option.some.injEq] at hf'
    subst hf'
    exact ⟨other, h⟩
  · rintro ⟨other, h⟩
    exact ⟨hk, callee, other, hf, h⟩

theorem empty_not_mem_wrapperNames : "" ∉ wrapperNames := by decide

theorem empty_not_mem_factoryNames : "" ∉ factoryNames := by decide

/-- The value that a step goes on with. -/
def Step.next? : Step → Option Place
  | found _ => none
  | name _ b => some b.value
  | wrapped w => some w

theorem stepOf?_call {scope : Scope} {v callee : Place} {name : String} (hk : v.kind = .callExpression)
    (hf : v.field? .function = some callee) (hn : callName? callee = some name) :
    stepOf? scope v =
      if name ∈ factoryNames then some (.found .ofFactory)
      else (v.field? .arguments).bind fun args =>
        (if name ∈ wrapperNames then args.namedChildren.head? else args.namedChildren.getLast?).map .wrapped := by
  simp [stepOf?, hk, hf, hn]

/-- What a call without a plain callee leads to: nothing. -/
theorem stepOf?_call_none {scope : Scope} {v : Place} (hk : v.kind = .callExpression)
    (h : (v.field? .function).bind callName? = none) : stepOf? scope v = none := by
  cases hf : v.field? .function with
  | none => simp [stepOf?, hk, hf]
  | some callee =>
    have hn : callName? callee = none := by simpa [hf] using h
    simp [stepOf?, hk, hf, hn]

theorem Place.IsPlainCall.exists_name {v : Place} (h : v.IsPlainCall) :
    ∃ callee name, v.field? .function = some callee ∧ callName? callee = some name := by
  obtain ⟨_, callee, hf, hc⟩ := h
  obtain ⟨name, hn⟩ := Option.isSome_iff_exists.1 ((callName?_isSome_iff callee).2 hc)
  exact ⟨callee, name, hf, hn⟩

theorem Place.Calls.isPlainCall {v : Place} {names : List String} (h : v.Calls names) : v.IsPlainCall := by
  obtain ⟨hk, callee, name, hf, hn, _⟩ := h
  refine ⟨hk, callee, hf, ?_⟩
  unfold Place.calledName? at hn
  unfold calleeKinds
  split at hn
  · next hi => simp [hi]
  · next hm => simp [hm]
  · cases hn

theorem stepOf?_of_isDefinition {v : Place} {kind : DefinitionKind} (scope : Scope) (h : IsDefinition v kind) :
    stepOf? scope v = some (.found kind) := by
  cases h with
  | ofFunction hk hr =>
    simp only [functionKinds, List.mem_cons, List.not_mem_nil, or_false] at hk
    rcases hk with hk | hk | hk | hk <;> simp [stepOf?, hk, hr]
  | ofClass hk hc =>
    simp only [classKinds, List.mem_cons, List.not_mem_nil, or_false] at hk
    rcases hk with hk | hk <;> simp [stepOf?, hk, hc]
  | ofFactory h =>
    obtain ⟨callee, name, hf, hn⟩ := h.isPlainCall.exists_name
    rw [stepOf?_call h.1 hf hn, if_pos ((calls_iff empty_not_mem_factoryNames h.1 hf hn).1 h)]

theorem next?_of_hop {scope : Scope} {v q : Place} (h : Hop Place.namedChildren scope v q) :
    (stepOf? scope v).bind Step.next? = some q := by
  cases h with
  | name hk hb => simp [stepOf?, hk, hb, Step.next?]
  | @first args _ hc ha hq =>
    obtain ⟨callee, name, hf, hn⟩ := hc.isPlainCall.exists_name
    have hw : name ∈ wrapperNames := (calls_iff empty_not_mem_wrapperNames hc.1 hf hn).1 hc
    have hd : name ∉ factoryNames := by
      intro h
      revert h hw
      simp only [wrapperNames, factoryNames, List.mem_cons, List.not_mem_nil, or_false]
      rintro (rfl | rfl) <;> decide
    rw [stepOf?_call hc.1 hf hn, if_neg hd, ha]
    simp [hw, hq, Step.next?]
  | @last args _ hc hnf hnw ha hq =>
    obtain ⟨callee, name, hf, hn⟩ := hc.exists_name
    rw [calls_iff empty_not_mem_factoryNames hc.1 hf hn] at hnf
    rw [calls_iff empty_not_mem_wrapperNames hc.1 hf hn] at hnw
    rw [stepOf?_call hc.1 hf hn, if_neg hnf, ha]
    simp [hnw, hq, Step.next?]

/-- The step is to a definition, or by a hop. -/
def Step.Right (scope : Scope) (v : Place) : Step → Prop
  | found kind => IsDefinition v kind
  | name _ b => Hop Place.namedChildren scope v b.value
  | wrapped w => Hop Place.namedChildren scope v w

theorem stepOf?_call_right {scope : Scope} {v : Place} {step : Step} (hk : v.kind = .callExpression)
    (h : stepOf? scope v = some step) : step.Right scope v := by
  cases hf : (v.field? .function).bind callName? with
  | none =>
    rw [stepOf?_call_none hk hf] at h
    cases h
  | some name =>
    obtain ⟨callee, hf, hn⟩ := Option.bind_eq_some_iff.1 hf
    have hp : v.IsPlainCall := ⟨hk, callee, hf, (callName?_isSome_iff callee).1 (by simp [hn])⟩
    have hfactory := calls_iff empty_not_mem_factoryNames hk hf hn
    have hwrapper := calls_iff empty_not_mem_wrapperNames hk hf hn
    rw [stepOf?_call hk hf hn] at h
    split at h
    · next hd =>
      cases h
      exact .ofFactory (hfactory.2 hd)
    · next hd =>
      obtain ⟨args, ha, h⟩ := Option.bind_eq_some_iff.1 h
      obtain ⟨q, hq, rfl⟩ := Option.map_eq_some_iff.1 h
      split at hq
      · next hw => exact .first (hwrapper.2 hw) ha hq
      · next hw => exact .last hp (fun hc => hd (hfactory.1 hc)) (fun hc => hw (hwrapper.1 hc)) ha hq

theorem stepOf?_right {scope : Scope} {v : Place} {step : Step} (h : stepOf? scope v = some step) :
    step.Right scope v := by
  have hdefinition : ∀ {c : Bool} {kind : DefinitionKind}, (c = true → IsDefinition v kind) →
      (if c then some (Step.found kind) else none) = some step → step.Right scope v := by
    intro c kind hc h
    split at h
    · next hr =>
      cases h
      exact hc hr
    · cases h
  have hs := h
  unfold stepOf? at h
  split at h
  · next hk =>
    obtain ⟨b, hb, rfl⟩ := Option.map_eq_some_iff.1 h
    exact .name hk hb
  · next hk => exact hdefinition (.ofFunction (by simp [hk, functionKinds])) h
  · next hk => exact hdefinition (.ofFunction (by simp [hk, functionKinds])) h
  · next hk => exact hdefinition (.ofFunction (by simp [hk, functionKinds])) h
  · next hk => exact hdefinition (.ofFunction (by simp [hk, functionKinds])) h
  · next hk => exact hdefinition (.ofClass (by simp [hk, classKinds])) h
  · next hk => exact hdefinition (.ofClass (by simp [hk, classKinds])) h
  · next hk => exact stepOf?_call_right hk hs
  · cases h

/-! ## Following a value -/

theorem definitionOf?_sound {scope : Scope} {hops : Nat} {p : Place} {names : List String} {declarator : Option Place}
    {d : Definition} (h : definitionOf? scope hops p names declarator = some d) :
    ∃ n < hops, Reaches Place.namedChildren scope n p d.place ∧ IsDefinition d.place d.kind := by
  induction hops generalizing p names declarator with
  | zero => cases h
  | succ hops ih =>
    unfold definitionOf? at h
    dsimp only at h
    split at h
    · cases h
    · next kind hs =>
      cases h
      exact ⟨0, by omega, .here (strips_bare p), stepOf?_right hs⟩
    · next name b hs =>
      obtain ⟨n, hn, hr, hd⟩ := ih h
      exact ⟨n + 1, by omega, .hop (strips_bare p) (stepOf?_right hs) hr, hd⟩
    · next w hs =>
      obtain ⟨n, hn, hr, hd⟩ := ih h
      exact ⟨n + 1, by omega, .hop (strips_bare p) (stepOf?_right hs) hr, hd⟩

theorem definitionOf?_complete {scope : Scope} {n : Nat} {p v : Place} {kind : DefinitionKind}
    (hr : Reaches Place.namedChildren scope n p v) (hd : IsDefinition v kind) {hops : Nat} (hn : n < hops)
    (names : List String) (declarator : Option Place) :
    ∃ d, definitionOf? scope hops p names declarator = some d ∧ d.place = v ∧ d.kind = kind := by
  induction hr generalizing hops names declarator with
  | here hs =>
    obtain ⟨hops, rfl⟩ : ∃ k, hops = k + 1 := ⟨hops - 1, by omega⟩
    rw [strips_iff] at hs
    subst hs
    exact ⟨⟨_, kind, names, declarator⟩, by simp [definitionOf?, stepOf?_of_isDefinition scope hd], rfl, rfl⟩
  | hop hs hq _ ih =>
    obtain ⟨hops, rfl⟩ : ∃ k, hops = k + 1 := ⟨hops - 1, by omega⟩
    rw [strips_iff] at hs
    subst hs
    obtain ⟨step, hstep, hnext⟩ := Option.bind_eq_some_iff.1 (next?_of_hop hq)
    cases step with
    | found kind => cases hnext
    | name name b =>
      cases hnext
      simpa [definitionOf?, hstep] using ih hd (by omega) (addName names name) (b.declarator <|> declarator)
    | wrapped w =>
      cases hnext
      simpa [definitionOf?, hstep] using ih hd (by omega) names declarator

theorem hop_iff {scope : Scope} {v q : Place} :
    Hop Place.namedChildren scope v q ↔ (stepOf? scope v).bind Step.next? = some q := by
  constructor
  · exact next?_of_hop
  · intro h
    obtain ⟨step, hs, hq⟩ := Option.bind_eq_some_iff.1 h
    have hr := stepOf?_right hs
    cases step with
    | found kind => cases hq
    | name name b =>
      cases hq
      exact hr
    | wrapped w =>
      cases hq
      exact hr

/-- The value without wrappers that so many hops lead to. -/
def valueAfter (scope : Scope) : Nat → Place → Option Place
  | 0, p => some p.bare
  | n + 1, p => ((stepOf? scope p.bare).bind Step.next?).bind (valueAfter scope n)

theorem reaches_iff {scope : Scope} {n : Nat} {p v : Place} :
    Reaches Place.namedChildren scope n p v ↔ valueAfter scope n p = some v := by
  constructor
  · intro h
    induction h with
    | here hs => rw [strips_iff.1 hs, valueAfter]
    | hop hs hq _ ih =>
      rw [strips_iff.1 hs, hop_iff] at hq
      rw [valueAfter, hq, Option.bind_some, ih]
  · intro h
    induction n generalizing p with
    | zero =>
      cases h
      exact .here (strips_bare p)
    | succ n ih =>
      obtain ⟨q, hq, h⟩ := Option.bind_eq_some_iff.1 h
      exact .hop (strips_bare p) (hop_iff.2 hq) (ih h)

theorem bare_bare (p : Place) : p.bare.bare = p.bare := (strips_iff.1 (strips_bare p).self).symm

/-- There is one way only: what is reached by more hops is reached by way of what is reached by fewer. -/
theorem valueAfter_add (scope : Scope) (n j : Nat) (p : Place) :
    valueAfter scope (n + j) p = (valueAfter scope n p).bind (valueAfter scope j) := by
  induction n generalizing p with
  | zero =>
    rw [Nat.zero_add, valueAfter, Option.bind_some]
    cases j with
    | zero => simp only [valueAfter, bare_bare]
    | succ j => simp only [valueAfter, bare_bare]
  | succ n ih =>
    rw [show n + 1 + j = n + j + 1 by omega]
    simp only [valueAfter, funext ih, Option.bind_assoc]

namespace Reaches

variable {scope : Scope} {p q u v : Place} {n j k : Nat}

theorem tail (h : Reaches Place.namedChildren scope n p v) (hu : Reaches Place.namedChildren scope (n + j) p u) :
    Reaches Place.namedChildren scope j v u := by
  rw [reaches_iff] at h hu ⊢
  rw [valueAfter_add, h, Option.bind_some] at hu
  exact hu

/-- No hop leads on from a definition. -/
theorem eq_zero {kind : DefinitionKind} (h : Reaches Place.namedChildren scope n p v) (hd : IsDefinition v kind)
    (hu : Reaches Place.namedChildren scope (n + j) p u) : j = 0 := by
  have hv : v.bare = v := by
    rw [reaches_iff] at h
    have hself := valueAfter_add scope n 0 p
    rw [Nat.add_zero, h, Option.bind_some, valueAfter, Option.some.injEq] at hself
    exact hself.symm
  cases j with
  | zero => rfl
  | succ j =>
    have hj := h.tail hu
    rw [reaches_iff, valueAfter, hv, stepOf?_of_isDefinition scope hd] at hj
    cases hj

/-- No definition is reached from a value that leads back to itself. -/
theorem no_definition_of_cycle (hc : Reaches Place.namedChildren scope (k + 1) u u)
    (h : Reaches Place.namedChildren scope n u v) (kind : DefinitionKind) : ¬ IsDefinition v kind := by
  intro hd
  induction n using Nat.strongRecOn with
  | ind n ih =>
    by_cases hle : n ≤ k
    · -- the value is on the cycle, so a hop leads on from it
      have hzero : k + 1 - n = 0 := by
        apply h.eq_zero hd
        rw [show n + (k + 1 - n) = k + 1 by omega]
        exact hc
      omega
    · have hless : Reaches Place.namedChildren scope (n - (k + 1)) u v := by
        apply hc.tail
        rw [show k + 1 + (n - (k + 1)) = n by omega]
        exact h
      exact ih (n - (k + 1)) (by omega) hless

/-- Everything that is reached lies within the tree. -/
theorem within {top : Place} (hs : scope.Inside top) (hp : Within top p)
    (h : Reaches Place.namedChildren scope n p v) : Within top v := by
  induction h with
  | here hv =>
    rw [strips_iff.1 hv]
    exact hp.bare
  | hop hu hq _ ih =>
    rw [strips_iff.1 hu] at hq
    apply ih
    cases hq with
    | name _ hb => exact hs _ _ hb
    | first _ ha hq => exact (hp.bare.field ha).named (List.mem_of_head? hq)
    | last _ _ _ ha hq => exact (hp.bare.field ha).named (List.mem_of_getLast? hq)

end Reaches

/-- Nothing is found by way of a value that leads to no definition. -/
theorem definitionOf?_of_dead_end {scope : Scope} {p u : Place} {m : Nat} (hu : Reaches Place.namedChildren scope m p u)
    (hno : ∀ {n v}, Reaches Place.namedChildren scope n u v → ∀ kind, ¬ IsDefinition v kind) (hops : Nat)
    (names : List String) (declarator : Option Place) : definitionOf? scope hops p names declarator = none := by
  cases h : definitionOf? scope hops p names declarator with
  | none => rfl
  | some d =>
    obtain ⟨n, _, hr, hd⟩ := definitionOf?_sound h
    exfalso
    by_cases hle : n < m
    · have hzero : m - n = 0 := by
        apply hr.eq_zero hd
        rw [show n + (m - n) = m by omega]
        exact hu
      omega
    · have hlater : Reaches Place.namedChildren scope (n - m) u d.place := by
        apply hu.tail
        rw [show m + (n - m) = n by omega]
        exact hr
      exact hno hlater d.kind hd

theorem definitionOf?_of_cycle {scope : Scope} {p u : Place} {m k : Nat}
    (hu : Reaches Place.namedChildren scope m p u) (hc : Reaches Place.namedChildren scope (k + 1) u u) (hops : Nat)
    (names : List String) (declarator : Option Place) : definitionOf? scope hops p names declarator = none :=
  definitionOf?_of_dead_end hu (fun hr => hc.no_definition_of_cycle hr) hops names declarator

/-! ## Definitions that are listed once -/

/-- One step of listing: a definition is added unless one at its place is there. -/
def addDistinct (acc : List Definition) (d : Definition) : List Definition :=
  if acc.any fun e => e.place.path == d.place.path then acc else acc ++ [d]

/-- The definitions differ in their places. -/
def Distinct (ds : List Definition) : Prop := (ds.map fun d => d.place.path).Nodup

theorem distinct_addDistinct {acc : List Definition} (h : Distinct acc) (d : Definition) :
    Distinct (addDistinct acc d) := by
  unfold addDistinct
  split
  · exact h
  · next hn =>
    unfold Distinct at h ⊢
    rw [List.map_append, List.nodup_append]
    refine ⟨h, by simp, ?_⟩
    rintro path hpath other hother rfl
    obtain ⟨e, he, rfl⟩ := List.mem_map.1 hpath
    apply hn
    rw [List.any_eq_true]
    exact ⟨e, he, by simpa using hother⟩

/-- A step of listing keeps what is listed and lists the place of the definition. -/
theorem mem_addDistinct (acc : List Definition) (d : Definition) :
    (∀ e ∈ acc, e ∈ addDistinct acc d) ∧ (∀ e ∈ addDistinct acc d, e ∈ acc ∨ e = d) ∧
      ∃ e ∈ addDistinct acc d, e.place.path = d.place.path := by
  unfold addDistinct
  split
  · next h =>
    obtain ⟨e, he, hp⟩ := List.any_eq_true.1 h
    exact ⟨fun _ h => h, fun _ h => .inl h, e, he, by simpa using hp⟩
  · refine ⟨fun e he => List.mem_append_left _ he, ?_, d, by simp, rfl⟩
    intro e he
    rcases List.mem_append.1 he with he | he
    · exact .inl he
    · exact .inr (List.mem_singleton.1 he)

theorem foldl_addDistinct (ds acc : List Definition) (hacc : Distinct acc) :
    Distinct (ds.foldl addDistinct acc) ∧ (∀ e ∈ acc, e ∈ ds.foldl addDistinct acc) ∧
      (∀ e ∈ ds.foldl addDistinct acc, e ∈ acc ∨ e ∈ ds) ∧
      ∀ d ∈ ds, ∃ e ∈ ds.foldl addDistinct acc, e.place.path = d.place.path := by
  induction ds generalizing acc with
  | nil => exact ⟨hacc, fun _ h => h, fun _ h => .inl h, by simp⟩
  | cons d rest ih =>
    obtain ⟨hkeep, honly, e, he, hp⟩ := mem_addDistinct acc d
    obtain ⟨h₁, h₂, h₃, h₄⟩ := ih (addDistinct acc d) (distinct_addDistinct hacc d)
    refine ⟨h₁, fun x hx => h₂ x (hkeep x hx), ?_, ?_⟩
    · intro x hx
      rcases h₃ x hx with hx | hx
      · rcases honly x hx with hx | rfl
        · exact .inl hx
        · exact .inr (by simp)
      · exact .inr (List.mem_cons_of_mem _ hx)
    · intro x hx
      rcases List.mem_cons.1 hx with rfl | hx
      · exact ⟨e, h₂ e he, hp⟩
      · exact h₄ x hx

/-- Listing definitions: their places are listed once each. -/
theorem distinctDefinitions_spec (ds : List Definition) :
    Distinct (distinctDefinitions ds) ∧ (∀ e ∈ distinctDefinitions ds, e ∈ ds) ∧
      ∀ d ∈ ds, ∃ e ∈ distinctDefinitions ds, e.place.path = d.place.path := by
  obtain ⟨h₁, _, h₃, h₄⟩ := foldl_addDistinct ds [] List.nodup_nil
  refine ⟨h₁, ?_, h₄⟩
  intro e he
  rcases h₃ e he with h | h
  · cases h
  · exact h

section

variable (program : Place)

/-- The definitions that the exports of a module lead to, one for each export that leads to one. -/
def followedExports : List Definition :=
  (exportedValues program (Scope.ofProgram program)).filterMap fun e =>
    definitionOf? (Scope.ofProgram program) (hopLimit + 1) e.value e.name.toList e.declarator

theorem definitions_eq :
    definitions program (Scope.ofProgram program) = distinctDefinitions (followedExports program) := rfl

/-- Every definition of a module is reached from an export. -/
theorem reached_of_mem_definitions {d : Definition} (h : d ∈ definitions program (Scope.ofProgram program)) :
    d.place ∈ reachedDefinitions Place.namedChildren program ∧ IsDefinition d.place d.kind := by
  rw [definitions_eq] at h
  obtain ⟨e, he, hd⟩ := List.mem_filterMap.1 ((distinctDefinitions_spec _).2.1 d h)
  obtain ⟨n, hn, hr, hk⟩ := definitionOf?_sound hd
  exact ⟨⟨e, he, n, Nat.le_of_lt_succ hn, hr, d.kind, hk⟩, hk⟩

theorem within_of_reached {v : Place} (h : v ∈ reachedDefinitions Place.namedChildren program) : Within program v := by
  obtain ⟨e, he, n, _, hr, _⟩ := h
  have hs := Scope.Inside.ofProgram program
  exact hr.within hs (within_of_exportedValues hs he)

/-- Every definition that an export reaches is among those of the module. -/
theorem mem_definitions_of_reached {v : Place} (h : v ∈ reachedDefinitions Place.namedChildren program) :
    ∃ d ∈ definitions program (Scope.ofProgram program), d.place = v := by
  obtain ⟨e, he, n, hn, hr, kind, hk⟩ := h
  obtain ⟨d, hd, rfl, _⟩ :=
    definitionOf?_complete hr hk (show n < hopLimit + 1 from Nat.lt_succ_of_le hn) e.name.toList e.declarator
  have hfollowed : d ∈ followedExports program := List.mem_filterMap.2 ⟨e, he, hd⟩
  obtain ⟨d', hd', hp⟩ := (distinctDefinitions_spec _).2.2 d hfollowed
  -- the listed definition has the same path, and both places are in one tree
  have hw' := within_of_reached program (reached_of_mem_definitions program hd').1
  have hw := within_of_reached program ⟨e, he, n, hn, hr, kind, hk⟩
  exact ⟨d', hd', hw'.eq_of_path hw hp⟩

theorem reachedDefinitions_eq :
    reachedDefinitions Place.namedChildren program =
      {v | v ∈ (definitions program (Scope.ofProgram program)).map Definition.place} := by
  ext v
  simp only [Set.mem_ofPred_eq, List.mem_map]
  constructor
  · exact mem_definitions_of_reached program
  · rintro ⟨d, hd, rfl⟩
    exact (reached_of_mem_definitions program hd).1

theorem encard_reachedDefinitions :
    (reachedDefinitions Place.namedChildren program).encard =
      (definitions program (Scope.ofProgram program)).length := by
  classical
  have hn : ((definitions program (Scope.ofProgram program)).map Definition.place).Nodup := by
    have h := (distinctDefinitions_spec (followedExports program)).1
    unfold Distinct at h
    rw [show (fun d : Definition => d.place.path) = Place.path ∘ Definition.place from rfl, ← List.map_map] at h
    exact h.of_map
  rw [reachedDefinitions_eq, ← List.coe_toFinset, Set.encard_coe_eq_coe_finsetCard, List.toFinset_card_of_nodup hn,
    List.length_map]

end

/-! ## Comments among arguments -/

/-- All values on the way from `p` are so, for so many hops. -/
def OnWay (P : Place → Prop) (scope : Scope) (hops : Nat) (p : Place) : Prop :=
  ∀ n ≤ hops, ∀ v, Reaches Place.namedChildren scope n p v → P v

instance (P : Place → Prop) [DecidablePred P] (scope : Scope) (hops : Nat) (p : Place) :
    Decidable (OnWay P scope hops p) :=
  decidable_of_iff (∀ n ≤ hops, ∀ v ∈ valueAfter scope n p, P v) (by
    simp only [OnWay, reaches_iff, Option.mem_def])

namespace OnWay

variable {P : Place → Prop} {scope : Scope} {hops : Nat} {p q u : Place}

theorem bare (h : OnWay P scope hops p) : P p.bare :=
  h 0 (Nat.zero_le hops) p.bare (.here (strips_bare p))

theorem of_hop (h : OnWay P scope (hops + 1) p) (hs : Strips Place.namedChildren p u)
    (hq : Hop Place.namedChildren scope u q) : OnWay P scope hops q := by
  intro n hn v hr
  exact h (n + 1) (by omega) v (.hop hs hq hr)

end OnWay

/-- No value on the way from `p` is a comment, for so many hops. -/
def Uncommented (scope : Scope) (hops : Nat) (p : Place) : Prop := OnWay (fun v => v.kind ≠ .comment) scope hops p

instance (scope : Scope) (hops : Nat) (p : Place) : Decidable (Uncommented scope hops p) :=
  inferInstanceAs (Decidable (OnWay (fun v => v.kind ≠ .comment) scope hops p))

theorem head?_filter_eq {α : Type} {l : List α} {keep : α → Bool} (h : ∀ a, l.head? = some a → keep a = true) :
    (l.filter keep).head? = l.head? := by
  cases l with
  | nil => rfl
  | cons a rest => rw [List.filter_cons_of_pos (h a rfl), List.head?_cons, List.head?_cons]

theorem getLast?_filter_eq {α : Type} {l : List α} {keep : α → Bool} (h : ∀ a, l.getLast? = some a → keep a = true) :
    (l.filter keep).getLast? = l.getLast? := by
  cases hl : l.getLast? with
  | none =>
    rw [List.getLast?_eq_none_iff] at hl
    simp [hl]
  | some a =>
    obtain ⟨rest, hr⟩ := List.getLast?_eq_some_iff.1 hl
    simp [hr, h a hl]

theorem head?_properChildren {p : Place} (h : ∀ q, p.namedChildren.head? = some q → q.kind ≠ .comment) :
    p.properChildren.head? = p.namedChildren.head? :=
  head?_filter_eq fun q hq => by simpa using h q hq

theorem getLast?_properChildren {p : Place} (h : ∀ q, p.namedChildren.getLast? = some q → q.kind ≠ .comment) :
    p.properChildren.getLast? = p.namedChildren.getLast? :=
  getLast?_filter_eq fun q hq => by simpa using h q hq

theorem bare_of_comment {p : Place} (h : p.kind = .comment) : p.bare = p := by
  have hi : p.inside? = none := by simp [Place.inside?, h]
  exact (strips_iff.1 (.done hi)).symm

theorem insideBy_properChildren {p : Place} (h : p.bare.kind ≠ .comment) :
    insideBy Place.properChildren p = insideBy Place.namedChildren p := by
  have hq : ∀ q, insideBy Place.namedChildren p = some q → q.kind ≠ .comment := by
    intro q hi hc
    have hs : Strips Place.namedChildren p q.bare := .wrapper hi (strips_bare q)
    rw [bare_of_comment hc] at hs
    rw [← strips_iff.1 hs] at h
    exact h hc
  unfold insideBy at hq ⊢
  split
  all_goals
    next hk =>
      simp only [hk] at hq
      first
        | exact head?_properChildren hq
        | exact getLast?_properChildren hq
        | rfl

theorem strips_properChildren {p v : Place} (h : p.bare.kind ≠ .comment) :
    Strips Place.properChildren p v ↔ Strips Place.namedChildren p v := by
  have hbare : Strips Place.properChildren p p.bare := by
    fun_induction Place.bare p with
    | case1 p q hi ih =>
      have hb : p.bare = q.bare := (strips_iff.1 (.wrapper hi (strips_bare q))).symm
      exact .wrapper ((insideBy_properChildren (hb ▸ h)).trans hi) (ih h)
    | case2 p hi =>
      have hb : p.bare = p := (strips_iff.1 (.done hi)).symm
      exact .done ((insideBy_properChildren (hb.symm ▸ h)).trans hi)
  rw [strips_iff]
  constructor
  · intro hv
    exact hv.unique hbare
  · rintro rfl
    exact hbare

theorem hop_properChildren {scope : Scope} {u q : Place}
    (h : ∀ q, Hop Place.namedChildren scope u q → q.kind ≠ .comment) :
    Hop Place.properChildren scope u q ↔ Hop Place.namedChildren scope u q := by
  constructor
  · intro hq
    cases hq with
    | name hk hb => exact .name hk hb
    | first hc ha hq =>
      rw [head?_properChildren fun q' hq' => h q' (.first hc ha hq')] at hq
      exact .first hc ha hq
    | last hc hf hw ha hq =>
      rw [getLast?_properChildren fun q' hq' => h q' (.last hc hf hw ha hq')] at hq
      exact .last hc hf hw ha hq
  · intro hq
    cases hq with
    | name hk hb => exact .name hk hb
    | first hc ha hq =>
      refine .first hc ha ?_
      rw [head?_properChildren fun q' hq' => h q' (.first hc ha hq'), hq]
    | last hc hf hw ha hq =>
      refine .last hc hf hw ha ?_
      rw [getLast?_properChildren fun q' hq' => h q' (.last hc hf hw ha hq'), hq]

namespace Uncommented

variable {scope : Scope} {hops n : Nat} {p v : Place}

theorem kind (h : Uncommented scope hops p) : p.kind ≠ .comment := by
  intro hc
  apply h.bare
  rw [bare_of_comment hc, hc]

/-- Where no comment is met, it makes no difference whether comments count. -/
theorem reaches (h : Uncommented scope hops p) (hn : n ≤ hops) :
    Reaches Place.properChildren scope n p v ↔ Reaches Place.namedChildren scope n p v := by
  induction n generalizing hops p with
  | zero =>
    constructor
    · intro hr
      cases hr with
      | here hs => exact .here ((strips_properChildren h.bare).1 hs)
    · intro hr
      cases hr with
      | here hs => exact .here ((strips_properChildren h.bare).2 hs)
  | succ n ih =>
    obtain ⟨hops, rfl⟩ : ∃ k, hops = k + 1 := ⟨hops - 1, by omega⟩
    have hhop : ∀ u, Strips Place.namedChildren p u → ∀ q, Hop Place.namedChildren scope u q → q.kind ≠ .comment :=
      fun u hs q hq => kind (h.of_hop hs hq)
    constructor
    · intro hr
      cases hr with
      | hop hs hq hr =>
        rw [strips_properChildren h.bare] at hs
        rw [hop_properChildren (hhop _ hs)] at hq
        exact .hop hs hq ((ih (h.of_hop hs hq) (by omega)).1 hr)
    · intro hr
      cases hr with
      | hop hs hq hr =>
        refine .hop ((strips_properChildren h.bare).2 hs) ((hop_properChildren (hhop _ hs)).2 hq) ?_
        exact (ih (h.of_hop hs hq) (by omega)).2 hr

end Uncommented

/-! ## Resolving a module -/

theorem resolve_eq_ok_iff {program : Place} {scope : Scope} {d : Definition} :
    resolve program scope = .ok d ↔ definitions program scope = [d] := by
  unfold resolve
  split <;> simp_all

theorem resolve_eq_noComponent_iff {program : Place} {scope : Scope} :
    resolve program scope = .error .noComponent ↔ definitions program scope = [] := by
  unfold resolve
  split <;> simp_all

theorem resolve_eq_multipleComponents_iff {program : Place} {scope : Scope} {n : Nat} :
    resolve program scope = .error (.multipleComponents n) ↔ 2 ≤ n ∧ (definitions program scope).length = n := by
  unfold resolve
  split
  · next h =>
    simp only [h, List.length_nil, Except.error.injEq, reduceCtorEq, false_iff]
    omega
  · next d h =>
    simp only [h, List.length_singleton, reduceCtorEq, false_iff]
    omega
  · next hnil hone =>
    have hlen : 2 ≤ (definitions program scope).length := by
      cases hds : definitions program scope with
      | nil => exact absurd hds hnil
      | cons d rest =>
        cases rest with
        | nil => exact absurd hds (hone d)
        | cons d' more => simp
    simp only [Except.error.injEq, DefinitionError.multipleComponents.injEq]
    constructor
    · rintro rfl
      exact ⟨hlen, rfl⟩
    · exact fun h => h.2

/-- Resolving a module gives the one definition that its exports reach by at most sixteen hops, with its kind; if
there is none or there are several, it says so. Values that lead back to themselves lead to no definition, and what
is exported from another module gives none. All this is so with comments counted among arguments and within wrappers;
where no comment is met on the way, it is so as well if they do not count. -/
theorem resolve_reached (program : Place) :
    let scope := Scope.ofProgram program
    let reached := reachedDefinitions Place.namedChildren program
    (∀ d, resolve program scope = .ok d → reached = {d.place} ∧ IsDefinition d.place d.kind) ∧
    ((∃ d, resolve program scope = .ok d) ↔ reached.encard = 1) ∧
    (resolve program scope = .error .noComponent ↔ reached = ∅) ∧
    (∀ n, resolve program scope = .error (.multipleComponents n) ↔ 2 ≤ n ∧ reached.encard = n) ∧
    (∀ p u m k, Reaches Place.namedChildren scope m p u → Reaches Place.namedChildren scope (k + 1) u u →
      ∀ hops names declarator, definitionOf? scope hops p names declarator = none) ∧
    (∀ p, p.kind = .exportStatement → (p.field? .source).isSome → exportedBy scope p = []) ∧
    ((∀ e ∈ exportedValues program scope, Uncommented scope 16 e.value) →
      reachedDefinitions Place.properChildren program = reached) := by
  intro scope reached
  have hcard : reached.encard = (definitions program scope).length := encard_reachedDefinitions program
  refine ⟨?_, ?_, ?_, ?_, ?_, ?_, ?_⟩
  · intro d hd
    have hl : definitions program scope = [d] := resolve_eq_ok_iff.1 hd
    have hmem : d ∈ definitions program scope := by simp [hl]
    refine ⟨?_, (reached_of_mem_definitions program hmem).2⟩
    have heq : reached = {v | v ∈ (definitions program scope).map Definition.place} := reachedDefinitions_eq program
    rw [heq, hl]
    ext v
    simp
  · rw [hcard, Nat.cast_eq_one, List.length_eq_one_iff]
    exact exists_congr fun d => resolve_eq_ok_iff
  · rw [← Set.encard_eq_zero, hcard, Nat.cast_eq_zero, List.length_eq_zero_iff]
    exact resolve_eq_noComponent_iff
  · intro n
    rw [resolve_eq_multipleComponents_iff, hcard, Nat.cast_inj]
  · intro p u m k hu hc hops names declarator
    exact definitionOf?_of_cycle hu hc hops names declarator
  · intro p hk hs
    simp [exportedBy, hk, hs]
  · intro h
    ext v
    constructor
    · rintro ⟨e, he, n, hn, hr, hd⟩
      exact ⟨e, he, n, hn, ((h e he).reaches hn).1 hr, hd⟩
    · rintro ⟨e, he, n, hn, hr, hd⟩
      exact ⟨e, he, n, hn, ((h e he).reaches hn).2 hr, hd⟩

/-- A function that makes elements. -/
def memoFunction : Node :=
  .mk .functionDeclaration ⟨0, 29⟩ none [
    (some .name, .mk .identifier ⟨9, 10⟩ none []),
    (some .body, .mk .statementBlock ⟨13, 29⟩ none [
      (none, .mk .returnStatement ⟨15, 27⟩ none [(none, .mk .jsxSelfClosingElement ⟨22, 26⟩ none [])])])]

/-- A module that exports the function, wrapped by a call in which comments may stand first. -/
def memoProgram (comments : List Node) : Place :=
  .root (.ofString "function A() { return <a/>; }\nexport default memo(/* c */ A);") (.mk .program ⟨0, 61⟩ none [
    (none, memoFunction),
    (none, .mk .exportStatement ⟨30, 61⟩ none [
      (some .value, .mk .callExpression ⟨45, 60⟩ none [
        (some .function, .mk .identifier ⟨45, 49⟩ none []),
        (some .arguments, .mk .arguments ⟨49, 60⟩ none
          ((comments ++ [Node.mk .identifier ⟨58, 59⟩ none []]).map fun n => (none, n)))])])])

def memoComment : Node := .mk .comment ⟨50, 57⟩ none []

theorem memo_resolved :
    ∃ d, resolve (memoProgram []) (Scope.ofProgram (memoProgram [])) = .ok d ∧
      reachedDefinitions Place.properChildren (memoProgram []) = {d.place} ∧ IsDefinition d.place d.kind := by
  have hok : (resolve (memoProgram []) (Scope.ofProgram (memoProgram []))).isOk = true := by decide +kernel
  have hfree : ∀ e ∈ exportedValues (memoProgram []) (Scope.ofProgram (memoProgram [])),
      Uncommented (Scope.ofProgram (memoProgram [])) 16 e.value := by decide +kernel
  obtain ⟨hone, _, _, _, _, _, hproper⟩ := resolve_reached (memoProgram [])
  cases hd : resolve (memoProgram []) (Scope.ofProgram (memoProgram [])) with
  | error e =>
    rw [hd] at hok
    cases hok
  | ok d => exact ⟨d, rfl, (hproper hfree).trans (hone d hd).1, (hone d hd).2⟩

/-- With a comment before its argument the call leads to the comment, and the function is not found. -/
theorem memo_comment_unresolved :
    resolve (memoProgram [memoComment]) (Scope.ofProgram (memoProgram [memoComment])) = .error .noComponent ∧
      (memoProgram [memoComment]).down 0 memoFunction ∈
        reachedDefinitions Place.properChildren (memoProgram [memoComment]) := by
  constructor
  · rw [resolve_eq_noComponent_iff, ← List.isEmpty_iff]
    decide +kernel
  refine ⟨_, List.mem_of_mem_head? rfl, 2, by decide, ?_, .ofFunction, .ofFunction (by decide) (by decide +kernel)⟩
  refine .hop (.done rfl) (.first ⟨rfl, _, _, rfl, rfl, by decide⟩ rfl rfl) ?_
  exact .hop (.done rfl) (.name rfl rfl) (.here (.done rfl))

end ReactCatalog
