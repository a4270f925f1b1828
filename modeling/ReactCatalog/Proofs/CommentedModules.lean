import ReactCatalog.Proofs.InsertedComments

/-!
# Modules with comments put in

A module with comments put into arguments, parentheses and export statements declares the same names and exports the
same values. From an exported value the same definition is reached, unless one of the comments is met on the way; then
none is reached (`SameBindings.definitionOf?`, `definitionOf?_of_comment`). So the module has the same component, or
none for the same reason, if no way to a definition is cut off (`resolve_commented`). Comments in export statements cut
no way off. A comment after the last argument of a call does (`argument_comment_hides_component`).
-/

namespace ReactCatalog

variable {added : Node → Bool} {top top' : Place}

/-! ## Scopes -/

/-- The bindings have corresponding values and declarators. -/
structure SameBinding (added : Node → Bool) (top top' : Place) (b b' : Binding) : Prop where
  value : Corresponds added top top' b.value b'.value
  declarator : Option.Rel (Corresponds added top top') b.declarator b'.declarator

/-- The scopes bind the same names to corresponding values. -/
def SameBindings (added : Node → Bool) (top top' : Place) (s s' : Scope) : Prop :=
  ∀ name, Option.Rel (SameBinding added top top') (s.lookup name) (s'.lookup name)

namespace SameBindings

variable {s s' : Scope} {p p' : Place} (hs : SameBindings added top top' s s')

include hs

theorem bind (name : String) {b b' : Binding} (hb : SameBinding added top top' b b') :
    SameBindings added top top' (s.bind name b) (s'.bind name b') :=
  lookup_bind_rel hs name hb

theorem bindDeclarator (h : Corresponds added top top' p p') :
    SameBindings added top top' (s.bindDeclarator p) (s'.bindDeclarator p') := by
  unfold Scope.bindDeclarator
  rw [h.kind]
  split
  · rcases rel_cases (h.part? .name) with ⟨hx, hy⟩ | ⟨n, n', hx, hy, hn⟩
    · rw [hx, hy]
      exact hs
    rcases rel_cases (h.part? .value) with ⟨hvx, hvy⟩ | ⟨v, v', hvx, hvy, hv⟩
    · rw [hx, hy, hvx, hvy]
      exact hs
    rw [hx, hy, hvx, hvy]
    dsimp only
    rw [← hn.kind]
    split
    · next hk =>
      rw [hn.text_of_identifier hk]
      exact hs.bind _ ⟨hv, .some h⟩
    · exact hs
  · exact hs

theorem declare (h : Corresponds added top top' p p') :
    SameBindings added top top' (s.declare p) (s'.declare p') := by
  have hdeclarators : p.kind ∉ commentHosts → SameBindings added top top' (p.namedChildren.foldl Scope.bindDeclarator s)
      (p'.namedChildren.foldl Scope.bindDeclarator s') :=
    fun hk => foldl_rel (h.namedChildren hk) hs fun _ _ _ _ hs hd => bindDeclarator hs hd
  unfold Scope.declare
  rw [← h.kind]
  split
  case h_1 hk | h_2 hk | h_3 hk =>
    rcases rel_cases (h.field? .name) with ⟨hx, hy⟩ | ⟨n, n', hx, hy, ht, _⟩
    · rw [hx, hy]
      exact hs
    · rw [hx, hy]
      dsimp only
      rw [ht.name rfl (by simp [hk])]
      exact hs.bind _ ⟨h, .none⟩
  case h_4 hk | h_5 hk => exact hdeclarators (by rw [hk]; decide)
  case h_6 => exact hs

theorem addStatement (h : Corresponds added top top' p p') :
    SameBindings added top top' (s.addStatement p) (s'.addStatement p') := by
  have himports : ∀ (s : Scope) (q : Place) (name : String), (s.addImport q).lookup name = s.lookup name := by
    intro s q name
    unfold Scope.addImport
    split <;> rfl
  unfold Scope.addStatement
  rw [h.kind]
  split
  · rcases rel_cases (h.part? .declaration) with ⟨hx, hy⟩ | ⟨q, q', hx, hy, hq⟩
    · rw [hx, hy]
      exact hs
    · rw [hx, hy]
      exact hs.declare hq
  · intro name
    rw [himports, himports]
    exact hs name
  · exact hs.declare h

end SameBindings

theorem sameBindings_ofProgram {program program' : Place} (h : Corresponds added top top' program program')
    (hk : program.kind = .program) :
    SameBindings added top top' (Scope.ofProgram program) (Scope.ofProgram program') :=
  foldl_rel (h.namedChildren (by rw [hk]; decide)) (fun _ => .none) fun _ _ _ _ hs hp => hs.addStatement hp

/-! ## Exports -/

/-- What is exported corresponds, and has the same name. -/
structure SameExport (added : Node → Bool) (top top' : Place) (e e' : Exported) : Prop where
  value : Corresponds added top top' e.value e'.value
  name : e.name = e'.name
  declarator : Option.Rel (Corresponds added top top') e.declarator e'.declarator

section

variable {s s' : Scope} {p p' : Place}

theorem Corresponds.declaredValues (h : Corresponds added top top' p p') :
    List.Forall₂ (SameExport added top top') (declaredValues p) (declaredValues p') := by
  have hvalue : ∀ d d', Corresponds added top top' d d' → (d.kind == .variableDeclarator) = true →
      Option.Rel (SameExport added top top') ((d.field? .value).map fun v => ⟨v, d.fieldText? .name, some d⟩)
        ((d'.field? .value).map fun v => ⟨v, d'.fieldText? .name, some d'⟩) := by
    intro d d' hd hk
    have hk : d.kind = .variableDeclarator := by simpa using hk
    refine rel_map (hd.part? .value) fun v v' hv => ⟨hv, hd.fieldText?_name (by simp [hk]), .some hd⟩
  have hdeclarators : p.kind ∉ commentHosts → List.Forall₂ (SameExport added top top')
      ((p.namedChildren.filter fun d => d.kind == .variableDeclarator).filterMap fun d =>
        (d.field? .value).map fun v => ⟨v, d.fieldText? .name, some d⟩)
      ((p'.namedChildren.filter fun d => d.kind == .variableDeclarator).filterMap fun d =>
        (d.field? .value).map fun v => ⟨v, d.fieldText? .name, some d⟩) := by
    intro hk
    have hrel := filter_rel (h.namedChildren hk) (f := fun d => d.kind == .variableDeclarator)
      (g := fun d => d.kind == .variableDeclarator) fun _ _ hd => by rw [hd.kind]
    exact filterMap_rel (rel_mem hrel) fun d d' hd => hvalue d d' hd.2 (List.mem_filter.1 hd.1).2
  unfold ReactCatalog.declaredValues
  rw [← h.kind]
  split
  case h_1 hk | h_2 hk | h_3 hk => exact .cons ⟨h, h.fieldText?_name (by simp [hk]), .none⟩ .nil
  case h_4 hk | h_5 hk => exact hdeclarators (by rw [hk]; decide)
  case h_6 => exact .nil

theorem Corresponds.assignment? (h : Corresponds added top top' p p') :
    Option.Rel (fun a a' => isExportTarget a.1.text = isExportTarget a'.1.text ∧ Corresponds added top top' a.2 a'.2)
      p.assignment? p'.assignment? := by
  unfold Place.assignment?
  rw [← h.kind]
  split
  · exact .none
  · next hk =>
    have hhost : p.kind ∉ commentHosts := by rw [not_not.1 hk]; decide
    refine rel_bind (head?_rel (h.namedChildren hhost)) fun a a' ha => ?_
    rw [ha.kind]
    split
    · exact .none
    · refine rel_bind (ha.field? .left) fun l l' hl => rel_bind (ha.part? .right) fun r r' hr => ?_
      exact .some ⟨hl.1.target rfl, hr⟩

theorem Corresponds.exportClauses (h : Corresponds added top top' p p') :
    List.Forall₂ (Corresponds added top top') (p.children.filter fun c => c.kind == .exportClause)
      (p'.children.filter fun c => c.kind == .exportClause) := by
  have hkept : (p'.children.filter fun c => c.kind == .exportClause) =
      (p'.children.filter fun c => !added c.node).filter fun c => c.kind == .exportClause := by
    rw [List.filter_filter]
    refine List.filter_congr fun c hc => ?_
    cases ha : added c.node with
    | false => simp
    | true => simp [(h.added_child hc ha).1]
  rw [hkept]
  exact filter_rel h.children fun _ _ hc => by rw [hc.kind]

theorem SameBindings.clauseValues (hs : SameBindings added top top' s s') (h : Corresponds added top top' p p') :
    List.Forall₂ (SameExport added top top') (clauseValues s p) (clauseValues s' p') := by
  refine flatMap_rel (rel_mem h.exportClauses) fun c c' hc => ?_
  obtain ⟨hmem, hc⟩ := hc
  have hk : c.kind = .exportClause := by simpa using (List.mem_filter.1 hmem).2
  refine filterMap_rel (rel_mem (hc.namedChildren (by rw [hk]; decide))) fun i i' hi => ?_
  obtain ⟨hi, hitem⟩ := hi
  have hmethod : i.kind ≠ .methodDefinition := by
    have hmem := Place.mem_children_of_mem_namedChildren hi
    rw [Place.children_eq_parts] at hmem
    obtain ⟨x, hx, rfl⟩ := List.mem_map.1 hmem
    refine hc.sameParts.clause hk (Place.part x) ?_
    rw [← Place.map_parts]
    exact List.mem_map_of_mem hx
  rw [hitem.fieldText?_name hmethod]
  cases i'.fieldText? .name with
  | none => exact .none
  | some name =>
    simp only [Option.bind_eq_bind, Option.bind_some]
    refine rel_bind (hs name) ?_
    intro b b' hb
    exact .some ⟨hb.value, rfl, hb.declarator⟩

theorem SameBindings.exportedBy (hs : SameBindings added top top' s s') (h : Corresponds added top top' p p') :
    List.Forall₂ (SameExport added top top') (exportedBy s p) (exportedBy s' p') := by
  by_cases hk : p.kind = .exportStatement
  · unfold ReactCatalog.exportedBy
    simp only [hk, h.kind ▸ hk]
    rw [isSome_eq_of_rel (h.part? .source)]
    split
    · exact .nil
    rcases rel_cases (h.part? .declaration) with ⟨hx, hy⟩ | ⟨q, q', hx, hy, hq⟩
    · rw [hx, hy]
      rcases rel_cases (h.part? .value) with ⟨hx, hy⟩ | ⟨v, v', hx, hy, hv⟩
      · rw [hx, hy]
        exact hs.clauseValues h
      · rw [hx, hy]
        exact .cons ⟨hv, rfl, .none⟩ .nil
    · rw [hx, hy]
      exact hq.declaredValues
  · rw [exportedBy_of_ne hk, exportedBy_of_ne (h.kind ▸ hk)]
    rcases rel_cases h.assignment? with ⟨hx, hy⟩ | ⟨a, a', hx, hy, hl, hr⟩
    · rw [hx, hy]
      exact .nil
    · rw [hx, hy, Option.elim_some, Option.elim_some, hl]
      split
      · exact .cons ⟨hr, rfl, .none⟩ .nil
      · exact .nil

end

/-! ## Definitions -/

/-- The definitions are the same, but for comments put into the second module. -/
structure SameDefinition (added : Node → Bool) (top top' : Place) (d d' : Definition) : Prop where
  place : Corresponds added top top' d.place d'.place
  kind : d.kind = d'.kind
  names : d.names = d'.names
  declarator : Option.Rel (Corresponds added top top') d.declarator d'.declarator

/-- The steps lead to corresponding values. -/
inductive SameStep (added : Node → Bool) (top top' : Place) : Step → Step → Prop
  | found (kind : DefinitionKind) : SameStep added top top' (.found kind) (.found kind)
  | name (name : String) {b b' : Binding} : SameBinding added top top' b b' →
      SameStep added top top' (.name name b) (.name name b')
  | wrapped {p p' : Place} : Corresponds added top top' p p' → SameStep added top top' (.wrapped p) (.wrapped p')

section

variable {s s' : Scope} {p p' : Place}

/-- A call leads to what is put in, or to the corresponding argument. -/
theorem Corresponds.stepOf?_call (h : Corresponds added top top' p p') (hk : p.kind = .callExpression)
    (hc : ∀ w, stepOf? s' p' = some (.wrapped w) → added w.node = false) :
    Option.Rel (SameStep added top top') (stepOf? s p) (stepOf? s' p') := by
  have hk' : p'.kind = .callExpression := h.kind ▸ hk
  rcases rel_cases (h.part? .function) with ⟨hx, hy⟩ | ⟨f, f', hx, hy, hf⟩
  · rw [stepOf?_call_none hk (by simp [hx]), stepOf?_call_none hk' (by simp [hy])]
    exact .none
  cases hn : ReactCatalog.callName? f with
  | none =>
    rw [stepOf?_call_none hk (by simp [hx, hn]), stepOf?_call_none hk' (by simp [hy, ← hf.callName?, hn])]
    exact .none
  | some name =>
    rw [ReactCatalog.stepOf?_call hk' hy (hf.callName? ▸ hn)] at hc ⊢
    rw [ReactCatalog.stepOf?_call hk hx hn]
    by_cases hfactory : name ∈ factoryNames
    · rw [if_pos hfactory, if_pos hfactory]
      exact .some (.found _)
    rcases rel_cases (h.part? .arguments) with ⟨hx, hy⟩ | ⟨a, a', hx, hy, ha⟩
    · rw [if_neg hfactory, if_neg hfactory, hx, hy]
      exact .none
    rw [if_neg hfactory, hy, Option.bind_some] at hc
    rw [if_neg hfactory, if_neg hfactory, hx, hy, Option.bind_some, Option.bind_some]
    refine rel_map ?_ fun _ _ hw => .wrapped hw
    by_cases hwrapper : name ∈ wrapperNames
    · rw [if_pos hwrapper] at hc
      rw [if_pos hwrapper, if_pos hwrapper]
      exact ha.head?_namedChildren fun c hm => hc c (by rw [hm]; rfl)
    · rw [if_neg hwrapper] at hc
      rw [if_neg hwrapper, if_neg hwrapper]
      exact ha.getLast?_namedChildren fun c hm => hc c (by rw [hm]; rfl)

/-- One step leads to what is put in, or to the corresponding value. -/
theorem SameBindings.stepOf? (hs : SameBindings added top top' s s') (h : Corresponds added top top' p p')
    (hc : ∀ w, stepOf? s' p' = some (.wrapped w) → added w.node = false) :
    Option.Rel (SameStep added top top') (stepOf? s p) (stepOf? s' p') := by
  by_cases hk : p.kind = .callExpression
  · exact h.stepOf?_call hk hc
  unfold ReactCatalog.stepOf?
  rw [h.rendersElements, h.isComponentClass, ← h.kind]
  split
  · next hk =>
    rw [h.text_of_identifier hk]
    exact rel_map (hs _) fun _ _ hb => .name _ hb
  case h_2 | h_3 | h_4 | h_5 | h_6 | h_7 =>
    split
    · exact .some (.found _)
    · exact .none
  · next hcall => exact absurd hcall hk
  · exact .none

/-- From a comment nothing is reached, so nothing is found by way of one. -/
theorem definitionOf?_of_comment {scope : Scope} {n : Nat} {v : Place}
    (h : Reaches Place.namedChildren scope n p v) (hk : v.kind = .comment) (hops : Nat) (names : List String)
    (declarator : Option Place) : definitionOf? scope hops p names declarator = none := by
  have hstep : ReactCatalog.stepOf? scope v = none := by simp [ReactCatalog.stepOf?, hk]
  refine definitionOf?_of_dead_end h (fun {n u} hr kind hd => ?_) hops names declarator
  cases n with
  | zero =>
    rw [reaches_iff, valueAfter, bare_of_comment hk, Option.some.injEq] at hr
    rw [← hr] at hd
    rw [stepOf?_of_isDefinition scope hd] at hstep
    cases hstep
  | succ n =>
    rw [reaches_iff, valueAfter, bare_of_comment hk, hstep] at hr
    cases hr

/-- Nothing that is put in is met on the way from `p`, for so many hops. -/
def Unmet (added : Node → Bool) (scope : Scope) (hops : Nat) (p : Place) : Prop :=
  OnWay (fun v => added v.node = false) scope hops p

instance (added : Node → Bool) (scope : Scope) (hops : Nat) (p : Place) : Decidable (Unmet added scope hops p) :=
  inferInstanceAs (Decidable (OnWay (fun v => added v.node = false) scope hops p))

theorem Unmet.not_added {scope : Scope} {hops : Nat} (h : Unmet added scope hops p)
    (hadded : ∀ n, added n = true → n.kind = .comment) : added p.node = false := by
  cases ha : added p.node with
  | false => rfl
  | true =>
    have hbare : added p.bare.node = false := OnWay.bare h
    rwa [bare_of_comment (hadded _ ha), ha] at hbare

/-- If nothing that is put in is met on the way, the same definition is reached. -/
theorem SameBindings.definitionOf? (hs : SameBindings added top top' s s')
    (hadded : ∀ n, added n = true → n.kind = .comment) (h : Corresponds added top top' p p') (hops : Nat)
    (hc : Unmet added s' hops p') (names : List String) {d d' : Option Place}
    (hd : Option.Rel (Corresponds added top top') d d') :
    Option.Rel (SameDefinition added top top') (definitionOf? s hops p names d)
      (definitionOf? s' hops p' names d') := by
  induction hops generalizing p p' names d d' with
  | zero => exact .none
  | succ hops ih =>
    have hnext : ∀ st w, ReactCatalog.stepOf? s' p'.bare = some st → st.next? = some w → Unmet added s' hops w :=
      fun st w hst hw => OnWay.of_hop hc (strips_bare p') (hop_iff.2 (by rw [hst]; exact hw))
    have hbare := h.bare (OnWay.bare hc)
    have hstep := hs.stepOf? hbare fun w hw => (hnext _ w hw rfl).not_added hadded
    rw [ReactCatalog.definitionOf?, ReactCatalog.definitionOf?]
    rcases rel_cases hstep with ⟨hx, hy⟩ | ⟨st, st', hx, hy, hst⟩
    · rw [hx, hy]
      exact .none
    rw [hx, hy]
    cases hst with
    | found kind => exact .some ⟨hbare, rfl, rfl, hd⟩
    | name n hb => exact ih hb.value (hnext _ _ hy rfl) _ (rel_or hb.declarator hd)
    | wrapped hw => exact ih hw (hnext _ _ hy rfl) _ hd

end

/-! ## Comments in export statements -/

/-- All that is put in stands in an export statement of the module. -/
def AddedToExports (added : Node → Bool) (program : Place) : Prop :=
  ∀ p, Within program p → ∀ c ∈ p.children, added c.node = true →
    p ∈ program.namedChildren ∧ p.kind = .exportStatement

section

variable {s s' : Scope} {p p' q' : Place}

/-- The top of a module and what corresponds to something are not put in. -/
theorem Corresponds.not_added (h : Corresponds added top top' p p')
    (hadded : ∀ n, added n = true → n.kind = .comment) (hk : top'.kind = .program) : added p'.node = false := by
  cases h.kept with
  | top =>
    cases ha : added top'.node with
    | false => rfl
    | true =>
      have hcomment : top'.kind = .comment := hadded _ ha
      rw [hk] at hcomment
      cases hcomment
  | part _ hx => simpa using (List.mem_filter.1 (List.of_mem_zip hx).2).2

theorem Corresponds.exists_child (h : Corresponds added top top' p p') (hc : q' ∈ p'.namedChildren)
    (ha : added q'.node = false) : ∃ q, Corresponds added top top' q q' := by
  have hmem : q' ∈ p'.namedChildren.filter fun c => !added c.node := List.mem_filter.2 ⟨hc, by simp [ha]⟩
  obtain ⟨q, _, hq⟩ := exists_rel_of_mem_right h.namedChildren_kept hmem
  exact ⟨q, hq⟩

namespace AddedToExports

variable (hplaces : AddedToExports added top')

include hplaces

/-- What stands in anything else than an export statement is not put in. -/
theorem exists_child (h : Corresponds added top top' p p') (hc : q' ∈ p'.namedChildren)
    (hp : p' ∈ top'.namedChildren → p'.kind ≠ .exportStatement) : ∃ q, Corresponds added top top' q q' := by
  refine h.exists_child hc ?_
  cases ha : added q'.node with
  | false => rfl
  | true =>
    obtain ⟨hm, hk⟩ := hplaces p' h.kept.within.2 q' (Place.mem_children_of_mem_namedChildren hc) ha
    exact absurd hk (hp hm)

theorem bare (h : Corresponds added top top' p p') : ∃ q, Corresponds added top top' q p'.bare := by
  fun_induction Place.bare p' generalizing p with
  | case1 p' q' hi ih =>
    have hk : p'.kind ≠ .exportStatement := by
      intro hk
      simp [Place.inside?, hk] at hi
    obtain ⟨q, hq⟩ := hplaces.exists_child h (Place.mem_namedChildren_of_inside? hi) fun _ => hk
    exact ih hq
  | case2 p' hi => exact ⟨p, h⟩

/-- Arguments of a call are no statement of the module. -/
theorem argument (hk : top'.kind = .program) (h : Corresponds added top top' p p') (hcall : p'.kind = .callExpression)
    {a' : Place} (ha : p'.field? .arguments = some a') (hc : q' ∈ a'.namedChildren) :
    ∃ q, Corresponds added top top' q q' := by
  rcases rel_cases (h.part? .arguments) with ⟨_, hy⟩ | ⟨a, _, _, hy, haa⟩
  · rw [ha] at hy
    cases hy
  rw [ha, Option.some.injEq] at hy
  subst hy
  refine hplaces.exists_child haa hc fun hm => ?_
  have hsame : p' = top' :=
    Place.parent_unique (Place.mem_children_of_field? ha) (Place.mem_children_of_mem_namedChildren hm)
  rw [hsame, hk] at hcall
  cases hcall

end AddedToExports

/-- Everything that is reached corresponds to something. -/
theorem SameBindings.reaches (hs : SameBindings added top top' s s') (hplaces : AddedToExports added top')
    (hk : top'.kind = .program) (h : Corresponds added top top' p p') {n : Nat} {v : Place}
    (hr : Reaches Place.namedChildren s' n p' v) : ∃ u, Corresponds added top top' u v := by
  induction hr generalizing p with
  | here hv =>
    rw [strips_iff.1 hv]
    exact hplaces.bare h
  | hop hu hq _ ih =>
    rw [strips_iff.1 hu] at hq
    obtain ⟨q, hbare⟩ := hplaces.bare h
    cases hq with
    | name _ hb =>
      rcases rel_cases (hs _) with ⟨_, hy⟩ | ⟨b, _, _, hy, hbb⟩
      · rw [hb] at hy
        cases hy
      rw [hb, Option.some.injEq] at hy
      subst hy
      exact ih hbb.value
    | first hc ha hq =>
      obtain ⟨_, hw⟩ := hplaces.argument hk hbare hc.1 ha (List.mem_of_head? hq)
      exact ih hw
    | last hc _ _ ha hq =>
      obtain ⟨_, hw⟩ := hplaces.argument hk hbare hc.1 ha (List.mem_of_getLast? hq)
      exact ih hw

end

/-! ## Modules -/

/-- The definition that an export leads to. -/
def Exported.definition? (scope : Scope) (e : Exported) : Option Definition :=
  definitionOf? scope (hopLimit + 1) e.value e.name.toList e.declarator

theorem SameExport.definition? {s s' : Scope} {e e' : Exported} (he : SameExport added top top' e e')
    (hs : SameBindings added top top' s s') (hadded : ∀ n, added n = true → n.kind = .comment)
    (hc : Unmet added s' (hopLimit + 1) e'.value) :
    Option.Rel (SameDefinition added top top') (e.definition? s) (e'.definition? s') := by
  rw [Exported.definition?, Exported.definition?, he.name]
  exact hs.definitionOf? hadded he.value _ hc _ he.declarator

theorem Exported.definition?_of_met {scope : Scope} {e : Exported} (hadded : ∀ n, added n = true → n.kind = .comment)
    (hc : ¬ Unmet added scope (hopLimit + 1) e.value) : e.definition? scope = none := by
  simp only [Unmet, OnWay, not_forall, Bool.not_eq_false] at hc
  obtain ⟨n, _, v, hr, hv⟩ := hc
  exact definitionOf?_of_comment hr (hadded _ hv) _ _ _

/-- With comments put into arguments, parentheses and export statements a module exports the same values. Each leads to
the same definition, or leads to one of the comments and to no definition. So where no export that has a definition
leads to one of the comments, the module has the same component, or none for the same reason. This is so if the comments
are put into export statements only. -/
theorem resolve_commented {program program' : Place} (hadded : ∀ n, added n = true → n.kind = .comment)
    (hk : program.kind = .program)
    (h : Node.Commented added program.source program'.source program.node program'.node) :
    let scope := Scope.ofProgram program
    let scope' := Scope.ofProgram program'
    let pairs := (exportedValues program scope).zip (exportedValues program' scope')
    List.Forall₂ (SameExport added program program') (exportedValues program scope) (exportedValues program' scope') ∧
    (∀ x ∈ pairs, Unmet added scope' (hopLimit + 1) x.2.value →
      Option.Rel (SameDefinition added program program') (x.1.definition? scope) (x.2.definition? scope')) ∧
    (∀ x ∈ pairs, ¬ Unmet added scope' (hopLimit + 1) x.2.value → x.2.definition? scope' = none) ∧
    ((∀ x ∈ pairs, (x.1.definition? scope).isSome → Unmet added scope' (hopLimit + 1) x.2.value) →
      ResolveMatch (SameDefinition added program program') (resolve program scope) (resolve program' scope')) ∧
    (AddedToExports added program' →
      ResolveMatch (SameDefinition added program program') (resolve program scope) (resolve program' scope')) := by
  intro scope scope' pairs
  have htop : Corresponds added program program' program program' := ⟨.top, h⟩
  have hs : SameBindings added program program' scope scope' := sameBindings_ofProgram htop hk
  have hexports : List.Forall₂ (SameExport added program program') (exportedValues program scope)
      (exportedValues program' scope') :=
    flatMap_rel (htop.namedChildren (by rw [hk]; decide)) fun _ _ hp => hs.exportedBy hp
  have hpairs : ∀ x ∈ pairs, SameExport added program program' x.1 x.2 := fun x hx =>
    (List.forall₂_iff_zip.1 hexports).2 hx
  have hresolve : (∀ x ∈ pairs, (x.1.definition? scope).isSome → Unmet added scope' (hopLimit + 1) x.2.value) →
      ResolveMatch (SameDefinition added program program') (resolve program scope) (resolve program' scope') := by
    intro hopen
    have hzip : List.Forall₂ (fun e e' => (e, e') ∈ pairs) (exportedValues program scope)
        (exportedValues program' scope') :=
      List.forall₂_iff_zip.2 ⟨hexports.length_eq, fun hx => hx⟩
    have hpaths : KeepsPaths (Corresponds added program program') := corresponds_keepsPaths added program program'
    refine resolve_rel_of_definitions (distinctDefinitions_rel (fun hd he => hpaths hd.place he.place)
      (filterMap_rel hzip fun e e' hx => ?_))
    change Option.Rel _ (e.definition? scope) (e'.definition? scope')
    by_cases hc : Unmet added scope' (hopLimit + 1) e'.value
    · exact (hpairs _ hx).definition? hs hadded hc
    · have hleft : e.definition? scope = none :=
        Option.not_isSome_iff_eq_none.1 fun hd => hc (hopen _ hx hd)
      rw [hleft, Exported.definition?_of_met hadded hc]
      exact .none
  refine ⟨hexports, fun x hx hc => (hpairs x hx).definition? hs hadded hc,
    fun x _ hc => Exported.definition?_of_met hadded hc, hresolve, fun hplaces => hresolve fun x hx _ => ?_⟩
  intro n _ v hr
  have hk' : program'.kind = .program := htop.kind ▸ hk
  obtain ⟨u, hu⟩ := hs.reaches hplaces hk' (hpairs x hx).value hr
  exact hu.not_added hadded hk'

/-! ## A call with comments -/

instance (parent : Kind) (label : Option Field) (t t' : String) : Decidable (SameText parent label t t') :=
  decidable_of_iff _ (sameText_iff ..).symm

namespace Node

variable {s s' : Source} {n n' : Node}

instance (added : Node → Bool) (s s' : Source) (n n' : Node) : Decidable (SameParts added s s' n n') :=
  decidable_of_iff _ (sameParts_iff ..).symm

/-- Whether the second of two trees of some depth is the first with comments put in. -/
def commented (added : Node → Bool) (s s' : Source) : Nat → Node → Node → Bool
  | 0, _, _ => false
  | depth + 1, n, n' => decide (SameParts added s s' n n') &&
      (n.parts.zip (n'.keptParts added)).all fun x => commented added s s' depth x.1.2 x.2.2

theorem commented_sound {depth : Nat} (h : commented added s s' depth n n' = true) : Commented added s s' n n' := by
  induction depth generalizing n n' with
  | zero => cases h
  | succ depth ih =>
    rw [commented, Bool.and_eq_true, decide_eq_true_iff, List.all_eq_true] at h
    exact .intro h.1 fun x hx => ih (h.2 x hx)

end Node

/-- A module that exports what a call with a function makes. Comments may stand in the statement and in the call. -/
def exportedCall (text : String) (start middle stop : Nat) (inStatement inCall : List Node) : Place :=
  .root (.ofString text) (.mk .program ⟨0, stop⟩ none [
    (none, memoFunction),
    (none, .mk .exportStatement ⟨30, stop⟩ none (inStatement.map (fun n => (none, n)) ++ [
      (some .value, .mk .callExpression ⟨start, stop - 1⟩ none [
        (some .function, .mk .identifier ⟨start, middle⟩ none []),
        (some .arguments, .mk .arguments ⟨middle, stop - 1⟩ none
          ((Node.mk .identifier ⟨middle + 1, middle + 2⟩ none [] :: inCall).map fun n => (none, n)))])]))])

def commentNode (start stop : Nat) : Node := .mk .comment ⟨start, stop⟩ none []

def isComment (n : Node) : Bool := n.kind == .comment

theorem memo_comments_skipped :
    let program := exportedCall "function A() { return <a/>; }\nexport default memo(A);" 45 49 53 [] []
    let program' := exportedCall "function A() { return <a/>; }\nexport /* b */ default memo(A /* c */);" 53 57 69
      [commentNode 37 44] [commentNode 60 67]
    (resolve program (.ofProgram program)).isOk = true ∧
      ResolveMatch (SameDefinition isComment program program') (resolve program (.ofProgram program))
        (resolve program' (.ofProgram program')) := by
  intro program program'
  have hcommented : Node.commented isComment program.source program'.source 6 program.node program'.node = true := by
    decide +kernel
  have hadded : ∀ n, isComment n = true → n.kind = .comment := fun _ h => beq_iff_eq.1 h
  have hresolve := (resolve_commented hadded rfl (Node.commented_sound hcommented)).2.2.2.1
  exact ⟨by decide +kernel, hresolve (by decide +kernel)⟩

/-- A comment after the last argument is the last child of the arguments: the component is not found. -/
theorem argument_comment_hides_component :
    let program := exportedCall "function A() { return <a/>; }\nexport default withRouter(A);" 45 55 59 [] []
    let program' := exportedCall "function A() { return <a/>; }\nexport default withRouter(A /* c */);" 45 55 67
      [] [commentNode 58 65]
    Node.Commented isComment program.source program'.source program.node program'.node ∧
      (resolve program (.ofProgram program)).isOk = true ∧
      resolve program' (.ofProgram program') = .error .noComponent := by
  intro program program'
  have hcommented : Node.commented isComment program.source program'.source 6 program.node program'.node = true := by
    decide +kernel
  refine ⟨Node.commented_sound hcommented, by decide +kernel, ?_⟩
  rw [resolve_eq_noComponent_iff, ← List.isEmpty_iff]
  decide +kernel

end ReactCatalog
