import ReactCatalog.Proofs.ExportedNames
import ReactCatalog.Proofs.LikeMembers
import ReactCatalog.Proofs.TypeExpansion

/-!
# Modules that read alike

Of a value that a module exports, binds to a name or assigns, only what is left without its wrappers is looked at
(`SameBare`). So if two modules have statements that read alike but for such values, then their scopes bind the same
names, and the modules export the same component or none for the same reason (`resolve_rel`).
-/

namespace ReactCatalog

variable {M : Place → Place → Prop}

/-- The values read alike once their wrappers are taken off. -/
def SameBare (M : Place → Place → Prop) (p p' : Place) : Prop := M p.bare p'.bare

/-- The declarators read alike but for wrappers around their values. -/
structure DeclaratorMatch (M : Place → Place → Prop) (d d' : Place) : Prop where
  kind : d.kind = d'.kind
  name : Option.Rel M (d.field? .name) (d'.field? .name)
  value : Option.Rel (SameBare M) (d.field? .value) (d'.field? .value)
  type : Option.Rel M (d.field? .type) (d'.field? .type)

/-- The declarations of variables read alike but for wrappers around values. -/
structure DeclarationMatch (M : Place → Place → Prop) (p p' : Place) : Prop where
  kind : p.kind = p'.kind
  ofVariables : p.kind = .lexicalDeclaration ∨ p.kind = .variableDeclaration
  declarators : List.Forall₂ (DeclaratorMatch M) p.namedChildren p'.namedChildren

/-- The statements read alike but for wrappers around a value that they export, assign or declare. -/
inductive StatementMatch (M : Place → Place → Prop) : Place → Place → Prop
  | alike {p p' : Place} : M p p' → StatementMatch M p p'
  | exported {p p' v v' : Place} : p.kind = .exportStatement → p'.kind = .exportStatement →
      (p.field? .source).isSome = (p'.field? .source).isSome →
      Option.Rel M (p.field? .declaration) (p'.field? .declaration) → p.field? .value = some v →
      p'.field? .value = some v' → SameBare M v v' → StatementMatch M p p'
  | assigned {p p' left left' right right' : Place} : p.assignment? = some (left, right) →
      p'.assignment? = some (left', right') → M left left' → SameBare M right right' → StatementMatch M p p'
  | declared {p p' : Place} : DeclarationMatch M p p' → StatementMatch M p p'
  | exportedDeclaration {p p' q q' : Place} : p.kind = .exportStatement → p'.kind = .exportStatement →
      (p.field? .source).isSome = (p'.field? .source).isSome → p.field? .declaration = some q →
      p'.field? .declaration = some q' → DeclarationMatch M q q' → StatementMatch M p p'

theorem Likeness.sameBare (hM : Likeness M) {p p' : Place} (h : M p p') : SameBare M p p' := hM.bare h

theorem Likeness.declarator (hM : Likeness M) {p p' : Place} (h : M p p') : DeclaratorMatch M p p' where
  kind := hM.kind h
  name := hM.field? h .name
  value := rel_imp (hM.field? h .value) fun _ _ hv => hM.sameBare hv
  type := hM.field? h .type

/-- An assignment is a statement of an expression that has two sides. -/
theorem Place.assignment?_eq_some_iff {p left right : Place} : p.assignment? = some (left, right) ↔
    p.kind = .expressionStatement ∧ ∃ a, p.namedChildren.head? = some a ∧ a.kind = .assignmentExpression ∧
      a.field? .left = some left ∧ a.field? .right = some right := by
  unfold Place.assignment?
  constructor
  · intro h
    split at h
    · cases h
    · next hk =>
      obtain ⟨a, ha, h⟩ := Option.bind_eq_some_iff.1 h
      split at h
      · cases h
      · next hka =>
        obtain ⟨l, hl, h⟩ := Option.bind_eq_some_iff.1 h
        obtain ⟨r, hr, h⟩ := Option.bind_eq_some_iff.1 h
        cases h
        exact ⟨not_not.1 hk, a, ha, not_not.1 hka, hl, hr⟩
  · rintro ⟨hk, a, ha, hka, hl, hr⟩
    simp [hk, ha, hka, hl, hr]

theorem Place.kind_of_assignment? {p left right : Place} (h : p.assignment? = some (left, right)) :
    p.kind = .expressionStatement :=
  (assignment?_eq_some_iff.1 h).1

/-! ## Scopes -/

/-- The bindings have values that read alike without their wrappers. -/
structure BindingMatch (M : Place → Place → Prop) (b b' : Binding) : Prop where
  value : SameBare M b.value b'.value
  declarator : Option.Rel (DeclaratorMatch M) b.declarator b'.declarator

/-- Scopes whose bindings are related stay so when a name is bound to related values. -/
theorem lookup_bind_rel {R : Binding → Binding → Prop} {s s' : Scope}
    (hs : ∀ name, Option.Rel R (s.lookup name) (s'.lookup name)) (name : String) {b b' : Binding} (hb : R b b')
    (other : String) : Option.Rel R ((s.bind name b).lookup other) ((s'.bind name b').lookup other) := by
  unfold Scope.lookup Scope.bind
  rw [Dictionary.find?_insert, Dictionary.find?_insert]
  split
  · exact .some hb
  · exact hs other

structure ScopeMatch (M : Place → Place → Prop) (s s' : Scope) : Prop where
  imports : s.imports = s'.imports
  lookup : ∀ name, Option.Rel (BindingMatch M) (s.lookup name) (s'.lookup name)

namespace ScopeMatch

variable {s s' : Scope} {p p' : Place}

theorem bind (hs : ScopeMatch M s s') (name : String) {b b' : Binding} (hb : BindingMatch M b b') :
    ScopeMatch M (s.bind name b) (s'.bind name b') where
  imports := hs.imports
  lookup := lookup_bind_rel hs.lookup name hb

theorem bindDeclarator (hs : ScopeMatch M s s') (hM : Likeness M) (h : DeclaratorMatch M p p') :
    ScopeMatch M (s.bindDeclarator p) (s'.bindDeclarator p') := by
  unfold Scope.bindDeclarator
  rw [h.kind]
  split
  · rcases rel_cases h.name with ⟨hx, hy⟩ | ⟨n, n', hx, hy, hn⟩
    · rw [hx, hy]
      exact hs
    rcases rel_cases h.value with ⟨hvx, hvy⟩ | ⟨v, v', hvx, hvy, hv⟩
    · rw [hx, hy, hvx, hvy]
      exact hs
    rw [hx, hy, hvx, hvy]
    dsimp only
    rw [hM.kind hn, hM.text hn]
    split
    · exact hs.bind _ ⟨hv, .some h⟩
    · exact hs
  · exact hs

theorem declarators (hs : ScopeMatch M s s') (hM : Likeness M)
    (h : List.Forall₂ (DeclaratorMatch M) p.namedChildren p'.namedChildren) :
    ScopeMatch M (p.namedChildren.foldl Scope.bindDeclarator s) (p'.namedChildren.foldl Scope.bindDeclarator s') :=
  foldl_rel h hs fun _ _ _ _ hs hd => hs.bindDeclarator hM hd

theorem declare (hs : ScopeMatch M s s') (hM : Likeness M) (h : M p p') :
    ScopeMatch M (s.declare p) (s'.declare p') := by
  have hlist := hs.declarators hM ((hM.namedChildren h).imp fun _ _ hd => hM.declarator hd)
  unfold Scope.declare
  rw [hM.kind h]
  split
  case h_1 | h_2 | h_3 =>
    rcases rel_cases (hM.field? h .name) with ⟨hx, hy⟩ | ⟨n, n', hx, hy, hn⟩
    · rw [hx, hy]
      exact hs
    · rw [hx, hy]
      dsimp only
      rw [hM.text hn]
      exact hs.bind _ ⟨hM.sameBare h, .none⟩
  case h_4 | h_5 => exact hlist
  case h_6 => exact hs

theorem declareVariables (hs : ScopeMatch M s s') (hM : Likeness M) (h : DeclarationMatch M p p') :
    ScopeMatch M (s.declare p) (s'.declare p') := by
  have hlist := hs.declarators hM h.declarators
  unfold Scope.declare
  rw [← h.kind]
  rcases h.ofVariables with hk | hk
  · simpa only [hk] using hlist
  · simpa only [hk] using hlist

end ScopeMatch

theorem Likeness.importedNames (hM : Likeness M) {p p' : Place} (h : M p p') :
    Scope.importedNames p = Scope.importedNames p' := by
  induction hn : sizeOf p.node using Nat.strongRecOn generalizing p p' with
  | ind n ih =>
    subst hn
    have hchildren := flatMap_eq_of_rel (rel_mem (hM.namedChildren h)) fun c c' hc =>
      ih _ (Place.sizeOf_node_lt_of_mem_namedChildren hc.1) hc.2 rfl
    have hspecifier := map_eq_of_rel (rel_or (hM.field? h .alias) (hM.field? h .name)) fun _ _ hc => hM.text hc
    have hnamespace := map_eq_of_rel (head?_rel (hM.namedChildren h)) fun _ _ hc => hM.text hc
    rw [Scope.importedNames, Scope.importedNames, List.flatMap_subtype (g := Scope.importedNames) fun _ _ => rfl,
      List.flatMap_subtype (g := Scope.importedNames) fun _ _ => rfl, List.unattach_attach, List.unattach_attach,
      hM.kind h, hM.text h, hspecifier, hnamespace, hchildren]

namespace ScopeMatch

variable {s s' : Scope} {p p' : Place}

theorem addImport (hs : ScopeMatch M s s') (hM : Likeness M) (h : M p p') :
    ScopeMatch M (s.addImport p) (s'.addImport p') := by
  unfold Scope.addImport
  rw [hM.fieldText? h, flatMap_eq_of_rel (hM.namedChildren h) fun _ _ hc => hM.importedNames hc, hs.imports]
  cases p'.fieldText? .source with
  | none => exact hs
  | some text => exact ⟨rfl, hs.lookup⟩

theorem addStatement (hs : ScopeMatch M s s') (hM : Likeness M) (h : StatementMatch M p p') :
    ScopeMatch M (s.addStatement p) (s'.addStatement p') := by
  have hdeclared : Option.Rel M (p.field? .declaration) (p'.field? .declaration) →
      ScopeMatch M (((p.field? .declaration).map s.declare).getD s)
        (((p'.field? .declaration).map s'.declare).getD s') := by
    intro hd
    rcases rel_cases hd with ⟨hx, hy⟩ | ⟨q, q', hx, hy, hq⟩
    · rw [hx, hy]
      exact hs
    · rw [hx, hy]
      exact hs.declare hM hq
  unfold Scope.addStatement
  cases h with
  | alike h =>
    rw [hM.kind h]
    split
    · exact hdeclared (hM.field? h .declaration)
    · exact hs.addImport hM h
    · exact hs.declare hM h
  | exported hk hk' _ hd _ _ _ =>
    rw [hk, hk']
    exact hdeclared hd
  | assigned ha ha' _ _ =>
    simp only [Place.kind_of_assignment? ha, Place.kind_of_assignment? ha', Scope.declare]
    exact hs
  | declared h =>
    have hmatch := hs.declareVariables hM h
    rw [← h.kind]
    rcases h.ofVariables with hv | hv
    · simpa only [hv] using hmatch
    · simpa only [hv] using hmatch
  | exportedDeclaration hk hk' _ hq hq' h =>
    rw [hk, hk', hq, hq']
    exact hs.declareVariables hM h

theorem ofProgram (hM : Likeness M) {program program' : Place}
    (h : List.Forall₂ (StatementMatch M) program.namedChildren program'.namedChildren) :
    ScopeMatch M (Scope.ofProgram program) (Scope.ofProgram program') := by
  refine foldl_rel h ?_ fun _ _ _ _ hs hp => hs.addStatement hM hp
  exact ⟨rfl, fun _ => .none⟩

/-- The object literal that a value stands for. -/
theorem object? (hs : ScopeMatch M s s') (hM : Likeness M) (h : SameBare M p p') :
    Option.Rel (fun o o' => M o o' ∧ o.kind = .object) (s.object? p) (s'.object? p') := by
  unfold Scope.object?
  dsimp only
  rw [← hM.kind h, ← hM.text h]
  split
  · next hk => exact .some ⟨h, hk⟩
  · refine rel_bind (hs.lookup _) fun b b' hb => ?_
    have hv := hb.value
    unfold Place.asObject?
    rw [← hM.kind hv]
    split
    · next hk => exact .some ⟨hv, hk⟩
    · exact .none
  · exact .none

end ScopeMatch

/-! ## Definitions -/

/-- The steps lead to values that read alike. -/
inductive StepMatch (M : Place → Place → Prop) : Step → Step → Prop
  | found (kind : DefinitionKind) : StepMatch M (.found kind) (.found kind)
  | name (name : String) {b b' : Binding} : BindingMatch M b b' → StepMatch M (.name name b) (.name name b')
  | wrapped {p p' : Place} : M p p' → StepMatch M (.wrapped p) (.wrapped p')

structure DefinitionMatch (M : Place → Place → Prop) (d d' : Definition) : Prop where
  place : M d.place d'.place
  kind : d.kind = d'.kind
  names : d.names = d'.names
  declarator : Option.Rel (DeclaratorMatch M) d.declarator d'.declarator
  ofClass : d.kind = .ofClass → Place.passesDocs d.place.kind = false

structure ExportedMatch (M : Place → Place → Prop) (e e' : Exported) : Prop where
  value : SameBare M e.value e'.value
  name : e.name = e'.name
  declarator : Option.Rel (DeclaratorMatch M) e.declarator e'.declarator

section

variable {s s' : Scope} {p p' : Place}

theorem Likeness.callName? (hM : Likeness M) (h : M p p') : callName? p = callName? p' := by
  unfold ReactCatalog.callName?
  rw [hM.kind h, hM.text h, hM.fieldText? h]

theorem ScopeMatch.stepOf? (hs : ScopeMatch M s s') (hM : Likeness M) (h : M p p') :
    Option.Rel (StepMatch M) (stepOf? s p) (stepOf? s' p') := by
  unfold ReactCatalog.stepOf?
  rw [hM.kind h, hM.text h, hM.rendersElements h, hM.isComponentClass h]
  split
  · exact rel_map (hs.lookup _) fun _ _ hb => .name _ hb
  case h_2 | h_3 | h_4 | h_5 | h_6 | h_7 =>
    split
    · exact .some (.found _)
    · exact .none
  · refine rel_bind (hM.field? h .function) fun f f' hf => ?_
    rw [hM.callName? hf]
    cases ReactCatalog.callName? f' with
    | none => exact .none
    | some name =>
      show Option.Rel _ (if factoryNames.contains name then _ else _) (if factoryNames.contains name then _ else _)
      split
      · exact .some (.found _)
      · refine rel_bind (hM.field? h .arguments) fun a a' ha => ?_
        have hargs := hM.namedChildren ha
        split
        · exact rel_map (head?_rel hargs) fun _ _ hw => .wrapped hw
        · exact rel_map (getLast?_rel hargs) fun _ _ hw => .wrapped hw
  · exact .none

/-- A class hands no comment on. -/
theorem stepOf?_ofClass {scope : Scope} (h : stepOf? scope p = some (.found .ofClass)) :
    Place.passesDocs p.kind = false := by
  cases stepOf?_right h with
  | ofClass hk _ =>
    simp only [classKinds, List.mem_cons, List.not_mem_nil, or_false] at hk
    rcases hk with hk | hk
    · rw [hk]
      rfl
    · rw [hk]
      rfl

/-- Values that read alike lead to definitions that do. -/
theorem ScopeMatch.definitionOf? (hs : ScopeMatch M s s') (hM : Likeness M) (hops : Nat) (h : SameBare M p p')
    (names : List String) {d d' : Option Place} (hd : Option.Rel (DeclaratorMatch M) d d') :
    Option.Rel (DefinitionMatch M) (definitionOf? s hops p names d) (definitionOf? s' hops p' names d') := by
  induction hops generalizing p p' names d d' with
  | zero => exact .none
  | succ hops ih =>
    rw [ReactCatalog.definitionOf?, ReactCatalog.definitionOf?]
    rcases rel_cases (hs.stepOf? hM h) with ⟨hx, hy⟩ | ⟨st, st', hx, hy, hst⟩
    · rw [hx, hy]
      exact .none
    rw [hx, hy]
    cases hst with
    | found kind =>
      refine .some ⟨h, rfl, rfl, hd, ?_⟩
      rintro rfl
      exact stepOf?_ofClass hx
    | name n hb => exact ih hb.value _ (rel_or hb.declarator hd)
    | wrapped hw => exact ih (hM.sameBare hw) _ hd

/-- The values of declarators. -/
theorem declaratorValues_rel (hM : Likeness M)
    (h : List.Forall₂ (DeclaratorMatch M) p.namedChildren p'.namedChildren) :
    List.Forall₂ (ExportedMatch M)
      ((p.namedChildren.filter fun d => d.kind == .variableDeclarator).filterMap fun d =>
        (d.field? .value).map fun v => ⟨v, d.fieldText? .name, some d⟩)
      ((p'.namedChildren.filter fun d => d.kind == .variableDeclarator).filterMap fun d =>
        (d.field? .value).map fun v => ⟨v, d.fieldText? .name, some d⟩) := by
  refine filterMap_rel (filter_rel h fun _ _ hd => by rw [hd.kind]) fun d d' hd => rel_map hd.value fun v v' hv => ?_
  exact ⟨hv, map_eq_of_rel hd.name fun _ _ hn => hM.text hn, .some hd⟩

theorem DeclarationMatch.declaredValues (hM : Likeness M) (h : DeclarationMatch M p p') :
    List.Forall₂ (ExportedMatch M) (declaredValues p) (declaredValues p') := by
  have hlist := declaratorValues_rel hM h.declarators
  unfold ReactCatalog.declaredValues
  rw [← h.kind]
  rcases h.ofVariables with hk | hk
  · simpa only [hk] using hlist
  · simpa only [hk] using hlist

theorem Likeness.declaredValues (hM : Likeness M) (h : M p p') :
    List.Forall₂ (ExportedMatch M) (declaredValues p) (declaredValues p') := by
  have hself : List.Forall₂ (ExportedMatch M) [⟨p, p.fieldText? .name, none⟩] [⟨p', p'.fieldText? .name, none⟩] :=
    .cons ⟨hM.sameBare h, hM.fieldText? h .name, .none⟩ .nil
  have hlist := declaratorValues_rel hM ((hM.namedChildren h).imp fun _ _ hd => hM.declarator hd)
  unfold ReactCatalog.declaredValues
  rw [hM.kind h]
  split
  case h_1 | h_2 | h_3 => exact hself
  case h_4 | h_5 => exact hlist
  case h_6 => exact .nil

theorem Likeness.assignment? (hM : Likeness M) (h : M p p') :
    Option.Rel (fun a a' => M a.1 a'.1 ∧ M a.2 a'.2) p.assignment? p'.assignment? := by
  unfold Place.assignment?
  rw [hM.kind h]
  split
  · exact .none
  refine rel_bind (head?_rel (hM.namedChildren h)) fun a a' ha => ?_
  rw [hM.kind ha]
  split
  · exact .none
  refine rel_bind (hM.field? ha .left) fun l l' hl => rel_bind (hM.field? ha .right) fun r r' hr => ?_
  exact .some ⟨hl, hr⟩

theorem StatementMatch.kind (h : StatementMatch M p p') (hM : Likeness M) : p.kind = p'.kind := by
  cases h with
  | alike h => exact hM.kind h
  | exported hk hk' _ _ _ _ _ => rw [hk, hk']
  | assigned ha ha' _ _ => rw [Place.kind_of_assignment? ha, Place.kind_of_assignment? ha']
  | declared h => exact h.kind
  | exportedDeclaration hk hk' _ _ _ _ => rw [hk, hk']

/-- Only a statement of an expression is an assignment. -/
theorem Place.assignment?_eq_none (h : p.kind ≠ .expressionStatement) : p.assignment? = none := by
  unfold Place.assignment?
  rw [if_pos h]

theorem StatementMatch.assignment? (h : StatementMatch M p p') (hM : Likeness M) :
    Option.Rel (fun a a' => M a.1 a'.1 ∧ SameBare M a.2 a'.2) p.assignment? p'.assignment? := by
  by_cases hk : p.kind = .expressionStatement
  · cases h with
    | alike h => exact rel_imp (hM.assignment? h) fun _ _ ha => ⟨ha.1, hM.sameBare ha.2⟩
    | exported hk₂ _ _ _ _ _ _ => simp [hk₂] at hk
    | assigned ha ha' hl hr =>
      rw [ha, ha']
      exact .some ⟨hl, hr⟩
    | declared h => rcases h.ofVariables with hv | hv <;> simp [hv] at hk
    | exportedDeclaration hk₂ _ _ _ _ _ => simp [hk₂] at hk
  · rw [Place.assignment?_eq_none hk, Place.assignment?_eq_none (h.kind hM ▸ hk)]
    exact .none

theorem ScopeMatch.clauseValues (hs : ScopeMatch M s s') (hM : Likeness M) (h : M p p') :
    List.Forall₂ (ExportedMatch M) (clauseValues s p) (clauseValues s' p') := by
  refine flatMap_rel (filter_rel (hM.children h) fun _ _ hc => by rw [hM.kind hc]) fun c c' hc => ?_
  refine filterMap_rel (hM.namedChildren hc) fun i i' hi => ?_
  rw [hM.fieldText? hi]
  cases i'.fieldText? .name with
  | none => exact .none
  | some name =>
    simp only [Option.bind_eq_bind, Option.bind_some]
    refine rel_bind (hs.lookup name) ?_
    intro b b' hb
    exact .some ⟨hb.value, rfl, hb.declarator⟩

/-- What an assignment exports. -/
theorem exportedBy_of_ne (hk : p.kind ≠ .exportStatement) : exportedBy s p =
    p.assignment?.elim [] fun a => if isExportTarget a.1.text then [Exported.mk a.2 none none] else [] := by
  unfold exportedBy
  split
  · next h => exact absurd h hk
  · cases p.assignment? <;> rfl

theorem ScopeMatch.exportedBy (hs : ScopeMatch M s s') (hM : Likeness M) (h : StatementMatch M p p') :
    List.Forall₂ (ExportedMatch M) (exportedBy s p) (exportedBy s' p') := by
  have hsingle : ∀ {v v' : Place}, SameBare M v v' →
      List.Forall₂ (ExportedMatch M) [⟨v, none, none⟩] [⟨v', none, none⟩] :=
    fun hv => .cons ⟨hv, rfl, .none⟩ .nil
  by_cases hk : p.kind = .exportStatement
  · unfold ReactCatalog.exportedBy
    simp only [hk, h.kind hM ▸ hk]
    cases h with
    | alike h =>
      rw [isSome_eq_of_rel (hM.field? h .source)]
      split
      · exact .nil
      rcases rel_cases (hM.field? h .declaration) with ⟨hx, hy⟩ | ⟨q, q', hx, hy, hq⟩
      · rw [hx, hy]
        rcases rel_cases (hM.field? h .value) with ⟨hx, hy⟩ | ⟨v, v', hx, hy, hv⟩
        · rw [hx, hy]
          exact hs.clauseValues hM h
        · rw [hx, hy]
          exact hsingle (hM.sameBare hv)
      · rw [hx, hy]
        exact hM.declaredValues hq
    | exported _ _ hsource hd hv hv' hvalue =>
      simp only [hsource, hv, hv']
      split
      · exact .nil
      rcases rel_cases hd with ⟨hx, hy⟩ | ⟨q, q', hx, hy, hq⟩
      · rw [hx, hy]
        exact hsingle hvalue
      · rw [hx, hy]
        exact hM.declaredValues hq
    | assigned ha _ _ _ => simp [Place.kind_of_assignment? ha] at hk
    | declared h => rcases h.ofVariables with hv | hv <;> simp [hv] at hk
    | exportedDeclaration _ _ hsource hq hq' h =>
      simp only [hsource, hq, hq']
      split
      · exact .nil
      · exact h.declaredValues hM
  · rw [exportedBy_of_ne hk, exportedBy_of_ne (h.kind hM ▸ hk)]
    rcases rel_cases (h.assignment? hM) with ⟨hx, hy⟩ | ⟨a, a', hx, hy, hl, hr⟩
    · rw [hx, hy]
      exact .nil
    · rw [hx, hy, Option.elim_some, Option.elim_some, hM.text hl]
      split
      · exact hsingle hr
      · exact .nil

end

/-! ## The component of a module -/

/-- Different places correspond to different ones. -/
def KeepsPaths (M : Place → Place → Prop) : Prop :=
  ∀ {p p' q q' : Place}, M p p' → M q q' → (p.path = q.path ↔ p'.path = q'.path)

theorem distinctDefinitions_rel {R : Definition → Definition → Prop}
    (hpaths : ∀ {d d' e e'}, R d d' → R e e' → (d.place.path = e.place.path ↔ d'.place.path = e'.place.path))
    {ds ds' : List Definition} (h : List.Forall₂ R ds ds') :
    List.Forall₂ R (distinctDefinitions ds) (distinctDefinitions ds') := by
  refine foldl_rel h .nil fun acc acc' d d' hacc hd => ?_
  have hany : (acc.any fun e => e.place.path == d.place.path) = acc'.any fun e => e.place.path == d'.place.path :=
    any_eq_of_rel hacc fun e e' he => Bool.eq_iff_iff.2 (by simpa using hpaths he hd)
  rw [hany]
  split
  · exact hacc
  · exact List.rel_append hacc (.cons hd .nil)

/-- The modules have corresponding components, or none for the same reason. -/
inductive ResolveMatch (R : Definition → Definition → Prop) : Except DefinitionError Definition →
    Except DefinitionError Definition → Prop
  | error (e : DefinitionError) : ResolveMatch R (.error e) (.error e)
  | ok {d d' : Definition} : R d d' → ResolveMatch R (.ok d) (.ok d')

/-- As many definitions on both sides make the same case of none, one or several. -/
theorem resolve_rel_of_definitions {R : Definition → Definition → Prop} {program program' : Place} {s s' : Scope}
    (h : List.Forall₂ R (definitions program s) (definitions program' s')) :
    ResolveMatch R (resolve program s) (resolve program' s') := by
  unfold resolve
  generalize definitions program s = ds at h ⊢
  generalize definitions program' s' = ds' at h ⊢
  cases h with
  | nil => exact .error _
  | cons hd hrest =>
    cases hrest with
    | nil => exact .ok hd
    | cons _ hmore =>
      simp only [List.length_cons, hmore.length_eq]
      exact .error _

section

variable {program program' : Place} (hM : Likeness M) (hpaths : KeepsPaths M)
  (h : List.Forall₂ (StatementMatch M) program.namedChildren program'.namedChildren)

include hM hpaths h

theorem definitions_rel : List.Forall₂ (DefinitionMatch M) (definitions program (Scope.ofProgram program))
    (definitions program' (Scope.ofProgram program')) := by
  have hs := ScopeMatch.ofProgram hM h
  have hexports : List.Forall₂ (ExportedMatch M) (exportedValues program (Scope.ofProgram program))
      (exportedValues program' (Scope.ofProgram program')) :=
    flatMap_rel h fun _ _ hp => hs.exportedBy hM hp
  refine distinctDefinitions_rel (fun hd he => hpaths hd.place he.place) (filterMap_rel hexports fun e e' he => ?_)
  rw [he.name]
  exact hs.definitionOf? hM _ he.value _ he.declarator

theorem resolve_rel : ResolveMatch (DefinitionMatch M) (resolve program (Scope.ofProgram program))
    (resolve program' (Scope.ofProgram program')) :=
  resolve_rel_of_definitions (definitions_rel hM hpaths h)

end

end ReactCatalog
