import Mathlib.Algebra.Order.BigOperators.Group.List
import ReactCatalog.Proofs.GroundedDocuments

/-!
# The tables of a module scope

A module scope says for each name what the last declaration of it binds it to, and which module the last import of it
names (`LastRelated`). Declarations are those at the top level, plain or exported (`BindsAt`); an import statement
introduces the names that its parts stand for, however deep they are (`ImportPart`). The parts may be visited in any
order, for all names of a statement come from one module (`Visits.eq`, `builds_iff`).

The name of an import of a whole module is the first part of it, and that may be a comment. Then the comment is taken
for the name (`comment_taken_for_name`).
-/

namespace ReactCatalog

/-! ## The last of a list -/

section

variable {α β γ : Type} {R : α → β → Prop}

/-- What the last element of a list that is related to anything is related to. -/
def LastRelated (R : α → β → Prop) (l : List α) (b : β) : Prop :=
  ∃ before a after, l = before ++ a :: after ∧ R a b ∧ ∀ c ∈ after, ∀ y, ¬ R c y

/-- No element of a list is related to anything. -/
def NoneRelated (R : α → β → Prop) (l : List α) : Prop := ∀ a ∈ l, ∀ y, ¬ R a y

theorem lastRelated_nil {b : β} : ¬ LastRelated R [] b := by
  rintro ⟨before, a, after, h, _⟩
  simp at h

theorem lastRelated_cons {a : α} {l : List α} {b : β} :
    LastRelated R (a :: l) b ↔ LastRelated R l b ∨ NoneRelated R l ∧ R a b := by
  constructor
  · rintro ⟨before, c, after, h, hc, hafter⟩
    cases before with
    | nil =>
      obtain ⟨rfl, rfl⟩ := List.cons.inj h
      exact .inr ⟨hafter, hc⟩
    | cons x before =>
      obtain ⟨rfl, rfl⟩ := List.cons.inj h
      exact .inl ⟨before, c, after, rfl, hc, hafter⟩
  · rintro (⟨before, c, after, rfl, hc, hafter⟩ | ⟨hnone, ha⟩)
    · exact ⟨a :: before, c, after, rfl, hc, hafter⟩
    · exact ⟨[], a, l, rfl, ha, hnone⟩

theorem lastRelated_congr {S : α → β → Prop} {l : List α} (h : ∀ a ∈ l, ∀ b, R a b ↔ S a b) (b : β) :
    LastRelated R l b ↔ LastRelated S l b := by
  induction l with
  | nil => exact iff_of_false lastRelated_nil lastRelated_nil
  | cons a l ih =>
    obtain ⟨ha, hl⟩ := List.forall_mem_cons.1 h
    have hnone : NoneRelated R l ↔ NoneRelated S l :=
      forall₂_congr fun c hc => forall_congr' fun y => not_congr (hl c hc y)
    rw [lastRelated_cons, lastRelated_cons, ih hl, hnone, ha b]

theorem noneRelated_cons {a : α} {l : List α} : NoneRelated R (a :: l) ↔ (∀ y, ¬ R a y) ∧ NoneRelated R l :=
  List.forall_mem_cons

theorem noneRelated_append {l m : List α} : NoneRelated R (l ++ m) ↔ NoneRelated R l ∧ NoneRelated R m :=
  List.forall_mem_append

theorem lastRelated_append {l m : List α} {b : β} :
    LastRelated R (l ++ m) b ↔ LastRelated R m b ∨ NoneRelated R m ∧ LastRelated R l b := by
  induction l with
  | nil => simp [lastRelated_nil]
  | cons a l ih =>
    rw [List.cons_append, lastRelated_cons, ih, noneRelated_append, lastRelated_cons]
    tauto

theorem exists_lastRelated_iff {l : List α} : (∃ b, LastRelated R l b) ↔ ∃ a ∈ l, ∃ b, R a b := by
  constructor
  · rintro ⟨b, before, a, after, rfl, ha, _⟩
    exact ⟨a, by simp, b, ha⟩
  · intro h
    induction l with
    | nil => simp at h
    | cons a l ih =>
      by_cases hl : ∃ c ∈ l, ∃ b, R c b
      · obtain ⟨b, hb⟩ := ih hl
        exact ⟨b, lastRelated_cons.2 (.inl hb)⟩
      · have hnone : NoneRelated R l := fun c hc y hy => hl ⟨c, hc, y, hy⟩
        obtain ⟨c, hc, b, hb⟩ := h
        rcases List.mem_cons.1 hc with rfl | hc
        · exact ⟨b, lastRelated_cons.2 (.inr ⟨hnone, hb⟩)⟩
        · exact absurd hb (hnone c hc b)

theorem noneRelated_lastRelated {δ : Type} {parts : δ → List α} {l : List δ} :
    NoneRelated (fun x => LastRelated R (parts x)) l ↔ NoneRelated R (l.flatMap parts) := by
  have hnone : ∀ x, (∀ b, ¬ LastRelated R (parts x) b) ↔ NoneRelated R (parts x) := by
    intro x
    rw [← not_exists, exists_lastRelated_iff]
    simp [NoneRelated]
  simp only [NoneRelated, List.mem_flatMap] at hnone ⊢
  simp only [hnone]
  grind

/-- To take the last of each part and then the last of all is to take the last of all parts. -/
theorem lastRelated_flatMap {δ : Type} {parts : δ → List α} {l : List δ} {b : β} :
    LastRelated (fun x => LastRelated R (parts x)) l b ↔ LastRelated R (l.flatMap parts) b := by
  induction l with
  | nil => simp [lastRelated_nil]
  | cons x l ih => rw [List.flatMap_cons, lastRelated_append, lastRelated_cons, ih, noneRelated_lastRelated]

/-- If each step shows what its element is related to, or else what was there, all steps show what the last element
that is related to anything is related to. -/
theorem foldl_eq_some_iff (shown : γ → Option β) (step : γ → α → γ)
    (hnew : ∀ d a b, R a b → shown (step d a) = some b)
    (hold : ∀ d a, (∀ b, ¬ R a b) → shown (step d a) = shown d) (l : List α) (d : γ) (b : β) :
    shown (l.foldl step d) = some b ↔ LastRelated R l b ∨ NoneRelated R l ∧ shown d = some b := by
  induction l generalizing d with
  | nil => simp [lastRelated_nil, NoneRelated]
  | cons a l ih =>
    rw [List.foldl_cons, ih, lastRelated_cons, noneRelated_cons]
    by_cases ha : ∃ y, R a y
    · obtain ⟨y, hy⟩ := ha
      have hb : shown (step d a) = some b ↔ R a b := by
        refine ⟨fun h => ?_, hnew d a b⟩
        rw [hnew d a y hy] at h
        exact Option.some.inj h ▸ hy
      have hnot : ¬ ∀ y, ¬ R a y := fun h => h y hy
      tauto
    · have hnone : ∀ y, ¬ R a y := not_exists.1 ha
      rw [hold d a hnone]
      have hb := hnone b
      tauto

end

/-! ## Declarations -/

/-- Functions, generators and classes that are declared. -/
def definedKinds : List Kind := [.functionDeclaration, .generatorFunctionDeclaration, .classDeclaration]

/-- Declarations of variables. -/
def variableKinds : List Kind := [.lexicalDeclaration, .variableDeclaration]

/-- What a declaration binds a name to: a definition is bound to its own name, and a variable with a plain name is bound
to its initial value. -/
inductive BindsAt : Place → String → Binding → Prop
  | ofDefinition {p name : Place} (hk : p.kind ∈ definedKinds) (hname : p.field? .name = some name) :
      BindsAt p name.text ⟨p, none⟩
  | ofVariable {p name value : Place} (hk : p.kind = .variableDeclarator) (hname : p.field? .name = some name)
      (hplain : name.kind = .identifier) (hvalue : p.field? .value = some value) :
      BindsAt p name.text ⟨value, some p⟩

/-- The parts of a declaration that may bind a name. -/
def Place.bindingParts (p : Place) : List Place :=
  if p.kind ∈ definedKinds then [p]
  else if p.kind ∈ variableKinds then p.namedChildren.filter fun c => c.kind == .variableDeclarator
  else []

/-- Those of the declaration that a statement makes, plain or exported. -/
def Place.declaringParts (p : Place) : List Place := (declarationIn? p).toList.flatMap Place.bindingParts

/-- Everything that may bind a name at the top level of a module, in the order of the text. -/
def topDeclarations (program : Place) : List Place := program.namedChildren.flatMap Place.declaringParts

namespace Scope

/-- Bind what one part of a declaration declares. -/
def bindPart (s : Scope) (p : Place) : Scope :=
  if p.kind ∈ definedKinds then s.declare p else if p.kind = .variableDeclarator then s.bindDeclarator p else s

theorem lookup_bind_self (s : Scope) (name : String) (b : Binding) : (s.bind name b).lookup name = some b :=
  Dictionary.find?_insert_self name b s.bindings

theorem lookup_bind_of_ne (s : Scope) {name other : String} (hne : other ≠ name) (b : Binding) :
    (s.bind name b).lookup other = s.lookup other :=
  Dictionary.find?_insert_of_ne hne b s.bindings

theorem declare_of_defined (s : Scope) {p : Place} (hk : p.kind ∈ definedKinds) :
    s.declare p = ((p.field? .name).map fun name => s.bind name.text ⟨p, none⟩).getD s := by
  unfold declare
  split
  case h_1 | h_2 | h_3 => cases p.field? .name <;> rfl
  case h_4 hv | h_5 hv => rw [hv] at hk; exact absurd hk (by decide)
  case h_6 h₁ h₂ h₃ _ _ =>
    simp only [definedKinds, List.mem_cons, List.not_mem_nil, or_false] at hk
    rcases hk with hk | hk | hk
    · exact absurd hk h₁
    · exact absurd hk h₂
    · exact absurd hk h₃

theorem lookup_bindPart_of_bindsAt {p : Place} {name : String} {b : Binding} (h : BindsAt p name b) (s : Scope) :
    (s.bindPart p).lookup name = some b := by
  cases h with
  | ofDefinition hk hname =>
    rw [bindPart, if_pos hk, declare_of_defined s hk, hname]
    exact lookup_bind_self s _ _
  | ofVariable hk hname hplain hvalue =>
    rw [bindPart, if_neg (by rw [hk]; decide), if_pos hk, bindDeclarator, if_pos hk, hname, hvalue]
    dsimp only
    rw [if_pos hplain]
    exact lookup_bind_self s _ _

theorem lookup_bindPart_of_not {p : Place} {name : String} (h : ∀ b, ¬ BindsAt p name b) (s : Scope) :
    (s.bindPart p).lookup name = s.lookup name := by
  unfold bindPart
  split
  · next hk =>
    rw [declare_of_defined s hk]
    cases hname : p.field? .name with
    | none => rfl
    | some x =>
      refine lookup_bind_of_ne s ?_ _
      rintro rfl
      exact h _ (.ofDefinition hk hname)
  · split
    · next hk =>
      rw [bindDeclarator, if_pos hk]
      split
      · next x v hname hvalue =>
        split
        · next hplain =>
          refine lookup_bind_of_ne s ?_ _
          rintro rfl
          exact h _ (.ofVariable hk hname hplain hvalue)
        · rfl
      · rfl
    · rfl

theorem declare_eq (s : Scope) (p : Place) : s.declare p = p.bindingParts.foldl bindPart s := by
  unfold Place.bindingParts
  split
  · next hk => rw [List.foldl_cons, List.foldl_nil, bindPart, if_pos hk]
  · next hk =>
    have hstep : ∀ (s : Scope) (c : Place),
        s.bindDeclarator c = if c.kind == .variableDeclarator then s.bindPart c else s := by
      intro s c
      by_cases hc : c.kind = .variableDeclarator
      · rw [if_pos (beq_iff_eq.2 hc), bindPart, if_neg (by rw [hc]; decide), if_pos hc]
      · rw [if_neg (by simpa using hc), bindDeclarator, if_neg hc]
    have hfold : p.namedChildren.foldl bindDeclarator s =
        (p.namedChildren.filter fun c => c.kind == .variableDeclarator).foldl bindPart s := by
      rw [List.foldl_filter]
      exact congrArg (fun f => List.foldl f s p.namedChildren) (funext₂ hstep)
    unfold declare
    split
    case h_1 h | h_2 h | h_3 h => rw [h] at hk; exact absurd (by decide) hk
    case h_4 h | h_5 h => rw [h, if_pos (by decide), hfold]
    case h_6 _ _ _ h₄ h₅ =>
      rw [if_neg]
      · rfl
      · simp only [variableKinds, List.mem_cons, List.not_mem_nil, or_false]
        exact fun h => h.elim h₄ h₅

theorem lookup_addImport (s : Scope) (p : Place) (name : String) : (s.addImport p).lookup name = s.lookup name := by
  unfold addImport
  split <;> rfl

theorem lookup_addStatement (s : Scope) (p : Place) (name : String) :
    (s.addStatement p).lookup name = (p.declaringParts.foldl bindPart s).lookup name := by
  unfold addStatement Place.declaringParts declarationIn?
  split
  · next hk =>
    rw [if_pos hk]
    cases p.field? .declaration with
    | none => rfl
    | some d => simp [declare_eq]
  · next hk =>
    have hparts : p.bindingParts = [] := by simp [Place.bindingParts, hk, definedKinds, variableKinds]
    rw [if_neg (by rw [hk]; decide), lookup_addImport]
    simp [hparts]
  · next hk _ =>
    rw [if_neg hk]
    simp [declare_eq]

/-- A statement shows what the last of its parts that binds the name binds it to, or else what was there. -/
theorem lookup_addStatement_eq_some_iff (s : Scope) (p : Place) (name : String) (b : Binding) :
    (s.addStatement p).lookup name = some b ↔
      LastRelated (BindsAt · name) p.declaringParts b ∨
        NoneRelated (BindsAt · name) p.declaringParts ∧ s.lookup name = some b := by
  rw [lookup_addStatement]
  exact foldl_eq_some_iff (R := (BindsAt · name)) (Scope.lookup · name) bindPart
    (fun s _ _ h => lookup_bindPart_of_bindsAt h s) (fun s _ h => lookup_bindPart_of_not h s) p.declaringParts s b

/-- A module scope binds a name to what the last declaration of it says. -/
theorem lookup_ofProgram_iff (program : Place) (name : String) (b : Binding) :
    (ofProgram program).lookup name = some b ↔ LastRelated (BindsAt · name) (topDeclarations program) b := by
  have hrun := foldl_eq_some_iff (R := fun p => LastRelated (BindsAt · name) p.declaringParts) (Scope.lookup · name)
    addStatement ?_ ?_ program.namedChildren {} b
  · refine hrun.trans ?_
    rw [lastRelated_flatMap]
    exact or_iff_left fun h => by cases h.2
  · exact fun s p b h => (lookup_addStatement_eq_some_iff s p name b).2 (.inl h)
  · intro s p hnone
    have hparts : NoneRelated (BindsAt · name) p.declaringParts := by
      intro a ha y hy
      obtain ⟨b, hb⟩ := (exists_lastRelated_iff (R := (BindsAt · name))).2 ⟨a, ha, y, hy⟩
      exact hnone b hb
    refine Option.ext fun b => ?_
    rw [lookup_addStatement_eq_some_iff]
    exact ⟨fun h => (h.resolve_left (hnone b)).2, fun h => .inr ⟨hparts, h⟩⟩

end Scope

/-! ## Imports -/

/-- Parts of an import statement that are there for the parts in them. -/
def groupKinds : List Kind := [.importClause, .namedImports]

/-- A part, or one in it at any depth. -/
inductive PartOf : Place → Place → Prop
  | self (c : Place) : PartOf c c
  | inside {c d e : Place} (hk : c.kind ∈ groupKinds) (hd : d ∈ c.namedChildren) (he : PartOf d e) : PartOf c e

/-- The parts of an import statement, at any depth. -/
def ImportPart (p c : Place) : Prop := ∃ d ∈ p.namedChildren, PartOf d c

/-- The name that a part of an import statement introduces: that of the default of a module; an alias, or else the name
that is imported; the name for a whole module. -/
inductive Reading.NamesLocal (r : Reading) : Place → String → Prop
  | ofDefault {p : Place} (hk : p.kind = .identifier) : NamesLocal r p p.text
  | ofAlias {p name : Place} (hk : p.kind = .importSpecifier) (ha : p.field? Field.alias = some name) :
      NamesLocal r p name.text
  | ofName {p name : Place} (hk : p.kind = .importSpecifier) (ha : p.field? Field.alias = none)
      (hn : p.field? .name = some name) : NamesLocal r p name.text
  | ofWhole {p name : Place} (hk : p.kind = .namespaceImport) (hn : (r.parts p).head? = some name) :
      NamesLocal r p name.text

/-- An import statement introduces a name and says which module it comes from. -/
structure Reading.ImportsAs (r : Reading) (p : Place) (name specifier : String) : Prop where
  source : Imports p specifier
  introduced : ∃ c, ImportPart p c ∧ r.NamesLocal c name

/-- The names that a part introduces by itself. -/
def ownNames (c : Place) : List String :=
  match c.kind with
  | .identifier => [c.text]
  | .importSpecifier => (((c.field? .alias) <|> (c.field? .name)).map Place.text).toList
  | .namespaceImport => (c.namedChildren.head?.map Place.text).toList
  | _ => []

/-- The parts that are there to be visited after a part. -/
def innerParts (c : Place) : List Place := if c.kind ∈ groupKinds then c.namedChildren else []

theorem importedNames_eq (c : Place) :
    Scope.importedNames c = ownNames c ++ (innerParts c).flatMap Scope.importedNames := by
  rw [Scope.importedNames, List.flatMap_subtype (g := Scope.importedNames) fun _ _ => rfl, List.unattach_attach]
  unfold ownNames innerParts
  split
  case h_1 hk | h_2 hk | h_3 hk | h_4 hk | h_5 hk => simp [hk, groupKinds]
  case h_6 h₁ h₂ h₃ h₄ h₅ =>
    have hk : c.kind ∉ groupKinds := by
      simp only [groupKinds, List.mem_cons, List.not_mem_nil, or_false]
      exact fun h => h.elim h₄ h₅
    rw [if_neg hk, List.flatMap_nil, List.append_nil]
    split
    · next h => exact absurd h h₁
    · next h => exact absurd h h₂
    · next h => exact absurd h h₃
    · rfl

theorem mem_ownNames_iff {c : Place} {name : String} : name ∈ ownNames c ↔ Reading.written.NamesLocal c name := by
  unfold ownNames
  constructor
  · intro h
    split at h
    · next hk =>
      obtain rfl := List.mem_singleton.1 h
      exact .ofDefault hk
    · next hk =>
      cases ha : c.field? Field.alias with
      | none =>
        rw [ha] at h
        obtain ⟨x, hx, rfl⟩ := Option.map_eq_some_iff.1 (Option.mem_toList.1 h)
        exact .ofName hk ha hx
      | some x =>
        rw [ha] at h
        obtain rfl := List.mem_singleton.1 h
        exact .ofAlias hk ha
    · next hk =>
      obtain ⟨x, hx, rfl⟩ := Option.map_eq_some_iff.1 (Option.mem_toList.1 h)
      exact .ofWhole hk hx
    · cases h
  · rintro (hk | ⟨hk, ha⟩ | ⟨hk, ha, hn⟩ | ⟨hk, hn⟩)
    · simp [hk]
    · simp [hk, ha]
    · simp [hk, ha, hn]
    · have hhead : c.namedChildren.head? = _ := hn
      simp [hk, hhead]

theorem sizeOf_node_lt_of_mem_innerParts {c d : Place} (h : d ∈ innerParts c) : sizeOf d.node < sizeOf c.node := by
  unfold innerParts at h
  split at h
  · exact Place.sizeOf_node_lt_of_mem_namedChildren h
  · cases h

theorem partOf_iff {c e : Place} : PartOf c e ↔ e = c ∨ ∃ d ∈ innerParts c, PartOf d e := by
  unfold innerParts
  constructor
  · rintro (_ | ⟨hk, hd, he⟩)
    · exact .inl rfl
    · exact .inr ⟨_, by rwa [if_pos hk], he⟩
  · rintro (rfl | ⟨d, hd, he⟩)
    · exact .self _
    · split at hd
      · next hk => exact .inside hk hd he
      · cases hd

theorem mem_importedNames_iff {c : Place} {name : String} :
    name ∈ Scope.importedNames c ↔ ∃ e, PartOf c e ∧ Reading.written.NamesLocal e name := by
  induction hn : sizeOf c.node using Nat.strongRecOn generalizing c with
  | ind n ih =>
    subst hn
    rw [importedNames_eq, List.mem_append, mem_ownNames_iff, List.mem_flatMap]
    constructor
    · rintro (hown | ⟨d, hd, hname⟩)
      · exact ⟨c, .self c, hown⟩
      · obtain ⟨e, he, hlocal⟩ := (ih _ (sizeOf_node_lt_of_mem_innerParts hd) rfl).1 hname
        exact ⟨e, partOf_iff.2 (.inr ⟨d, hd, he⟩), hlocal⟩
    · rintro ⟨e, he, hlocal⟩
      rcases partOf_iff.1 he with rfl | ⟨d, hd, he⟩
      · exact .inl hlocal
      · exact .inr ⟨d, hd, (ih _ (sizeOf_node_lt_of_mem_innerParts hd) rfl).2 ⟨e, he, hlocal⟩⟩

/-! ## What a statement imports -/

/-- Put names into a table, all for one module. -/
def noteNames (specifier : String) (names : List String) (d : Dictionary String) : Dictionary String :=
  names.foldl (fun d n => Dictionary.insert n specifier d) d

theorem find?_noteNames (specifier : String) (names : List String) (d : Dictionary String) (key : String) :
    Dictionary.find? (noteNames specifier names d) key =
      if key ∈ names then some specifier else Dictionary.find? d key := by
  induction names generalizing d with
  | nil => rfl
  | cons n names ih =>
    have hstep : noteNames specifier (n :: names) d = noteNames specifier names (Dictionary.insert n specifier d) := rfl
    rw [hstep, ih, Dictionary.find?_insert]
    by_cases hn : key = n <;> by_cases hmem : key ∈ names <;> simp [hn, hmem]

theorem sorted_noteNames {d : Dictionary String} (hd : Dictionary.Sorted d) (specifier : String)
    (names : List String) : Dictionary.Sorted (noteNames specifier names d) :=
  List.foldlRecOn names _ hd fun _ hd n _ => hd.insert n specifier

/-- The order of names that come from one module makes no difference, nor does a repetition. -/
theorem noteNames_congr {d : Dictionary String} (hd : Dictionary.Sorted d) (specifier : String)
    {names names' : List String} (h : ∀ n, n ∈ names ↔ n ∈ names') :
    noteNames specifier names d = noteNames specifier names' d := by
  refine (sorted_noteNames hd specifier names).ext (sorted_noteNames hd specifier names') fun key => ?_
  rw [find?_noteNames, find?_noteNames]
  simp only [h]

theorem addImport_eq {p : Place} {text : String} (h : p.fieldText? .source = some text) (s : Scope) :
    s.addImport p = { s with
      imports := noteNames (Text.trimBoth isQuote text) (p.namedChildren.flatMap Scope.importedNames) s.imports } := by
  unfold Scope.addImport
  rw [h]
  rfl

/-- There is one text between the quotes. -/
theorem Stripped.eq_trimBoth {p : Char → Bool} {s t : String} (h : Stripped p s t) : t = Text.trimBoth p s := by
  obtain ⟨⟨before, after, hall, hs⟩, hfirst, hlast⟩ := h
  obtain ⟨hbefore, hafter⟩ := List.forall_mem_append.1 hall
  rw [← String.toList_inj, Text.trimBoth, String.toList_ofList, hs, List.append_assoc,
    List.dropWhile_append_of_pos hbefore]
  cases ht : t.toList with
  | nil =>
    rw [List.nil_append, List.dropWhile_eq_nil_iff.2 hafter]
    rfl
  | cons c cs =>
    have hc : p c = false := hfirst c (by rw [ht, List.head?_cons])
    have hends : (c :: cs).reverse.dropWhile p = (c :: cs).reverse := by
      rw [List.dropWhile_eq_self_iff]
      intro hlt
      rw [← List.head_eq_getElem_zero (List.length_pos_iff.1 hlt), List.head_reverse]
      simpa using hlast _ (by rw [ht]; exact List.getLast?_eq_some_getLast _)
    rw [List.cons_append, List.dropWhile_cons_of_neg (by simp [hc]), Text.dropEndWhile, ← List.cons_append,
      List.reverse_append, List.dropWhile_append_of_pos fun x hx => hafter x (List.mem_reverse.1 hx), hends,
      List.reverse_reverse]

theorem imports_iff {p : Place} {specifier : String} :
    Imports p specifier ↔ p.kind = .importStatement ∧
      (p.fieldText? .source).map (Text.trimBoth isQuote) = some specifier := by
  constructor
  · rintro ⟨hk, text, htext, hstripped⟩
    rw [htext, Option.map_some, hstripped.eq_trimBoth]
    exact ⟨hk, rfl⟩
  · rintro ⟨hk, hsource⟩
    obtain ⟨text, htext, rfl⟩ := Option.map_eq_some_iff.1 hsource
    exact ⟨hk, text, htext, stripped_trimBoth isQuote text⟩

theorem mem_flatMap_importedNames_iff {p : Place} {name : String} :
    name ∈ p.namedChildren.flatMap Scope.importedNames ↔
      ∃ c, ImportPart p c ∧ Reading.written.NamesLocal c name := by
  simp only [List.mem_flatMap, mem_importedNames_iff, ImportPart]
  grind

namespace Scope

variable {p : Place} {name specifier : String}

theorem addStatement_of_import (hk : p.kind = .importStatement) (s : Scope) : s.addStatement p = s.addImport p := by
  unfold addStatement
  rw [hk]

theorem importOf?_addStatement_of_importsAs (h : Reading.written.ImportsAs p name specifier) (s : Scope) :
    (s.addStatement p).importOf? name = some specifier := by
  obtain ⟨hk, hsource⟩ := imports_iff.1 h.source
  obtain ⟨text, htext, rfl⟩ := Option.map_eq_some_iff.1 hsource
  rw [addStatement_of_import hk, addImport_eq htext, importOf?, find?_noteNames,
    if_pos (mem_flatMap_importedNames_iff.2 h.introduced)]

theorem importOf?_addStatement_of_not (h : ∀ specifier, ¬ Reading.written.ImportsAs p name specifier) (s : Scope) :
    (s.addStatement p).importOf? name = s.importOf? name := by
  by_cases hk : p.kind = .importStatement
  · rw [addStatement_of_import hk]
    cases htext : p.fieldText? .source with
    | none =>
      unfold addImport
      rw [htext]
    | some text =>
      rw [addImport_eq htext, importOf?, find?_noteNames, if_neg]
      · rfl
      · intro hmem
        exact h _ ⟨imports_iff.2 ⟨hk, by rw [htext]; rfl⟩, mem_flatMap_importedNames_iff.1 hmem⟩
  · unfold addStatement
    split
    · cases p.field? .declaration with
      | none => rfl
      | some d => exact congrArg (Dictionary.find? · name) (imports_declare s d)
    · next hp => exact absurd hp hk
    · exact congrArg (Dictionary.find? · name) (imports_declare s p)

/-- An imported name comes from the module that the last import of it names. -/
theorem importOf?_ofProgram_iff (program : Place) (name specifier : String) :
    (ofProgram program).importOf? name = some specifier ↔
      LastRelated (Reading.written.ImportsAs · name) program.namedChildren specifier := by
  refine (foldl_eq_some_iff (R := (Reading.written.ImportsAs · name)) (Scope.importOf? · name) addStatement
    (fun s p _ h => importOf?_addStatement_of_importsAs h s) (fun s p h => importOf?_addStatement_of_not h s)
    program.namedChildren {} specifier).trans ?_
  exact or_iff_left fun h => by cases h.2

theorem sorted_imports_addStatement {s : Scope} (hs : Dictionary.Sorted s.imports) (p : Place) :
    Dictionary.Sorted (s.addStatement p).imports := by
  unfold addStatement
  split
  · cases p.field? .declaration with
    | none => exact hs
    | some d => exact (imports_declare s d).symm ▸ hs
  · cases htext : p.fieldText? .source with
    | none =>
      unfold addImport
      rw [htext]
      exact hs
    | some text =>
      rw [addImport_eq htext]
      exact sorted_noteNames hs _ _
  · exact (imports_declare s p).symm ▸ hs

end Scope

/-! ## Any order of visits -/

/-- A worklist of parts is emptied: one part at a time, whichever, its names are put into the table and the parts in it
on the list. -/
inductive Visits (specifier : String) : List Place → Dictionary String → Dictionary String → Prop
  | done (d : Dictionary String) : Visits specifier [] d d
  | visit {pending others : List Place} {c : Place} {d d' : Dictionary String} (hperm : pending.Perm (c :: others))
      (hrest : Visits specifier (innerParts c ++ others) (noteNames specifier (ownNames c) d) d') :
      Visits specifier pending d d'

theorem Visits.perm {specifier : String} {pending pending' : List Place} {d d' : Dictionary String}
    (h : Visits specifier pending d d') (hperm : pending.Perm pending') : Visits specifier pending' d d' := by
  cases h with
  | done =>
    rw [← hperm.nil_eq]
    exact .done d
  | visit hfirst hrest => exact .visit (hperm.symm.trans hfirst) hrest

/-- Whatever the order, the table is the same in the end. -/
theorem Visits.eq {specifier : String} {pending : List Place} {d d' : Dictionary String}
    (h : Visits specifier pending d d') (hd : Dictionary.Sorted d) :
    d' = noteNames specifier (pending.flatMap Scope.importedNames) d := by
  induction h with
  | done d => rfl
  | @visit pending others c d d' hperm _ ih =>
    have hnote : ∀ names, noteNames specifier names (noteNames specifier (ownNames c) d) =
        noteNames specifier (ownNames c ++ names) d := fun names => (List.foldl_append ..).symm
    rw [ih (sorted_noteNames hd _ _), hnote, List.flatMap_append, ← List.append_assoc, ← importedNames_eq]
    refine noteNames_congr hd specifier fun n => ?_
    rw [← List.flatMap_cons]
    exact ((hperm.flatMap_right _).mem_iff).symm

theorem Node.sum_sizeOf_children_lt (n : Node) : (n.children.map sizeOf).sum < sizeOf n := by
  obtain ⟨k, s, f, ps⟩ := n
  have hparts : ((ps.map Prod.snd).map sizeOf).sum ≤ sizeOf ps := by
    induction ps with
    | nil => exact Nat.zero_le _
    | cons x ps ih =>
      obtain ⟨a, b⟩ := x
      simp only [List.map_cons, List.sum_cons, List.cons.sizeOf_spec, Prod.mk.sizeOf_spec]
      omega
  simp only [Node.children, Node.parts, Node.mk.sizeOf_spec]
  omega

/-- The parts in a part are less than the part. -/
theorem sum_sizeOf_innerParts_lt (c : Place) : ((innerParts c).map fun d => sizeOf d.node).sum < sizeOf c.node := by
  have hchildren : (c.children.map fun d => sizeOf d.node) = c.node.children.map sizeOf := by
    rw [Place.children, List.map_map, ← List.zipIdx_map_fst 0 c.node.children, List.map_map, List.zipIdx_map_fst]
    rfl
  have hnamed : (c.namedChildren.map fun d => sizeOf d.node).sum ≤ (c.children.map fun d => sizeOf d.node).sum :=
    (List.filter_sublist.map _).sum_le_sum (by simp)
  have hlt := Node.sum_sizeOf_children_lt c.node
  rw [hchildren] at hnamed
  unfold innerParts
  split
  · omega
  · simp only [List.map_nil, List.sum_nil]
    omega

/-- The worklist that takes what was put on it last. -/
def visitLast (specifier : String) (stack : List Place) (d : Dictionary String) : Dictionary String :=
  match _h : stack.getLast? with
  | none => d
  | some c => visitLast specifier (stack.dropLast ++ innerParts c) (noteNames specifier (ownNames c) d)
termination_by (stack.map fun c => sizeOf c.node).sum
decreasing_by
  have hlt := sum_sizeOf_innerParts_lt c
  obtain ⟨before, rfl⟩ := List.getLast?_eq_some_iff.1 _h
  simp only [List.dropLast_concat, List.map_append, List.sum_append, List.map_cons, List.map_nil, List.sum_cons,
    List.sum_nil]
  omega

theorem visits_visitLast (specifier : String) (stack : List Place) (d : Dictionary String) :
    Visits specifier stack d (visitLast specifier stack d) := by
  fun_induction visitLast specifier stack d with
  | case1 stack d h =>
    rw [List.getLast?_eq_none_iff.1 h]
    exact .done d
  | case2 stack d c h ih =>
    obtain ⟨before, rfl⟩ := List.getLast?_eq_some_iff.1 h
    rw [List.dropLast_concat] at ih ⊢
    exact .visit (List.perm_append_singleton c before) (ih.perm List.perm_append_comm)

/-- A scope is built statement by statement, where the parts of an import statement are visited in any order. -/
inductive Builds : List Place → Scope → Scope → Prop
  | done (s : Scope) : Builds [] s s
  | imports {p : Place} {rest : List Place} {s s' : Scope} {specifier : String} {d : Dictionary String}
      (hp : Imports p specifier) (hd : Visits specifier p.namedChildren s.imports d)
      (hrest : Builds rest { s with imports := d } s') : Builds (p :: rest) s s'
  | other {p : Place} {rest : List Place} {s s' : Scope} (hp : ∀ specifier, ¬ Imports p specifier)
      (hrest : Builds rest (s.addStatement p) s') : Builds (p :: rest) s s'

theorem addStatement_of_visits {p : Place} {specifier : String} {s : Scope} {d : Dictionary String}
    (hp : Imports p specifier) (hs : Dictionary.Sorted s.imports) (hd : Visits specifier p.namedChildren s.imports d) :
    s.addStatement p = { s with imports := d } := by
  obtain ⟨hk, hsource⟩ := imports_iff.1 hp
  obtain ⟨text, htext, rfl⟩ := Option.map_eq_some_iff.1 hsource
  rw [Scope.addStatement_of_import hk, addImport_eq htext, hd.eq hs]

theorem builds_iff {ps : List Place} {s s' : Scope} (hs : Dictionary.Sorted s.imports) :
    Builds ps s s' ↔ s' = ps.foldl Scope.addStatement s := by
  constructor
  · intro h
    induction h with
    | done s => rfl
    | imports hp hd _ ih =>
      have hstep := addStatement_of_visits hp hs hd
      rw [List.foldl_cons, hstep]
      exact ih (hstep ▸ Scope.sorted_imports_addStatement hs _)
    | other hp _ ih => exact ih (Scope.sorted_imports_addStatement hs _)
  · rintro rfl
    induction ps generalizing s with
    | nil => exact .done s
    | cons p ps ih =>
      have hrest := ih (Scope.sorted_imports_addStatement hs p)
      by_cases hp : ∃ specifier, Imports p specifier
      · obtain ⟨specifier, hp⟩ := hp
        have hd := visits_visitLast specifier p.namedChildren s.imports
        rw [addStatement_of_visits hp hs hd] at hrest
        rw [List.foldl_cons, addStatement_of_visits hp hs hd]
        exact .imports hp hd hrest
      · exact .other (not_exists.1 hp) hrest

/-! ## The scope of a module -/

/-- In no import of a whole module a comment comes before the name. -/
def ClearImports (program : Place) : Prop :=
  ∀ p ∈ program.namedChildren, p.kind = .importStatement → ∀ c, ImportPart p c → c.kind = .namespaceImport →
    ∀ x ∈ c.namedChildren.head?, x.kind ≠ .comment

/-- A part and those in it. -/
def partsIn (c : Place) : List Place := c :: (innerParts c).attach.flatMap fun ⟨d, _⟩ => partsIn d
termination_by sizeOf c.node
decreasing_by exact sizeOf_node_lt_of_mem_innerParts ‹_›

theorem mem_partsIn_iff {c e : Place} : e ∈ partsIn c ↔ PartOf c e := by
  induction hn : sizeOf c.node using Nat.strongRecOn generalizing c with
  | ind n ih =>
    subst hn
    rw [partsIn, List.flatMap_subtype (g := partsIn) fun _ _ => rfl, List.unattach_attach, List.mem_cons,
      List.mem_flatMap, partOf_iff]
    refine or_congr_right (exists_congr fun d => and_congr_right fun hd => ?_)
    exact ih _ (sizeOf_node_lt_of_mem_innerParts hd) rfl

instance (program : Place) : Decidable (ClearImports program) :=
  decidable_of_iff (∀ p ∈ program.namedChildren, p.kind = .importStatement → ∀ d ∈ p.namedChildren, ∀ c ∈ partsIn d,
      c.kind = .namespaceImport → ∀ x ∈ c.namedChildren.head?, x.kind ≠ .comment) <| by
    simp only [ClearImports, ImportPart, mem_partsIn_iff]
    grind

/-- Only of an import of a whole module it matters how it is read. -/
theorem Reading.NamesLocal.reread {r r' : Reading} {c : Place} {name : String} (h : r.NamesLocal c name)
    (hhead : c.kind = .namespaceImport → (r.parts c).head? = (r'.parts c).head?) : r'.NamesLocal c name := by
  cases h with
  | ofDefault hk => exact .ofDefault hk
  | ofAlias hk ha => exact .ofAlias hk ha
  | ofName hk ha hn => exact .ofName hk ha hn
  | ofWhole hk hn => exact .ofWhole hk ((hhead hk).symm.trans hn)

theorem ClearImports.importsAs_proper {program p : Place} (h : ClearImports program) (hp : p ∈ program.namedChildren)
    (name specifier : String) :
    Reading.written.ImportsAs p name specifier ↔ Reading.proper.ImportsAs p name specifier := by
  have hhead : ∀ {c}, p.kind = .importStatement → ImportPart p c → c.kind = .namespaceImport →
      c.properChildren.head? = c.namedChildren.head? :=
    fun hk hc hwhole => head?_properChildren (h p hp hk _ hc hwhole)
  constructor
  · rintro ⟨hsource, c, hc, hname⟩
    exact ⟨hsource, c, hc, hname.reread fun hwhole => (hhead hsource.kind hc hwhole).symm⟩
  · rintro ⟨hsource, c, hc, hname⟩
    exact ⟨hsource, c, hc, hname.reread fun hwhole => hhead hsource.kind hc hwhole⟩

/-- A scope binds exactly the names that are declared at the top level, each to what its last declaration says, and
imports exactly the names that import statements introduce, each from the module of the last one. This is so for what
is read with comments counted, and with comments left out if none stands before the name for a whole module. Every run
through the statements builds this scope, in whatever order it visits the parts of an import statement. -/
theorem scope_of_last_statements (program : Place) {r : Reading}
    (hr : r = .written ∨ r = .proper ∧ ClearImports program) :
    let scope := Scope.ofProgram program
    (∀ name, scope.lookup name ≠ none ↔ ∃ d ∈ topDeclarations program, ∃ b, BindsAt d name b) ∧
    (∀ name b, scope.lookup name = some b ↔ LastRelated (BindsAt · name) (topDeclarations program) b) ∧
    (∀ name, scope.importOf? name ≠ none ↔ ∃ p ∈ program.namedChildren, ∃ specifier, r.ImportsAs p name specifier) ∧
    (∀ name specifier, scope.importOf? name = some specifier ↔
      LastRelated (r.ImportsAs · name) program.namedChildren specifier) ∧
    ∀ s, Builds program.namedChildren {} s ↔ s = scope := by
  intro scope
  have himports : ∀ name specifier, scope.importOf? name = some specifier ↔
      LastRelated (r.ImportsAs · name) program.namedChildren specifier := by
    intro name specifier
    rcases hr with rfl | ⟨rfl, hclear⟩
    · exact Scope.importOf?_ofProgram_iff program name specifier
    · exact (Scope.importOf?_ofProgram_iff program name specifier).trans
        (lastRelated_congr (fun p hp => hclear.importsAs_proper hp name) specifier)
  refine ⟨fun name => ?_, Scope.lookup_ofProgram_iff program, fun name => ?_, himports,
    fun s => builds_iff List.Pairwise.nil⟩
  · rw [Option.ne_none_iff_exists', ← exists_lastRelated_iff (R := (BindsAt · name))]
    exact exists_congr (Scope.lookup_ofProgram_iff program name)
  · rw [Option.ne_none_iff_exists', ← exists_lastRelated_iff (R := (r.ImportsAs · name))]
    exact exists_congr (himports name)

def shadowedLines : List String :=
  ["import React, \x7b Component as Base \x7d from 'react';\n", "import * as Base from './base';\n",
    "var a = 1, c = a, c = 2, b;\n", "export function a() \x7b\x7d"]

/-- A declarator whose name is one character long, with what stands for its value. -/
def shortDeclarator (start stop : Nat) (value : Kind) : Node :=
  .mk .variableDeclarator ⟨start, stop⟩ none [
    (some .name, .mk .identifier ⟨start, start + 1⟩ none []), (some .value, .mk value ⟨start + 4, stop⟩ none [])]

/-- A module that imports and declares names more than once. -/
def shadowedProgram : Place :=
  .root ⟨(shadowedLines.flatMap String.toList).toArray⟩ (.mk .program ⟨0, 132⟩ none [
    (none, .mk .importStatement ⟨0, 49⟩ none [
      (none, .mk .importClause ⟨7, 35⟩ none [
        (none, .mk .identifier ⟨7, 12⟩ none []),
        (none, .mk .namedImports ⟨14, 35⟩ none [
          (none, .mk .importSpecifier ⟨16, 33⟩ none [
            (some .name, .mk .identifier ⟨16, 25⟩ none []),
            (some Field.alias, .mk .identifier ⟨29, 33⟩ none [])])])]),
      (some .source, .mk .string ⟨41, 48⟩ none [])]),
    (none, .mk .importStatement ⟨50, 81⟩ none [
      (none, .mk .importClause ⟨57, 66⟩ none [
        (none, .mk .namespaceImport ⟨57, 66⟩ none [(none, .mk .identifier ⟨62, 66⟩ none [])])]),
      (some .source, .mk .string ⟨72, 80⟩ none [])]),
    (none, .mk .variableDeclaration ⟨82, 109⟩ none [
      (none, shortDeclarator 86 91 .number), (none, shortDeclarator 93 98 .identifier),
      (none, shortDeclarator 100 105 .number),
      (none, .mk .variableDeclarator ⟨107, 108⟩ none [(some .name, .mk .identifier ⟨107, 108⟩ none [])])]),
    (none, .mk .exportStatement ⟨110, 132⟩ none [
      (some .declaration, .mk .functionDeclaration ⟨117, 132⟩ none [
        (some .name, .mk .identifier ⟨126, 127⟩ none []),
        (some .body, .mk .statementBlock ⟨130, 132⟩ none [])])])])

/-- `Base` is the whole module of the second import, and `a` is the function that is exported. -/
theorem shadowed_by_last_statements :
    let scope := Scope.ofProgram shadowedProgram
    ClearImports shadowedProgram ∧ scope.importOf? "Base" = some "./base" ∧
      LastRelated (Reading.proper.ImportsAs · "Base") shadowedProgram.namedChildren "./base" ∧
      LastRelated (Reading.proper.ImportsAs · "React") shadowedProgram.namedChildren "react" ∧
      (∀ p ∈ shadowedProgram.namedChildren, ∀ specifier, ¬ Reading.proper.ImportsAs p "Component" specifier) ∧
      (∃ b, LastRelated (BindsAt · "a") (topDeclarations shadowedProgram) b ∧ b.value.text = "function a() \x7b\x7d" ∧
        b.declarator.map Place.text = none) ∧
      (∃ b, LastRelated (BindsAt · "c") (topDeclarations shadowedProgram) b ∧ b.value.text = "2" ∧
        b.declarator.map Place.text = some "c = 2") ∧
      ∀ d ∈ topDeclarations shadowedProgram, ∀ b, ¬ BindsAt d "b" b := by
  intro scope
  have hbase : scope.importOf? "Base" = some "./base" := by decide +kernel
  have hclear : ClearImports shadowedProgram := by decide +kernel
  obtain ⟨hbound, hlast, hintroduced, hlastImport, _⟩ :=
    scope_of_last_statements shadowedProgram (.inr ⟨rfl, hclear⟩)
  have hvalue : ∀ name value declarator,
      (scope.lookup name).map (fun b => (b.value.text, b.declarator.map Place.text)) = some (value, declarator) →
      ∃ b, LastRelated (BindsAt · name) (topDeclarations shadowedProgram) b ∧ b.value.text = value ∧
        b.declarator.map Place.text = declarator := by
    intro name value declarator h
    obtain ⟨b, hb, hparts⟩ := Option.map_eq_some_iff.1 h
    obtain ⟨hv, hd⟩ := Prod.mk.inj hparts
    exact ⟨b, (hlast name b).1 hb, hv, hd⟩
  refine ⟨hclear, hbase, (hlastImport _ _).1 hbase, (hlastImport _ _).1 (by decide +kernel), ?_,
    hvalue _ _ _ (by decide +kernel), hvalue _ _ _ (by decide +kernel), ?_⟩
  · intro p hp specifier h
    exact (hintroduced "Component").2 ⟨p, hp, specifier, h⟩ (by decide +kernel)
  · intro d hd b h
    have hnone : (scope.lookup "b").isNone = true := by decide +kernel
    exact (hbound "b").2 ⟨d, hd, b, h⟩ (Option.isNone_iff_eq_none.1 hnone)

/-- The text of the only statement of the module below. -/
def wholeText : String := "import * as /* c */ S from './s';"

def wholeProgram : Place :=
  .root ⟨wholeText.toList.toArray⟩ (.mk .program ⟨0, 33⟩ none [
    (none, .mk .importStatement ⟨0, 33⟩ none [
      (none, .mk .importClause ⟨7, 21⟩ none [
        (none, .mk .namespaceImport ⟨7, 21⟩ none [
          (none, .mk .comment ⟨12, 19⟩ none []), (none, .mk .identifier ⟨20, 21⟩ none [])])]),
      (some .source, .mk .string ⟨27, 32⟩ none [])])])

/-- The statement introduces `S`, and the scope has the comment before it in its place. -/
theorem comment_taken_for_name :
    let scope := Scope.ofProgram wholeProgram
    (∃ p ∈ wholeProgram.namedChildren, Reading.proper.ImportsAs p "S" "./s") ∧
      scope.importOf? "S" = none ∧ scope.importOf? "/* c */" = some "./s" := by
  intro scope
  have hparts : ∃ p ∈ wholeProgram.namedChildren, p.kind = .importStatement ∧
      (p.fieldText? .source).map (Text.trimBoth isQuote) = some "./s" ∧
      ∃ d ∈ p.namedChildren, ∃ c ∈ partsIn d, c.kind = .namespaceImport ∧
        ∃ name ∈ c.properChildren.head?, name.text = "S" := by
    decide +kernel
  obtain ⟨p, hp, hk, hsource, d, hd, c, hc, hwhole, name, hname, htext⟩ := hparts
  refine ⟨⟨p, hp, imports_iff.2 ⟨hk, hsource⟩, c, ⟨d, hd, mem_partsIn_iff.1 hc⟩, ?_⟩, by decide +kernel,
    by decide +kernel⟩
  rw [← htext]
  exact .ofWhole hwhole hname

end ReactCatalog
