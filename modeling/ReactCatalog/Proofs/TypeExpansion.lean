import Mathlib.Data.Fintype.Card
import Mathlib.Data.Set.Finite.Basic
import Mathlib.Logic.Relation
import ReactCatalog.Component.TypeNote
import ReactCatalog.Proofs.Places

/-!
# The signatures of a type of properties

A type of properties stands for a list of signatures: those in its braces, those of the parts of an intersection in
their order, and in the place of a name those of the interface or type alias that the module declares, inherited ones
first. `Expands` is that relation; it has no bound, and if no declaration leads back to itself, every type has one such
list (`expandable_of_acyclic`, `Expands.unique`).

Each signature comes with its level, and with whether a comment hides it. A signature declares a member if its name is
written out, and none if it is computed (`DeclaresMember`). Listing the members of a type gives those that are declared
above the ninth level and that no comment hides, in their order (`typeMembers_shown`).
-/

namespace ReactCatalog

/-! ## What types are made of -/

/-- How a type of properties is written. -/
inductive TypeForm where
  /-- Signatures in braces. -/
  | body
  /-- An annotation, or parentheses around a type. -/
  | wrapper
  | intersection
  | reference (name : String)
  | other
  deriving DecidableEq

def typeForm (p : Place) : TypeForm :=
  match p.kind with
  | .typeNote | .parenthesizedType => .wrapper
  | .objectType | .interfaceBody => .body
  | .intersectionType => .intersection
  | .typeIdentifier => .reference p.text
  | .genericType => .reference ((p.fieldText? .name).getD "")
  | _ => .other

/-- The type inside an annotation or parentheses. -/
def innerType? (p : Place) : Option Place := p.namedChildren.find? fun c => c.kind != .comment

/-- A comment stands before everything else. -/
def startsWithComment (p : Place) : Bool := p.namedChildren.head?.any fun c => c.kind == .comment

/-- The interfaces and type aliases that a module declares at its top level. -/
def typeDeclarations (program : Place) : List Place :=
  (program.namedChildren.filterMap declarationIn?).filter isTypeDeclaration

/-- The module declares the name as this interface or type alias. -/
def Declares (program : Place) (name : String) (d : Place) : Prop :=
  d ∈ typeDeclarations program ∧ d.fieldText? .name = some name

/-- No two interfaces or type aliases of the module have the same name. -/
def DistinctTypeNames (program : Place) : Prop :=
  ((typeDeclarations program).map fun d => d.fieldText? .name).Nodup

/-- The types that an interface extends. -/
def extendedTypes (d : Place) : List Place :=
  (d.children.filter fun c => c.kind == .extendsTypeClause).flatMap Place.namedChildren

/-- The type is made of others, which lie so many levels below it and may be hidden behind a comment. -/
inductive MadeOf (program p : Place) : Nat → Bool → List Place → Prop
  | inner : typeForm p = .wrapper → MadeOf program p 1 (startsWithComment p) (innerType? p).toList
  | parts : typeForm p = .intersection → MadeOf program p 1 false p.namedChildren
  | ofInterface {name : String} {d : Place} : typeForm p = .reference name → Declares program name d →
      d.kind = .interfaceDeclaration → MadeOf program p 2 false (extendedTypes d ++ (d.field? .body).toList)
  | ofAlias {name : String} {d : Place} : typeForm p = .reference name → Declares program name d →
      d.kind = .typeAliasDeclaration → MadeOf program p 2 false (d.field? .value).toList
  | undeclared {name : String} : typeForm p = .reference name → (∀ d, ¬ Declares program name d) →
      MadeOf program p 2 false []
  | other : typeForm p = .other → MadeOf program p 1 false []

/-- The signature of a property or a method, whatever its name. -/
def isSignature (p : Place) : Bool := p.kind == .propertySignature || p.kind == .methodSignature

/-- The name of a signature is written out, and not computed. -/
def NamedAs (p : Place) (name : String) : Prop := ∃ key, p.field? .name = some key ∧ Spells key name

/-- The member that a signature declares. A method has the type of a function, and a property without an annotation may
be anything. -/
structure DeclaresMember (p : Place) (m : TypeMember) : Prop where
  signature : isSignature p = true
  name : NamedAs p m.name
  type : m.type =
    if p.kind = .methodSignature then signatureType "function" p.text
    else ((p.field? .type).map annotatedType).getD (.named "any")
  optional : m.optional = p.hasSymbol "?"
  description : m.description = p.docblock?

/-- A signature found in a type: at which level, and whether behind a comment. -/
structure Signature where
  place : Place
  level : Nat
  hidden : Bool

/-- Types at one level stand for these signatures, in this order. -/
inductive Expands (program : Place) : Nat → Bool → List Place → List Signature → Prop
  | nil {level : Nat} {hidden : Bool} : Expands program level hidden [] []
  | body {level : Nat} {hidden : Bool} {p : Place} {rest : List Place} {l : List Signature} : typeForm p = .body →
      Expands program level hidden rest l →
      Expands program level hidden (p :: rest) ((p.namedChildren.filter isSignature).map (⟨·, level, hidden⟩) ++ l)
  | made {level levels : Nat} {hidden hides : Bool} {p : Place} {parts rest : List Place} {l l' : List Signature} :
      MadeOf program p levels hides parts → Expands program (level + levels) (hidden || hides) parts l →
      Expands program level hidden rest l' → Expands program level hidden (p :: rest) (l ++ l')

/-! ## Names and their declarations -/

theorem typeDeclaration?_eq (program : Place) (name : String) :
    typeDeclaration? program name = (typeDeclarations program).find? fun d => d.fieldText? .name == some name := by
  rw [typeDeclaration?, typeDeclarations, List.find?_filter]
  congr 1
  funext d
  rw [Bool.decide_and, Bool.decide_eq_true, Bool.decide_eq_true]

theorem Declares.unique {program : Place} {name : String} {d e : Place} (hnames : DistinctTypeNames program)
    (hd : Declares program name d) (he : Declares program name e) : d = e :=
  List.inj_on_of_nodup_map hnames hd.1 he.1 (hd.2.trans he.2.symm)

/-- The declaration that is looked up is the one of that name. -/
theorem typeDeclaration?_of_declares {program : Place} {name : String} {d : Place}
    (hnames : DistinctTypeNames program) (hd : Declares program name d) :
    typeDeclaration? program name = some d := by
  rw [typeDeclaration?_eq]
  cases hf : (typeDeclarations program).find? fun d => d.fieldText? .name == some name with
  | none =>
    have hn := List.find?_eq_none.1 hf d hd.1
    simp [hd.2] at hn
  | some e =>
    have he : Declares program name e := ⟨List.mem_of_find?_eq_some hf, by simpa using List.find?_some hf⟩
    rw [he.unique hnames hd]

theorem typeDeclaration?_of_undeclared {program : Place} {name : String} (h : ∀ d, ¬ Declares program name d) :
    typeDeclaration? program name = none := by
  rw [typeDeclaration?_eq, List.find?_eq_none]
  intro d hd hn
  exact h d ⟨hd, by simpa using hn⟩

theorem kind_of_declares {program : Place} {name : String} {d : Place} (h : Declares program name d) :
    d.kind = .interfaceDeclaration ∨ d.kind = .typeAliasDeclaration := by
  have hd := (List.mem_filter.1 h.1).2
  simpa [isTypeDeclaration] using hd

theorem declaredParts_interface {d : Place} (hk : d.kind = .interfaceDeclaration) :
    declaredParts d = extendedTypes d ++ (d.field? .body).toList := by
  simp [declaredParts, extendedTypes, hk]

theorem declaredParts_alias {d : Place} (hk : d.kind = .typeAliasDeclaration) :
    declaredParts d = (d.field? .value).toList := by
  simp [declaredParts, hk]

namespace MadeOf

variable {program p : Place} {levels levels' : Nat} {hides hides' : Bool} {parts parts' : List Place}

/-- A name stands for what its declaration is made of. -/
theorem of_reference {name : String} (hf : typeForm p = .reference name) (h : MadeOf program p levels hides parts) :
    levels = 2 ∧ hides = false ∧
      ((∃ d, Declares program name d ∧ parts = declaredParts d) ∨ (∀ d, ¬ Declares program name d) ∧ parts = []) := by
  cases h with
  | inner h => simp [hf] at h
  | parts h => simp [hf] at h
  | ofInterface h hd hk =>
    rw [hf, TypeForm.reference.injEq] at h
    subst h
    exact ⟨rfl, rfl, .inl ⟨_, hd, (declaredParts_interface hk).symm⟩⟩
  | ofAlias h hd hk =>
    rw [hf, TypeForm.reference.injEq] at h
    subst h
    exact ⟨rfl, rfl, .inl ⟨_, hd, (declaredParts_alias hk).symm⟩⟩
  | undeclared h hd =>
    rw [hf, TypeForm.reference.injEq] at h
    subst h
    exact ⟨rfl, rfl, .inr ⟨hd, rfl⟩⟩
  | other h => simp [hf] at h

theorem unique (hnames : DistinctTypeNames program) (h : MadeOf program p levels hides parts)
    (h' : MadeOf program p levels' hides' parts') : levels = levels' ∧ hides = hides' ∧ parts = parts' := by
  cases hf : typeForm p with
  | body => cases h <;> simp_all
  | wrapper => cases h <;> cases h' <;> simp_all
  | intersection => cases h <;> cases h' <;> simp_all
  | other => cases h <;> cases h' <;> simp_all
  | reference name =>
    obtain ⟨rfl, rfl, hp⟩ := h.of_reference hf
    obtain ⟨rfl, rfl, hp'⟩ := h'.of_reference hf
    refine ⟨rfl, rfl, ?_⟩
    rcases hp with ⟨d, hd, rfl⟩ | ⟨hn, rfl⟩ <;> rcases hp' with ⟨d', hd', rfl⟩ | ⟨hn', rfl⟩
    · rw [hd.unique hnames hd']
    · exact absurd hd (hn' d)
    · exact absurd hd' (hn d')
    · rfl

/-- A declared name stands for the parts of its declaration. -/
theorem of_declares {name : String} {d : Place} (hf : typeForm p = .reference name) (hd : Declares program name d) :
    MadeOf program p 2 false (declaredParts d) := by
  rcases kind_of_declares hd with hk | hk
  · rw [declaredParts_interface hk]
    exact .ofInterface hf hd hk
  · rw [declaredParts_alias hk]
    exact .ofAlias hf hd hk

end MadeOf

/-! ## One step -/

/-- One level of the listing, by the form of the type. -/
theorem typeMembersTo_succ (program p : Place) (levels : Nat) :
    typeMembersTo program (levels + 1) p =
      match typeForm p with
      | .body => p.namedChildren.filterMap typeMember?
      | .wrapper => p.namedChildren.head?.elim [] (typeMembersTo program levels)
      | .intersection => p.namedChildren.flatMap (typeMembersTo program levels)
      | .reference name => typeMembersTo.ofName program levels name
      | .other => [] := by
  rw [typeMembersTo]
  split
  · next hk =>
    simp only [typeForm, hk]
    cases p.namedChildren.head? <;> rfl
  · next hk =>
    simp only [typeForm, hk]
    cases p.namedChildren.head? <;> rfl
  · next hk => simp only [typeForm, hk]
  · next hk => simp only [typeForm, hk]
  · next hk => simp only [typeForm, hk]
  · next hk => simp only [typeForm, hk]
  · next hk => simp only [typeForm, hk]
  · next h₁ h₂ h₃ h₄ h₅ h₆ h₇ => simp [typeForm]

theorem typeForm_of_comment {p : Place} (h : p.kind = .comment) : typeForm p = .other := by
  simp [typeForm, h]

/-- A name lies two levels above what its declaration is made of. -/
theorem ofName_eq (program : Place) (levels : Nat) (name : String) :
    typeMembersTo.ofName program levels name =
      (typeDeclaration? program name).elim []
        fun d => (declaredParts d).flatMap (typeMembersTo program (levels - 1)) := by
  cases levels with
  | zero =>
    have h : ∀ q, typeMembersTo program 0 q = [] := fun q => by rw [typeMembersTo]
    rw [typeMembersTo.ofName]
    cases typeDeclaration? program name with
    | none => rfl
    | some d => simp [h]
  | succ levels =>
    rw [typeMembersTo.ofName]
    cases typeDeclaration? program name <;> rfl

/-- What a type is made of has its members, unless a comment hides it. -/
theorem typeMembersTo_madeOf {program p : Place} {levels : Nat} {hides : Bool} {parts : List Place}
    (hnames : DistinctTypeNames program) (h : MadeOf program p levels hides parts) (n : Nat) :
    typeMembersTo program n p = if hides then [] else parts.flatMap (typeMembersTo program (n - levels)) := by
  cases n with
  | zero =>
    have hzero : ∀ q, typeMembersTo program 0 q = [] := fun q => by rw [typeMembersTo]
    simp [hzero]
  | succ n =>
    rw [typeMembersTo_succ]
    cases h with
    | inner hf =>
      rw [hf]
      dsimp only
      unfold startsWithComment innerType?
      cases p.namedChildren with
      | nil => rfl
      | cons c rest =>
        by_cases hc : c.kind = .comment
        · cases n with
          | zero => simp [hc, typeMembersTo]
          | succ n => simp [hc, typeMembersTo_succ, typeForm_of_comment hc]
        · simp [hc]
    | parts hf =>
      rw [hf]
      rfl
    | ofInterface hf hd hk =>
      rw [hf]
      dsimp only
      rw [ofName_eq, typeDeclaration?_of_declares hnames hd, ← declaredParts_interface hk]
      rfl
    | ofAlias hf hd hk =>
      rw [hf]
      dsimp only
      rw [ofName_eq, typeDeclaration?_of_declares hnames hd, ← declaredParts_alias hk]
      rfl
    | undeclared hf hd =>
      rw [hf]
      dsimp only
      rw [ofName_eq, typeDeclaration?_of_undeclared hd]
      rfl
    | other hf =>
      rw [hf]
      rfl

theorem typeMember?_eq_some_iff {p : Place} {m : TypeMember} : typeMember? p = some m ↔ DeclaresMember p m := by
  have hkinds : isSignature p = true ↔ p.kind = .propertySignature ∨ p.kind = .methodSignature := by
    simp [isSignature]
  constructor
  · intro h
    unfold typeMember? at h
    split at h
    · next hk =>
      obtain ⟨key, hkey, h⟩ := Option.bind_eq_some_iff.1 h
      obtain ⟨name, hname, h⟩ := Option.bind_eq_some_iff.1 h
      obtain rfl := Option.some.inj h
      exact ⟨hkinds.2 (.inl hk), ⟨key, hkey, propertyKey?_eq_some_iff.1 hname⟩, by simp [hk], rfl, rfl⟩
    · next hk =>
      obtain ⟨key, hkey, h⟩ := Option.bind_eq_some_iff.1 h
      obtain ⟨name, hname, h⟩ := Option.bind_eq_some_iff.1 h
      obtain rfl := Option.some.inj h
      exact ⟨hkinds.2 (.inr hk), ⟨key, hkey, propertyKey?_eq_some_iff.1 hname⟩, by simp [hk], rfl, rfl⟩
    · cases h
  · rintro ⟨hk, ⟨key, hkey, hname⟩, htype, hoptional, hdoc⟩
    obtain ⟨name, type, optional, description⟩ := m
    rw [← propertyKey?_eq_some_iff] at hname
    dsimp only at hname htype hoptional hdoc
    subst htype hoptional hdoc
    rcases hkinds.1 hk with hk | hk <;> simp [typeMember?, hk, hkey, hname]

/-- A signature declares a member exactly if its name is written out. -/
theorem exists_declaresMember_iff {p : Place} (h : isSignature p = true) :
    (∃ m, DeclaresMember p m) ↔ ∃ name, NamedAs p name := by
  constructor
  · rintro ⟨m, hm⟩
    exact ⟨m.name, hm.name⟩
  · rintro ⟨name, hname⟩
    exact ⟨⟨name, _, _, _⟩, h, hname, rfl, rfl, rfl⟩

theorem not_namedAs_of_computed {p key : Place} (hkey : p.field? .name = some key)
    (hk : key.kind = .computedPropertyName) (name : String) : ¬ NamedAs p name := by
  rintro ⟨key', hkey', hname⟩
  obtain rfl := Option.some.inj (hkey.symm.trans hkey')
  cases hname with
  | word h => simp [hk] at h
  | quoted h => simp [hk] at h

/-- What is no signature declares nothing. -/
theorem filterMap_typeMember? (ps : List Place) :
    (ps.filter isSignature).filterMap typeMember? = ps.filterMap typeMember? := by
  rw [List.filterMap_filter]
  refine List.filterMap_congr fun p _ => ?_
  split
  · rfl
  · next hp =>
    cases hm : typeMember? p with
    | none => rfl
    | some m => exact absurd (typeMember?_eq_some_iff.1 hm).signature hp

/-! ## Expansions -/

namespace Signature

/-- The signature lies above a level, no comment hides it, and it declares this member. -/
def Shows (levels : Nat) (s : Signature) (m : TypeMember) : Prop :=
  s.level < levels ∧ s.hidden = false ∧ DeclaresMember s.place m

/-- The member that a signature shows. -/
def member? (levels : Nat) (s : Signature) : Option TypeMember :=
  if s.level < levels ∧ s.hidden = false then typeMember? s.place else none

theorem member?_eq_some_iff {levels : Nat} {s : Signature} {m : TypeMember} :
    s.member? levels = some m ↔ s.Shows levels m := by
  unfold member? Shows
  split
  · next h => simp [h, typeMember?_eq_some_iff]
  · next h => simp [← and_assoc, h]

/-- Signatures in braces show their members if the braces lie above the level. -/
theorem filterMap_member? (levels level : Nat) (qs : List Place) :
    (qs.map (Signature.mk · level false)).filterMap (member? levels) =
      if level < levels then qs.filterMap typeMember? else [] := by
  rw [List.filterMap_map]
  split
  · next hl => exact List.filterMap_congr fun q _ => if_pos ⟨hl, rfl⟩
  · next hl => exact List.filterMap_eq_nil_iff.2 fun q _ => if_neg fun h => hl h.1

end Signature

namespace Expands

variable {program : Place} {level : Nat} {hidden : Bool} {ps : List Place} {l l' : List Signature}

theorem append {qs : List Place} (h : Expands program level hidden ps l) (h' : Expands program level hidden qs l') :
    Expands program level hidden (ps ++ qs) (l ++ l') := by
  induction h with
  | nil => exact h'
  | body hf _ ih =>
    rw [List.append_assoc]
    exact .body hf (ih h')
  | made hm hp _ _ ih =>
    rw [List.append_assoc]
    exact .made hm hp (ih h')

theorem unique (hnames : DistinctTypeNames program) (h : Expands program level hidden ps l)
    (h' : Expands program level hidden ps l') : l = l' := by
  induction h generalizing l' with
  | nil =>
    cases h'
    rfl
  | body hf _ ih =>
    cases h' with
    | body _ h' => rw [ih h']
    | made hm _ _ => cases hm <;> simp_all
  | made hm _ _ ihp ihr =>
    cases h' with
    | body hf _ => cases hm <;> simp_all
    | made hm' hp' hr' =>
      obtain ⟨rfl, rfl, rfl⟩ := hm.unique hnames hm'
      rw [ihp hp', ihr hr']

/-- What lies behind a comment is not shown. -/
theorem members_hidden (levels : Nat) (h : Expands program level true ps l) :
    l.filterMap (Signature.member? levels) = [] := by
  generalize hb : true = b at h
  induction h with
  | nil => rfl
  | body _ _ ih =>
    rw [List.filterMap_append, ih hb, List.append_nil, List.filterMap_map]
    exact List.filterMap_eq_nil_iff.2 fun q _ => if_neg fun h => by simp [← hb] at h
  | made _ _ _ ihp ihr => rw [List.filterMap_append, ihp (by simp [← hb]), ihr hb, List.append_nil]

theorem members_body {p : Place} (hf : typeForm p = .body) (levels : Nat) :
    typeMembersTo program (levels - level) p =
      ((p.namedChildren.filter isSignature).map (⟨·, level, false⟩)).filterMap (Signature.member? levels) := by
  rw [Signature.filterMap_member?, filterMap_typeMember?]
  split
  · next hl =>
    obtain ⟨n, hn⟩ : ∃ n, levels - level = n + 1 := ⟨levels - level - 1, by omega⟩
    rw [hn, typeMembersTo_succ, hf]
  · next hl => rw [show levels - level = 0 by omega, typeMembersTo]

/-- Listing the members of types down to a level gives those that the signatures above it show. -/
theorem members_flatMap (hnames : DistinctTypeNames program) (levels : Nat)
    (h : Expands program level false ps l) :
    ps.flatMap (typeMembersTo program (levels - level)) = l.filterMap (Signature.member? levels) := by
  generalize hb : false = b at h
  induction h with
  | nil => rfl
  | body hf _ ih =>
    subst hb
    rw [List.flatMap_cons, List.filterMap_append, members_body hf, ih rfl]
  | @made level _ _ hides _ _ _ _ _ hm hp _ ihp ihr =>
    subst hb
    rw [List.flatMap_cons, List.filterMap_append, ihr rfl, typeMembersTo_madeOf hnames hm]
    cases hides with
    | true =>
      rw [hp.members_hidden levels]
      rfl
    | false =>
      rw [← ihp rfl, Nat.sub_sub]
      rfl

/-- Listing the members of one type down to a level. -/
theorem members_single {p : Place} (hnames : DistinctTypeNames program) (h : Expands program 0 false [p] l)
    (levels : Nat) : Lists (Signature.Shows levels) l (typeMembersTo program levels p) := by
  have hm := h.members_flatMap hnames levels
  rw [List.flatMap_singleton] at hm
  exact hm ▸ lists_filterMap fun s _ m => Signature.member?_eq_some_iff

theorem isSignature (h : Expands program level hidden ps l) : ∀ s ∈ l, isSignature s.place = true := by
  induction h with
  | nil => exact fun s hs => absurd hs List.not_mem_nil
  | body _ _ ih =>
    intro s hs
    rcases List.mem_append.1 hs with hs | hs
    · obtain ⟨q, hq, rfl⟩ := List.mem_map.1 hs
      exact (List.mem_filter.1 hq).2
    · exact ih s hs
  | made _ _ _ ihp ihr => exact fun s hs => (List.mem_append.1 hs).elim (ihp s) (ihr s)

end Expands

/-! ## Declarations that do not lead back to themselves -/

/-- The names that a type refers to, outside of braces. -/
def mentionedNames (p : Place) : List String :=
  match typeForm p with
  | .reference name => [name]
  | .wrapper =>
    match _h : innerType? p with
    | some q => mentionedNames q
    | none => []
  | .intersection => p.namedChildren.attach.flatMap fun ⟨q, _⟩ => mentionedNames q
  | _ => []
termination_by sizeOf p.node
decreasing_by
  · exact Place.sizeOf_node_lt_of_mem_namedChildren (List.mem_of_find?_eq_some _h)
  · exact Place.sizeOf_node_lt_of_mem_namedChildren ‹_›

/-- The declaration refers to the other one, not counting what is in braces. -/
def RefersTo (program d e : Place) : Prop :=
  ∃ part ∈ declaredParts d, ∃ name ∈ mentionedNames part, Declares program name e

/-- No interface or type alias leads back to itself. -/
def AcyclicTypes (program : Place) : Prop :=
  ∀ d ∈ typeDeclarations program, ¬ Relation.TransGen (RefersTo program) d d

/-- The type stands for some list of signatures. -/
def Expandable (program p : Place) : Prop := ∀ level hidden, ∃ l, Expands program level hidden [p] l

variable {program : Place}

theorem exists_expands_of_expandable {ps : List Place} (h : ∀ p ∈ ps, Expandable program p) (level : Nat)
    (hidden : Bool) : ∃ l, Expands program level hidden ps l := by
  induction ps with
  | nil => exact ⟨[], .nil⟩
  | cons p rest ih =>
    obtain ⟨l, hl⟩ := h p (by simp) level hidden
    obtain ⟨l', hl'⟩ := ih fun q hq => h q (List.mem_cons_of_mem _ hq)
    exact ⟨l ++ l', hl.append hl'⟩

theorem expandable_of_madeOf {p : Place} {levels : Nat} {hides : Bool} {parts : List Place}
    (hm : MadeOf program p levels hides parts) (h : ∀ q ∈ parts, Expandable program q) : Expandable program p := by
  intro level hidden
  obtain ⟨l, hl⟩ := exists_expands_of_expandable h (level + levels) (hidden || hides)
  exact ⟨l ++ [], .made hm hl .nil⟩

/-- A type has signatures if the declarations that it refers to have. -/
theorem expandable_of_mentioned {p : Place}
    (h : ∀ name ∈ mentionedNames p, ∀ d, Declares program name d → ∀ q ∈ declaredParts d, Expandable program q) :
    Expandable program p := by
  fun_induction mentionedNames p with
  | case1 p name hf =>
    by_cases hd : ∃ d, Declares program name d
    · obtain ⟨d, hd⟩ := hd
      exact expandable_of_madeOf (.of_declares hf hd) (h name (by simp) d hd)
    · exact expandable_of_madeOf (.undeclared hf (not_exists.1 hd)) (by simp)
  | case2 p hf q hq ih => exact expandable_of_madeOf (.inner hf) (by simpa [hq] using ih h)
  | case3 p hf hq => exact expandable_of_madeOf (.inner hf) (by simp [hq])
  | case4 p hf ih =>
    refine expandable_of_madeOf (.parts hf) ?_
    intro q hq
    refine ih q hq fun name hn => h name ?_
    exact List.mem_flatMap.2 ⟨⟨q, hq⟩, List.mem_attach _ _, hn⟩
  | case5 p h₁ h₂ h₃ =>
    cases hf : typeForm p with
    | body => exact fun level hidden => ⟨_, .body hf .nil⟩
    | wrapper => exact absurd hf h₂
    | intersection => exact absurd hf h₃
    | reference name => exact absurd hf (h₁ name)
    | other => exact expandable_of_madeOf (.other hf) (by simp)

/-- Of finitely many declarations that do not lead back to themselves, each is reached from others by a descent. -/
theorem AcyclicTypes.wellFounded (h : AcyclicTypes program) :
    WellFounded fun e d : { d // d ∈ typeDeclarations program } => Relation.TransGen (RefersTo program) d.1 e.1 := by
  have : Finite { d // d ∈ typeDeclarations program } := (typeDeclarations program).finite_toSet
  have : IsTrans { d // d ∈ typeDeclarations program }
      fun e d => Relation.TransGen (RefersTo program) d.1 e.1 := ⟨fun _ _ _ h h' => h'.trans h⟩
  have : Std.Irrefl fun e d : { d // d ∈ typeDeclarations program } =>
      Relation.TransGen (RefersTo program) d.1 e.1 := ⟨fun d => h d.1 d.2⟩
  exact Finite.wellFounded_of_trans_of_irrefl _

theorem expandable_of_acyclic (h : AcyclicTypes program) (p : Place) : Expandable program p := by
  have hdeclared : ∀ d : { d // d ∈ typeDeclarations program }, ∀ q ∈ declaredParts d.1, Expandable program q := by
    intro d
    induction d using h.wellFounded.induction with
    | h d ih =>
      intro q hq
      refine expandable_of_mentioned fun name hn e he => ?_
      exact ih ⟨e, he.1⟩ (.single ⟨q, hq, name, hn, he⟩)
  exact expandable_of_mentioned fun name _ d hd => hdeclared ⟨d, hd.1⟩

/-- If every reference leads to a declaration further down, none leads back. -/
theorem acyclicTypes_of_start_lt
    (h : ∀ d ∈ typeDeclarations program, ∀ part ∈ declaredParts d, ∀ name ∈ mentionedNames part,
      ∀ e ∈ typeDeclarations program, e.fieldText? .name = some name → d.start < e.start) : AcyclicTypes program := by
  have hstep : ∀ d e, d ∈ typeDeclarations program → Relation.TransGen (RefersTo program) d e →
      d.start < e.start ∧ e ∈ typeDeclarations program := by
    intro d e hd he
    induction he with
    | single hr =>
      obtain ⟨part, hp, name, hn, hm, ht⟩ := hr
      exact ⟨h d hd part hp name hn _ hm ht, hm⟩
    | tail _ hr ih =>
      obtain ⟨part, hp, name, hn, hm, ht⟩ := hr
      exact ⟨ih.1.trans (h _ ih.2 part hp name hn _ hm ht), hm⟩
  intro d hd hc
  exact Nat.lt_irrefl _ (hstep d d hd hc).1

/-- The members of a type of properties are those that its signatures declare, in their order, inherited ones first, of
all signatures that lie above the ninth level and that no comment hides. A signature declares a member exactly if its
name is written out; a computed name gives none. If all signatures have names that are written out, lie above that level
and are not hidden, the members are theirs one for one. -/
theorem typeMembers_shown {program : Place} (hnames : DistinctTypeNames program) (hacyclic : AcyclicTypes program)
    (p : Place) :
    ∃ l, Expands program 0 false [p] l ∧ (∀ l', Expands program 0 false [p] l' → l' = l) ∧
      Lists (fun s m => s.level < 9 ∧ s.hidden = false ∧ DeclaresMember s.place m) l (typeMembers program p) ∧
      (∀ s ∈ l, (∃ m, DeclaresMember s.place m) ↔ ∃ name, NamedAs s.place name) ∧
      (∀ s ∈ l, ∀ key, s.place.field? .name = some key → key.kind = .computedPropertyName →
        ∀ m, ¬ DeclaresMember s.place m) ∧
      ((∀ s ∈ l, s.level < 9 ∧ s.hidden = false ∧ ∃ name, NamedAs s.place name) →
        List.Forall₂ (fun s m => DeclaresMember s.place m) l (typeMembers program p)) := by
  obtain ⟨l, hl⟩ := expandable_of_acyclic hacyclic p 0 false
  have hshown : Lists (Signature.Shows 9) l (typeMembers program p) := hl.members_single hnames 9
  have hdeclares : ∀ s ∈ l, (∃ m, DeclaresMember s.place m) ↔ ∃ name, NamedAs s.place name :=
    fun s hs => exists_declaresMember_iff (hl.isSignature s hs)
  refine ⟨l, hl, fun l' hl' => hl'.unique hnames hl, hshown, hdeclares, ?_, ?_⟩
  · intro s _ key hkey hk m hm
    exact not_namedAs_of_computed hkey hk m.name hm.name
  · intro hall
    have hone : List.Forall₂ (Signature.Shows 9) l (typeMembers program p) := by
      refine hshown.forall₂ fun s hs => ?_
      obtain ⟨hlevel, hhidden, hname⟩ := hall s hs
      obtain ⟨m, hm⟩ := (hdeclares s hs).2 hname
      exact ⟨m, hlevel, hhidden, hm⟩
    exact hone.imp fun s m h => h.2.2

/-- A name of one letter. -/
def letterNode (start : Nat) : Node := .mk .typeIdentifier ⟨start, start + 1⟩ none []

/-- A signature with a name of one letter, perhaps a mark, and an annotation. -/
def signatureNode (start : Nat) (mark : List Node) (note : Nat) : Node :=
  .mk .propertySignature ⟨start, note + 8⟩ none (
    (some .name, .mk .propertyIdentifier ⟨start, start + 1⟩ none []) :: mark.map (none, ·) ++
    [(some .type, .mk .typeNote ⟨note, note + 8⟩ none [(none, .mk .predefinedType ⟨note + 2, note + 8⟩ none [])])])

def layeredAlias : Node :=
  .mk .typeAliasDeclaration ⟨0, 11⟩ none [(some .name, letterNode 5), (some .value, letterNode 9)]

def layeredAnnotation : Node := .mk .typeNote ⟨120, 123⟩ none [(none, letterNode 122)]

def layeredParameter : Node :=
  .mk .requiredParameter ⟨119, 123⟩ none [
    (some .pattern, .mk .identifier ⟨119, 120⟩ none []), (some .type, layeredAnnotation)]

def layeredParameters : Node := .mk .formalParameters ⟨118, 124⟩ none [(none, layeredParameter)]

def layeredFunction : Node :=
  .mk .functionDeclaration ⟨108, 141⟩ none [
    (some .name, .mk .identifier ⟨117, 118⟩ none []),
    (some .parameters, layeredParameters),
    (some .body, .mk .statementBlock ⟨125, 141⟩ none [
      (none, .mk .returnStatement ⟨127, 139⟩ none [(none, .mk .jsxSelfClosingElement ⟨134, 138⟩ none [])])])]

def layeredExport : Node := .mk .exportStatement ⟨101, 141⟩ none [(some .declaration, layeredFunction)]

def layeredLines : List String :=
  ["type A = B;\n", "type B = C & \x7b y: number \x7d;\n", "interface C extends D \x7b z?: string \x7d\n",
    "type D = \x7b x: string \x7d;\n", "export function F(p: A) \x7b return <a/>; \x7d"]

/-- A module with an alias for an intersection with an interface that extends another alias. -/
def layeredProgram : Place :=
  .root ⟨(layeredLines.flatMap String.toList).toArray⟩ (.mk .program ⟨0, 141⟩ none [
    (none, layeredAlias),
    (none, .mk .typeAliasDeclaration ⟨12, 39⟩ none [
      (some .name, letterNode 17),
      (some .value, .mk .intersectionType ⟨21, 38⟩ none [
        (none, letterNode 21),
        (none, .mk .objectType ⟨25, 38⟩ none [(none, signatureNode 27 [] 28)])])]),
    (none, .mk .interfaceDeclaration ⟨40, 76⟩ none [
      (some .name, letterNode 50),
      (none, .mk .extendsTypeClause ⟨52, 61⟩ none [(some .type, letterNode 60)]),
      (some .body, .mk .interfaceBody ⟨62, 76⟩ none [(none, signatureNode 64 [.mk .symbol ⟨65, 66⟩ none []] 66)])]),
    (none, .mk .typeAliasDeclaration ⟨77, 100⟩ none [
      (some .name, letterNode 82),
      (some .value, .mk .objectType ⟨86, 99⟩ none [(none, signatureNode 88 [] 89)])]),
    (none, layeredExport)])

/-- The name `B` in the first declaration. -/
def layeredReference : Place := (layeredProgram.down 0 layeredAlias).down 1 (letterNode 9)

/-- The annotation of the parameter of `F`, which is the name `A`. -/
def layeredPropsType : Place :=
  ((((layeredProgram.down 4 layeredExport).down 0 layeredFunction).down 1 layeredParameters).down 0
    layeredParameter).down 1 layeredAnnotation

theorem layered_distinct : DistinctTypeNames layeredProgram := by
  unfold DistinctTypeNames
  decide +kernel

theorem layered_acyclic : AcyclicTypes layeredProgram := by
  apply acyclicTypes_of_start_lt
  decide +kernel

/-- A type in braces with two signatures, the first of which has a computed name. -/
def computedType : Place :=
  .root ⟨"\x7b [\"x\"]: string; y: number \x7d".toList.toArray⟩ (.mk .objectType ⟨0, 28⟩ none [
    (none, .mk .propertySignature ⟨2, 15⟩ none [
      (some .name, .mk .computedPropertyName ⟨2, 7⟩ none [(none, .mk .string ⟨3, 6⟩ none [])]),
      (some .type, .mk .typeNote ⟨7, 15⟩ none [(none, .mk .predefinedType ⟨9, 15⟩ none [])])]),
    (none, signatureNode 17 [] 18)])

/-- All three signatures behind the name `B` are listed; of the two in braces, the one that has a written name. -/
theorem layered_reference_complete :
    (typeMembers layeredProgram layeredReference).map TypeMember.name = ["x", "z", "y"] ∧
      (∃ l, Expands layeredProgram 0 false [layeredReference] l ∧
        Lists (fun s m => s.level < 9 ∧ s.hidden = false ∧ DeclaresMember s.place m) l
          (typeMembers layeredProgram layeredReference)) ∧
      (typeMembers layeredProgram computedType).map TypeMember.name = ["y"] ∧
      ∃ l, Expands layeredProgram 0 false [computedType] l ∧ l.length = 2 ∧
        Lists (fun s m => s.level < 9 ∧ s.hidden = false ∧ DeclaresMember s.place m) l
          (typeMembers layeredProgram computedType) := by
  obtain ⟨l, hl, _, hm, _⟩ := typeMembers_shown layered_distinct layered_acyclic layeredReference
  obtain ⟨l', hl', hunique, hm', _⟩ := typeMembers_shown layered_distinct layered_acyclic computedType
  have hlength : l'.length = 2 := by
    rw [← hunique _ (.body rfl .nil)]
    decide +kernel
  exact ⟨by decide +kernel, ⟨l, hl, hm⟩, by decide +kernel, l', hl', hlength, hm'⟩

/-- With one more name in front, the inherited property is lost: it is among the signatures of the annotated type, but
not among the members. -/
theorem layered_annotation_incomplete :
    DistinctTypeNames layeredProgram ∧ AcyclicTypes layeredProgram ∧
      (typeMembers layeredProgram layeredPropsType).map TypeMember.name = ["z", "y"] ∧
      ∃ l, Expands layeredProgram 0 false [layeredPropsType] l ∧
        ∃ s ∈ l, ∃ m, DeclaresMember s.place m ∧ m.name = "x" := by
  obtain ⟨l, hl⟩ := expandable_of_acyclic layered_acyclic layeredPropsType 0 false
  refine ⟨layered_distinct, layered_acyclic, by decide +kernel, l, hl, ?_⟩
  -- two more levels are enough to see the property
  have hmembers := hl.members_single layered_distinct 11
  have hnames : (typeMembersTo layeredProgram 11 layeredPropsType).map TypeMember.name = ["x", "z", "y"] := by
    decide +kernel
  obtain ⟨m, hm, hx⟩ : ∃ m ∈ typeMembersTo layeredProgram 11 layeredPropsType, m.name = "x" :=
    List.mem_map.1 (by simp [hnames])
  obtain ⟨s, hs, hshows⟩ := hmembers.exists_of_mem hm
  exact ⟨s, hs, m, hshows.2.2, hx⟩

end ReactCatalog
