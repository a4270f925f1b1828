import Mathlib.Data.List.DropRight
import ReactCatalog.Proofs.Spreads

/-!
# What documents say

All that the document of a component says has a ground in its module. A property has a type or a default, and whether it
is required and what it is for is said only beside a type. Each module that is noted is one that an import statement
names, and it is noted once. The methods are those members of the class or object that hold a function under a name that
is for users (`Documents`), one entry each, in their order (`document_grounded`).

The object that a class factory is given is its first argument, and that may be a comment. Then no method is listed
(`comment_hides_methods`).
-/

namespace ReactCatalog

/-! ## Properties -/

namespace PropDoc

/-- Whether the property is required and what it is for is said only beside a type. -/
def Typed (x : PropDoc) : Prop := x.required = true ∨ x.description ≠ "" → x.type.isSome ∨ x.tsType.isSome

structure Grounded (x : PropDoc) : Prop where
  mentioned : x.type.isSome ∨ x.tsType.isSome ∨ x.defaultValue.isSome
  typed : x.Typed

theorem typed_empty : empty.Typed := by simp [Typed, empty]

end PropDoc

/-- What an edit makes of an entry is grounded, be it new or not. -/
def Edit.Grounds (e : Edit) : Prop := ∀ x : PropDoc, x.Typed → (e.update x).Grounded

theorem Validation.grounds_edit (v : Validation) : v.edit.Grounds :=
  fun _ _ => ⟨.inl rfl, fun _ => .inl rfl⟩

theorem TypeMember.grounds_edit (m : TypeMember) : m.edit.Grounds :=
  fun _ _ => ⟨.inr (.inl rfl), fun _ => .inr rfl⟩

/-- A default says neither that a value must be given nor what it is for. -/
theorem grounds_defaultEdit (d : String × DefaultValue) : (defaultEdit d).Grounds :=
  fun _ hx => ⟨.inr (.inr rfl), hx⟩

def GroundedTable (table : Dictionary PropDoc) : Prop := ∀ m ∈ table, m.2.Grounded

theorem GroundedTable.modify {table : Dictionary PropDoc} (ht : GroundedTable table) {e : Edit} (he : e.Grounds) :
    GroundedTable (Dictionary.modify e.name .empty e.update table) := by
  intro m hm
  rcases Dictionary.mem_insert hm with rfl | hm
  · refine he _ ?_
    cases hx : Dictionary.find? table e.name with
    | none => exact PropDoc.typed_empty
    | some x => exact (ht (e.name, x) (Dictionary.mem_of_find? hx)).typed
  · exact ht m hm

theorem GroundedTable.applyEdits {table : Dictionary PropDoc} (ht : GroundedTable table) {es : List Edit}
    (hes : ∀ e ∈ es, e.Grounds) : GroundedTable (applyEdits es table) :=
  List.foldlRecOn es _ ht fun _ ht e he => ht.modify (hes e he)

theorem groundedTable_document (program : Place) (scope : Scope) (d : Definition) :
    GroundedTable (document program scope d).properties := by
  have hempty : GroundedTable [] := List.forall_mem_nil _
  rw [properties_document]
  refine hempty.applyEdits ?_
  intro e he
  simp only [editsOf, List.mem_append, List.mem_map] at he
  rcases he with ((⟨v, _, rfl⟩ | ⟨m, _, rfl⟩) | ⟨x, _, rfl⟩) | ⟨x, _, rfl⟩
  · exact v.grounds_edit
  · exact m.grounds_edit
  · exact grounds_defaultEdit x
  · exact grounds_defaultEdit x

/-! ## Modules that are noted -/

/-- The document with what the validators say. -/
def validatedDocument (program : Place) (scope : Scope) (d : Definition) : ComponentDoc :=
  ((staticsOf program d).propTypes.filterMap scope.object?).foldl
    (fun doc object => applyValidators scope spreadLimit object doc)
    { description := d.place.docblock?.getD ""
      displayName := (staticsOf program d).displayName <|> d.identifier?
      methods := methodsOf d }

/-- Types and defaults change nothing but properties. -/
theorem document_eq_validated {γ : Type} (part : ComponentDoc → γ)
    (h : ∀ doc name f, part (doc.modifyProp name f) = part doc) (program : Place) (scope : Scope) (d : Definition) :
    part (document program scope d) = part (validatedDocument program scope d) := by
  have htypes : ∀ (ms : List TypeMember) doc, part (ms.foldl applyTypeMember doc) = part doc := by
    intro ms doc
    refine foldl_kept part (fun doc m => ?_) ms doc
    exact h doc m.name _
  have hdefaults : ∀ doc ds, part (applyDefaults doc ds) = part doc := by
    intro doc ds
    refine foldl_kept part (fun doc x => ?_) ds doc
    exact h doc x.1 _
  have hparams : ∀ doc : ComponentDoc,
      part (if d.kind = .ofFunction then applyDefaults doc (parameterDefaults d.place) else doc) = part doc := by
    intro doc
    split
    · exact hdefaults doc _
    · rfl
  unfold document
  dsimp only
  rw [foldl_kept part fun doc object => hdefaults doc (objectDefaults object), hparams, htypes]
  rfl

/-- The modules that a document notes: each is that of an imported name, and stands there once. -/
structure NotesImports (scope : Scope) (doc : ComponentDoc) : Prop where
  nodup : doc.composes.Nodup
  imported : ∀ s ∈ doc.composes, ∃ name, scope.importOf? name = some s

theorem exists_importOf?_of_spreadSource? {r : Reading} {scope : Scope} {p : Place} {s : String}
    (h : r.spreadSource? scope p = some s) : ∃ name, scope.importOf? name = some s := by
  obtain ⟨v, _, hv⟩ := Option.bind_eq_some_iff.1 h
  split at hv
  · obtain ⟨x, _, hx⟩ := Option.bind_eq_some_iff.1 hv
    exact ⟨x.text, hx⟩
  · split at hv
    · cases hv
    · exact ⟨v.text, hv⟩
  · cases hv

namespace NotesImports

variable {scope : Scope} {doc : ComponentDoc}

theorem applyMember (h : NotesImports scope doc) (r : Reading) (p : Place) :
    NotesImports scope (r.applyMember scope doc p) := by
  have hcomposes := composes_applyMember r scope doc p
  cases hs : r.spreadSource? scope p with
  | none =>
    rw [hs] at hcomposes
    exact ⟨hcomposes ▸ h.nodup, hcomposes ▸ h.imported⟩
  | some s =>
    rw [hs] at hcomposes
    dsimp only at hcomposes
    split at hcomposes
    · exact ⟨hcomposes ▸ h.nodup, hcomposes ▸ h.imported⟩
    · next hnew =>
      refine ⟨?_, ?_⟩
      · rw [hcomposes]
        exact h.nodup.append (List.nodup_singleton s) (List.disjoint_singleton.2 hnew)
      · intro s' hs'
        rw [hcomposes, List.mem_append, List.mem_singleton] at hs'
        rcases hs' with hs' | rfl
        · exact h.imported s' hs'
        · exact exists_importOf?_of_spreadSource? hs

theorem applyValidators (h : NotesImports scope doc) (levels : Nat) (object : Place) :
    NotesImports scope (applyValidators scope levels object doc) := by
  rw [applyValidators_eq_sequence]
  exact List.foldlRecOn _ _ h fun _ h p _ => h.applyMember .written p

theorem document (program : Place) (scope : Scope) (d : Definition) :
    NotesImports scope (document program scope d) := by
  have hvalidated : NotesImports scope (validatedDocument program scope d) :=
    List.foldlRecOn _ _ ⟨List.nodup_nil, List.forall_mem_nil _⟩ fun _ h object _ => h.applyValidators spreadLimit object
  have hcomposes := document_eq_validated ComponentDoc.composes (fun _ _ _ => rfl) program scope d
  exact ⟨hcomposes ▸ hvalidated.nodup, hcomposes ▸ hvalidated.imported⟩

end NotesImports

/-! ## Imports -/

def isQuote (c : Char) : Bool := c == '"' || c == '\''

/-- The second text is the first without the characters of a class at both ends. -/
structure Stripped (p : Char → Bool) (s t : String) : Prop where
  around : ∃ before after, (∀ c ∈ before ++ after, p c = true) ∧ s.toList = before ++ t.toList ++ after
  first : ∀ c, t.toList.head? = some c → p c = false
  last : ∀ c, t.toList.getLast? = some c → p c = false

theorem stripped_trimBoth (p : Char → Bool) (s : String) : Stripped p s (Text.trimBoth p s) := by
  have hends : (Text.trimBoth p s).toList = (s.toList.dropWhile p).rdropWhile p := String.toList_ofList
  refine ⟨⟨s.toList.takeWhile p, (s.toList.dropWhile p).rtakeWhile p, ?_, ?_⟩, ?_, ?_⟩
  · intro c hc
    rcases List.mem_append.1 hc with hc | hc
    · exact List.mem_takeWhile_imp hc
    · exact List.mem_rtakeWhile_imp hc
  · rw [hends, List.append_assoc, List.rdropWhile_append_rtakeWhile, List.takeWhile_append_dropWhile]
  · intro c hc
    rw [hends] at hc
    -- what is taken from the end leaves the first character where it is
    have hfirst : (s.toList.dropWhile p).head? = some c := by
      obtain ⟨rest, hrest⟩ := List.rdropWhile_prefix p (s.toList.dropWhile p)
      rw [← hrest, List.head?_append, hc]
      rfl
    have hnot := List.head?_dropWhile_not p s.toList
    rw [hfirst] at hnot
    exact hnot
  · intro c hc
    rw [hends] at hc
    exact Text.getLast?_dropEndWhile hc

/-- An import statement names a module: what stands between the quotes of its source. -/
structure Imports (p : Place) (specifier : String) : Prop where
  kind : p.kind = .importStatement
  source : ∃ text, p.fieldText? .source = some text ∧ Stripped isQuote text specifier

/-- Every imported name comes from a module that one of the statements names. -/
def Scope.ImportsBy (s : Scope) (ps : List Place) : Prop :=
  ∀ name specifier, s.importOf? name = some specifier → ∃ p ∈ ps, Imports p specifier

theorem imports_bindDeclarator (s : Scope) (d : Place) : (s.bindDeclarator d).imports = s.imports := by
  unfold Scope.bindDeclarator
  split
  · split
    · split <;> rfl
    · rfl
  · rfl

/-- Declarations import nothing. -/
theorem imports_declare (s : Scope) (p : Place) : (s.declare p).imports = s.imports := by
  unfold Scope.declare
  split
  case h_1 | h_2 | h_3 => split <;> rfl
  case h_4 | h_5 => exact foldl_kept Scope.imports imports_bindDeclarator _ s
  case h_6 => rfl

namespace Scope.ImportsBy

variable {s : Scope} {ps : List Place} {p : Place}

theorem declare (hs : s.ImportsBy ps) (p : Place) : (s.declare p).ImportsBy ps := by
  intro name specifier h
  rw [Scope.importOf?, imports_declare] at h
  exact hs name specifier h

theorem addImport (hs : s.ImportsBy ps) (hp : p ∈ ps) (hk : p.kind = .importStatement) :
    (s.addImport p).ImportsBy ps := by
  unfold Scope.addImport
  split
  · exact hs
  · next text htext =>
    refine List.foldlRecOn (motive := fun d => ImportsBy { s with imports := d } ps) _ _ hs fun d hd n _ => ?_
    intro name specifier h
    rw [Scope.importOf?, Dictionary.find?_insert] at h
    split at h
    · cases h
      exact ⟨p, hp, hk, text, htext, stripped_trimBoth isQuote text⟩
    · exact hd name specifier h

theorem addStatement (hs : s.ImportsBy ps) (hp : p ∈ ps) : (s.addStatement p).ImportsBy ps := by
  unfold Scope.addStatement
  split
  · cases p.field? .declaration with
    | none => exact hs
    | some d => exact hs.declare d
  · next hk => exact hs.addImport hp hk
  · exact hs.declare p

theorem ofProgram (program : Place) : (Scope.ofProgram program).ImportsBy program.namedChildren := by
  have hnone : ({} : Scope).ImportsBy program.namedChildren := by
    intro name specifier h
    cases h
  exact List.foldlRecOn (motive := (ImportsBy · program.namedChildren)) _ _ hnone
    fun s hs p hp => hs.addStatement hp

end Scope.ImportsBy

/-! ## Methods -/

/-- Where the name of a member stands. -/
def keyOf? (kind : DefinitionKind) (member : Place) : Option Place :=
  (member.field? .name) <|> member.field? (if kind = .ofFactory then .key else .property)

/-- The name of a member. -/
def memberName? (kind : DefinitionKind) (member : Place) : Option String := (keyOf? kind member).bind Place.propertyKey?

/-- The members of a definition that may be given a function. -/
def fieldKinds (kind : DefinitionKind) : List Kind :=
  if kind = .ofFactory then [.pair] else [.fieldDefinition, .publicFieldDefinition]

/-- A name for users: the framework has no use for it, and it is not private. -/
structure IsForUsers (name : String) : Prop where
  lifecycle : name ∉ lifecycleNames
  reserved : name ∉ reservedNames
  shown : name.toList.head? ≠ some '#'

theorem isPublicName_iff {name : String} : isPublicName name = true ↔ IsForUsers name := by
  have hshown : Text.startsWith name "#" = true ↔ name.toList.head? = some '#' := by
    rw [Text.startsWith, Option.isSome_iff_exists]
    simp only [Text.dropLeading?_eq_some_iff]
    rw [List.head?_eq_some_iff]
    rfl
  unfold isPublicName
  simp only [Bool.and_eq_true, Bool.not_eq_true', ← Bool.not_eq_true, hshown, List.contains_iff_mem]
  exact ⟨fun h => ⟨h.1.2, h.2, h.1.1⟩, fun h => ⟨⟨h.shown, h.lifecycle⟩, h.reserved⟩⟩

namespace Reading

variable (r : Reading)

/-- A member of a definition holds a function: a method is one, and a field of a class and a pair of an object may be
given one. -/
inductive Holds (kind : DefinitionKind) (member : Place) : Place → Prop
  | method : member.kind = .methodDefinition → Holds kind member member
  | value {v : Place} : member.kind ∈ fieldKinds kind → member.field? .value = some v →
      (r.bare v).kind ∈ [.arrowFunction, .functionExpression] → Holds kind member (r.bare v)

/-- A member of a definition stands for a method that users may call. -/
structure Documents (kind : DefinitionKind) (member : Place) (m : MethodDoc) : Prop where
  named : ∃ key, keyOf? kind member = some key ∧ Spells key m.name
  forUsers : IsForUsers m.name
  described : ∃ f, r.Holds kind member f ∧ m = methodDoc m.name member f

/-- The object that a class factory is given. -/
def factoryObject? (call : Place) : Option Place :=
  (((call.field? .arguments).bind fun args => (r.parts args).head?).map r.bare).filter fun o => o.kind == .object

/-- The members of the class or object that defines a component. -/
def members (d : Definition) : List Place :=
  match d.kind with
  | .ofFunction => []
  | .ofClass => (d.place.field? .body).elim [] Place.namedChildren
  | .ofFactory => (r.factoryObject? d.place).elim [] Place.namedChildren

end Reading

theorem isFunctionLiteral_iff {p : Place} :
    p.isFunctionLiteral = true ↔ p.kind ∈ [.arrowFunction, .functionExpression] := by
  simp [Place.isFunctionLiteral]

theorem memberFunction?_eq_some_iff {kind : DefinitionKind} {member f : Place} :
    memberFunction? (fieldKinds kind) member = some f ↔ Reading.written.Holds kind member f := by
  constructor
  · intro h
    unfold memberFunction? at h
    split at h
    · next hk =>
      cases h
      exact .method hk
    · split at h
      · next hk =>
        obtain ⟨hf, hliteral⟩ := Option.filter_eq_some_iff.1 h
        obtain ⟨v, hv, rfl⟩ := Option.map_eq_some_iff.1 hf
        exact .value hk hv (isFunctionLiteral_iff.1 hliteral)
      · cases h
  · rintro (hk | ⟨hk, hv, hliteral⟩)
    · exact if_pos hk
    · have hmethod : member.kind ≠ .methodDefinition := by
        intro hm
        rw [hm] at hk
        cases kind <;> simp [fieldKinds] at hk
      rw [memberFunction?, if_neg hmethod, if_pos hk, hv]
      exact Option.filter_eq_some_iff.2 ⟨rfl, isFunctionLiteral_iff.2 hliteral⟩

/-- A member is listed exactly if it stands for a method. -/
theorem publicMethod?_eq_some_iff {kind : DefinitionKind} {member : Place} {m : MethodDoc} :
    publicMethod? (fieldKinds kind) (memberName? kind) member = some m ↔ Reading.written.Documents kind member m := by
  unfold publicMethod? memberName?
  simp only [Option.bind_eq_bind, Option.bind_eq_some_iff, propertyKey?_eq_some_iff, memberFunction?_eq_some_iff]
  constructor
  · rintro ⟨name, hkey, f, hf, h⟩
    split at h
    · next hpublic =>
      cases h
      exact ⟨hkey, isPublicName_iff.1 hpublic, f, hf, rfl⟩
    · cases h
  · rintro ⟨hkey, hpublic, f, hf, hm⟩
    refine ⟨m.name, hkey, f, hf, ?_⟩
    rw [if_pos (isPublicName_iff.2 hpublic), ← hm]
    rfl

theorem factoryObject?_written (call : Place) : Reading.written.factoryObject? call = factoryObject? call := by
  unfold Reading.factoryObject? factoryObject?
  cases call.field? .arguments with
  | none => rfl
  | some args =>
    simp only [Option.bind_eq_bind, Option.bind_some, Reading.written]
    cases args.namedChildren.head? with
    | none => rfl
    | some a =>
      simp only [Option.map_some, Option.bind_some, Option.filter_some, Place.asObject?, beq_iff_eq]

theorem methodsOf_eq (d : Definition) :
    methodsOf d = (Reading.written.members d).filterMap (publicMethod? (fieldKinds d.kind) (memberName? d.kind)) := by
  unfold methodsOf Reading.members
  cases d.kind with
  | ofFunction => rfl
  | ofClass =>
    dsimp only
    unfold classMethods
    cases d.place.field? .body <;> rfl
  | ofFactory =>
    dsimp only
    rw [factoryObject?_written]
    cases factoryObject? d.place <;> rfl

theorem methods_applyMember (r : Reading) (scope : Scope) (doc : ComponentDoc) (p : Place) :
    (r.applyMember scope doc p).methods = doc.methods := by
  have hsource : ∀ (s : String) (doc : ComponentDoc), (doc.addSource s).methods = doc.methods := by
    intro s doc
    unfold ComponentDoc.addSource
    split <;> rfl
  have hvalidated : (((Validation.ofMember? p).map fun v => doc.modifyProp v.name v.edit.update).getD doc).methods =
      doc.methods := by
    cases Validation.ofMember? p <;> rfl
  unfold Reading.applyMember
  cases r.spreadSource? scope p with
  | none => exact hvalidated
  | some s => exact (hsource s _).trans hvalidated

theorem methods_document (program : Place) (scope : Scope) (d : Definition) :
    (document program scope d).methods = methodsOf d := by
  rw [document_eq_validated ComponentDoc.methods fun _ _ _ => rfl]
  refine foldl_kept ComponentDoc.methods (fun doc object => ?_) _ _
  rw [applyValidators_eq_sequence]
  exact foldl_kept ComponentDoc.methods (methods_applyMember .written scope) _ doc

/-! ## Comments before functions -/

/-- No comment stands where it is read what object a factory is given, and what values the members have. -/
structure ClearMembers (d : Definition) : Prop where
  object : d.kind = .ofFactory →
    ∀ args ∈ d.place.field? .arguments, ∀ a ∈ args.namedChildren.head?, a.bare.kind ≠ .comment
  values : ∀ p ∈ Reading.written.members d, ∀ v ∈ p.field? .value, v.bare.kind ≠ .comment

theorem holds_proper {member : Place} (h : ∀ v ∈ member.field? .value, v.bare.kind ≠ .comment)
    (kind : DefinitionKind) (f : Place) :
    Reading.proper.Holds kind member f ↔ Reading.written.Holds kind member f := by
  have hbare : ∀ v, member.field? .value = some v → Reading.proper.bare v = Reading.written.bare v :=
    fun v hv => properBare_eq (h v hv)
  constructor
  · rintro (hk | ⟨hk, hv, hf⟩)
    · exact .method hk
    · rw [hbare _ hv] at hf ⊢
      exact .value hk hv hf
  · rintro (hk | ⟨hk, hv, hf⟩)
    · exact .method hk
    · rw [← hbare _ hv] at hf ⊢
      exact .value hk hv hf

theorem documents_proper {member : Place} (h : ∀ v ∈ member.field? .value, v.bare.kind ≠ .comment)
    (kind : DefinitionKind) (m : MethodDoc) :
    Reading.proper.Documents kind member m ↔ Reading.written.Documents kind member m := by
  constructor
  · rintro ⟨hkey, hpublic, f, hf, hm⟩
    exact ⟨hkey, hpublic, f, (holds_proper h kind f).1 hf, hm⟩
  · rintro ⟨hkey, hpublic, f, hf, hm⟩
    exact ⟨hkey, hpublic, f, (holds_proper h kind f).2 hf, hm⟩

theorem members_proper {d : Definition} (h : d.kind = .ofFactory →
    ∀ args ∈ d.place.field? .arguments, ∀ a ∈ args.namedChildren.head?, a.bare.kind ≠ .comment) :
    Reading.proper.members d = Reading.written.members d := by
  unfold Reading.members
  cases hk : d.kind with
  | ofFunction => rfl
  | ofClass => rfl
  | ofFactory =>
    dsimp only
    suffices hobject : Reading.proper.factoryObject? d.place = Reading.written.factoryObject? d.place by rw [hobject]
    unfold Reading.factoryObject?
    cases hargs : d.place.field? .arguments with
    | none => rfl
    | some args => rw [Option.bind_some, Option.bind_some, head?_parts_proper (h hk args hargs)]

/-- Each property of a document has a type or a default, and a type if it is required or described. Each module that it
notes stands there once and is one that an import statement of the program names. A function has no methods. Those of a
class, and of the object that a factory is given, are the members that hold a function under a name for users, one entry
each, in their order. This is so for what is read with comments counted, and with comments left out if none stands
before the object or the value of a member. -/
theorem document_grounded (program : Place) (d : Definition) {r : Reading}
    (hr : r = .written ∨ r = .proper ∧ ClearMembers d) :
    let doc := document program (Scope.ofProgram program) d
    (∀ entry ∈ doc.properties, entry.2.Grounded) ∧
    doc.composes.Nodup ∧ (∀ s ∈ doc.composes, ∃ p ∈ program.namedChildren, Imports p s) ∧
    (d.kind = .ofFunction → doc.methods = []) ∧
    Lists (r.Documents d.kind) (r.members d) doc.methods := by
  intro doc
  have hnotes := NotesImports.document program (Scope.ofProgram program) d
  have hmethods : doc.methods = methodsOf d := methods_document program (Scope.ofProgram program) d
  refine ⟨groundedTable_document program _ d, hnotes.nodup, ?_, ?_, ?_⟩
  · intro s hs
    obtain ⟨name, hname⟩ := hnotes.imported s hs
    exact Scope.ImportsBy.ofProgram program name s hname
  · intro hk
    rw [hmethods, methodsOf, hk]
  · rw [hmethods, methodsOf_eq]
    rcases hr with rfl | ⟨rfl, hclear⟩
    · exact lists_filterMap fun p _ m => publicMethod?_eq_some_iff
    · rw [members_proper hclear.object]
      refine lists_filterMap fun p hp m => ?_
      rw [documents_proper (hclear.values p hp)]
      exact publicMethod?_eq_some_iff

def factoryLines : List String :=
  ["import O from 'o';\n", "export default createReactClass(/* c */ \x7b\n",
    "  propTypes: \x7b x: string, ...O.propTypes \x7d,\n", "  open() \x7b\x7d,\n", "  close: (() => 1),\n",
    "  [key]() \x7b\x7d,\n", "  render() \x7b\x7d\n", "\x7d);"]

/-- A method without parameters whose body is empty. -/
def methodNode (start stop : Nat) (key : Node) : Node :=
  .mk .methodDefinition ⟨start, stop⟩ none [
    (some .name, key),
    (some .parameters, .mk .formalParameters ⟨stop - 5, stop - 3⟩ none []),
    (some .body, .mk .statementBlock ⟨stop - 2, stop⟩ none [])]

/-- The object that the factory is given. -/
def factoryNode : Node :=
  .mk .object ⟨59, 167⟩ none ([
    .mk .pair ⟨63, 103⟩ none [
      (some .key, .mk .propertyIdentifier ⟨63, 72⟩ none []),
      (some .value, .mk .object ⟨74, 103⟩ none ([pairNode 76 77 85, importedSpread 87 91 101].map (none, ·)))],
    methodNode 107 116 (.mk .propertyIdentifier ⟨107, 111⟩ none []),
    .mk .pair ⟨120, 136⟩ none [
      (some .key, .mk .propertyIdentifier ⟨120, 125⟩ none []),
      (some .value, .mk .parenthesizedExpression ⟨127, 136⟩ none [
        (none, .mk .arrowFunction ⟨128, 135⟩ none [
          (some .parameters, .mk .formalParameters ⟨128, 130⟩ none []),
          (some .body, .mk .number ⟨134, 135⟩ none [])])])],
    methodNode 140 150 (.mk .computedPropertyName ⟨140, 145⟩ none [(none, .mk .identifier ⟨141, 144⟩ none [])]),
    methodNode 154 165 (.mk .propertyIdentifier ⟨154, 160⟩ none [])].map (none, ·))

/-- A module that exports what a factory makes of an object, before which comments may stand. -/
def factoryProgram (comments : List Node) : Place :=
  .root ⟨(factoryLines.flatMap String.toList).toArray⟩ (.mk .program ⟨0, 169⟩ none [
    (none, .mk .importStatement ⟨0, 18⟩ none [
      (none, .mk .importClause ⟨7, 8⟩ none [(none, .mk .identifier ⟨7, 8⟩ none [])]),
      (some .source, .mk .string ⟨14, 17⟩ none [])]),
    (none, .mk .exportStatement ⟨19, 169⟩ none [
      (some .value, .mk .callExpression ⟨34, 168⟩ none [
        (some .function, .mk .identifier ⟨34, 50⟩ none []),
        (some .arguments, .mk .arguments ⟨50, 168⟩ none ((comments ++ [factoryNode]).map (none, ·)))])])])

def factoryComment : Node := .mk .comment ⟨51, 58⟩ none []

/-- The definition that the module exports. -/
def factoryDefinition (comments : List Node) : Definition :=
  (resolve (factoryProgram comments) (Scope.ofProgram (factoryProgram comments))).toOption.getD default

theorem eq_ok_of_isOk {ε α : Type} [Inhabited α] {x : Except ε α} (h : x.isOk = true) :
    x = .ok (x.toOption.getD default) := by
  cases x with
  | error e => cases h
  | ok a => rfl

/-- Of five members two are methods for users: `propTypes` holds no function, a key is computed, and `render` is for the
framework. -/
theorem factory_document_grounded :
    let program := factoryProgram []
    let scope := Scope.ofProgram program
    let d := factoryDefinition []
    let doc := document program scope d
    resolve program scope = .ok d ∧ ClearMembers d ∧
      doc.properties.map Prod.fst = ["x"] ∧ (∀ entry ∈ doc.properties, entry.2.Grounded) ∧
      doc.composes = ["o"] ∧ (∃ p ∈ program.namedChildren, Imports p "o") ∧
      (Reading.proper.members d).length = 5 ∧ doc.methods.map MethodDoc.name = ["open", "close"] ∧
      Lists (Reading.proper.Documents d.kind) (Reading.proper.members d) doc.methods := by
  intro program scope d doc
  have hclear : ClearMembers d := ⟨by decide +kernel, by decide +kernel⟩
  have hfacts : (resolve program scope).isOk = true ∧ doc.properties.map Prod.fst = ["x"] ∧ doc.composes = ["o"] ∧
      (Reading.proper.members d).length = 5 ∧ doc.methods.map MethodDoc.name = ["open", "close"] := by
    decide +kernel
  obtain ⟨hok, hnames, hcomposes, hlength, hmethods⟩ := hfacts
  obtain ⟨hproperties, _, himports, _, hlists⟩ := document_grounded program d (.inr ⟨rfl, hclear⟩)
  refine ⟨eq_ok_of_isOk hok, hclear, hnames, hproperties, hcomposes, himports "o" ?_, hlength, hmethods, hlists⟩
  show "o" ∈ doc.composes
  rw [hcomposes]
  exact List.mem_singleton_self _

/-- The comment before the object hides its methods: `open` is not listed. -/
theorem comment_hides_methods :
    let program := factoryProgram [factoryComment]
    let scope := Scope.ofProgram program
    let d := factoryDefinition [factoryComment]
    let doc := document program scope d
    resolve program scope = .ok d ∧ doc.methods = [] ∧
      (∃ p ∈ Reading.proper.members d, Reading.proper.Documents d.kind p ⟨"open", none, [], []⟩) ∧
      ¬ Lists (Reading.proper.Documents d.kind) (Reading.proper.members d) doc.methods := by
  intro program scope d doc
  have hfacts : (resolve program scope).isOk = true ∧ doc.methods = [] ∧
      (Reading.proper.members d).any (fun p => (p.field? .value).isNone &&
        decide (publicMethod? (fieldKinds d.kind) (memberName? d.kind) p = some ⟨"open", none, [], []⟩)) = true := by
    decide +kernel
  obtain ⟨hok, hempty, hany⟩ := hfacts
  have hopen : ∃ p ∈ Reading.proper.members d, Reading.proper.Documents d.kind p ⟨"open", none, [], []⟩ := by
    obtain ⟨p, hp, hvalue⟩ := List.any_eq_true.1 hany
    obtain ⟨hnone, hmethod⟩ := Bool.and_eq_true_iff.1 hvalue
    refine ⟨p, hp, (documents_proper ?_ d.kind _).2 (publicMethod?_eq_some_iff.1 (of_decide_eq_true hmethod))⟩
    intro v hv
    rw [Option.mem_def.1 hv] at hnone
    cases hnone
  refine ⟨eq_ok_of_isOk hok, hempty, hopen, fun h => ?_⟩
  obtain ⟨p, hp, hdocuments⟩ := hopen
  rw [hempty] at h
  exact h.silent_of_nil p hp _ hdocuments

end ReactCatalog
