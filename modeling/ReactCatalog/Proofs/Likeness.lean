import Mathlib.Data.List.Forall2
import ReactCatalog.Component.Document
import ReactCatalog.Proofs.Places

/-!
# Places that read alike

Two trees, perhaps of different texts, read alike if they have the same kinds of nodes with the same texts in the same
parts. What is said of a place from the node alone is then the same: which value it is, which type a validator or an
annotation names, which methods a class has. All this holds of any relation between places that goes down from them to
their children (`Likeness`). What is above a place does not matter, except that a comment is handed on from there; so
documentation comments are the same below a construct that hands none on (`Likeness.documented`).
-/

namespace ReactCatalog

/-! ## Related lists and options -/

section

variable {α β γ δ : Type} {R : α → β → Prop} {S : γ → δ → Prop}

theorem rel_cases {x : Option α} {y : Option β} (h : Option.Rel R x y) :
    x = none ∧ y = none ∨ ∃ a b, x = some a ∧ y = some b ∧ R a b := by
  cases h with
  | none => exact .inl ⟨rfl, rfl⟩
  | some h => exact .inr ⟨_, _, rfl, rfl, h⟩

theorem rel_imp {R' : α → β → Prop} {x : Option α} {y : Option β} (h : Option.Rel R x y)
    (hR : ∀ a b, R a b → R' a b) : Option.Rel R' x y := by
  cases h with
  | none => exact .none
  | some h => exact .some (hR _ _ h)

theorem rel_bind {x : Option α} {y : Option β} {f : α → Option γ} {g : β → Option δ} (h : Option.Rel R x y)
    (hf : ∀ a b, R a b → Option.Rel S (f a) (g b)) : Option.Rel S (x.bind f) (y.bind g) := by
  cases h with
  | none => exact .none
  | some h => exact hf _ _ h

theorem rel_map {x : Option α} {y : Option β} {f : α → γ} {g : β → δ} (h : Option.Rel R x y)
    (hf : ∀ a b, R a b → S (f a) (g b)) : Option.Rel S (x.map f) (y.map g) := by
  cases h with
  | none => exact .none
  | some h => exact .some (hf _ _ h)

theorem rel_or {x x₂ : Option α} {y y₂ : Option β} (h : Option.Rel R x y) (h₂ : Option.Rel R x₂ y₂) :
    Option.Rel R (x <|> x₂) (y <|> y₂) := by
  cases h with
  | none => exact h₂
  | some h => exact .some h

theorem rel_filter {x : Option α} {y : Option β} {f : α → Bool} {g : β → Bool} (h : Option.Rel R x y)
    (hf : ∀ a b, R a b → f a = g b) : Option.Rel R (x.filter f) (y.filter g) := by
  cases h with
  | none => exact .none
  | @some a b h =>
    rw [Option.filter_some, Option.filter_some, hf _ _ h]
    split
    · exact .some h
    · exact .none

theorem isSome_eq_of_rel {x : Option α} {y : Option β} (h : Option.Rel R x y) : x.isSome = y.isSome := by
  cases h <;> rfl

theorem map_eq_of_rel {x : Option α} {y : Option β} {f : α → γ} {g : β → γ} (h : Option.Rel R x y)
    (hf : ∀ a b, R a b → f a = g b) : x.map f = y.map g := by
  cases h with
  | none => rfl
  | some h => exact congrArg some (hf _ _ h)

theorem bind_eq_of_rel {x : Option α} {y : Option β} {f : α → Option γ} {g : β → Option γ} (h : Option.Rel R x y)
    (hf : ∀ a b, R a b → f a = g b) : x.bind f = y.bind g := by
  cases h with
  | none => rfl
  | some h => exact hf _ _ h

variable {l : List α} {l' : List β}

theorem rel_mem (h : List.Forall₂ R l l') : List.Forall₂ (fun a b => a ∈ l ∧ R a b) l l' := by
  induction h with
  | nil => exact .nil
  | cons hab _ ih =>
    refine .cons ⟨List.mem_cons_self, hab⟩ (ih.imp ?_)
    exact fun _ _ hcd => ⟨List.mem_cons_of_mem _ hcd.1, hcd.2⟩

theorem exists_rel_of_mem_right (h : List.Forall₂ R l l') {b : β} (hb : b ∈ l') : ∃ a ∈ l, R a b := by
  induction h with
  | nil => cases hb
  | cons hac _ ih =>
    rcases List.mem_cons.1 hb with rfl | hb
    · exact ⟨_, List.mem_cons_self, hac⟩
    · obtain ⟨a, ha, hab⟩ := ih hb
      exact ⟨a, List.mem_cons_of_mem _ ha, hab⟩

theorem toList_rel {x : Option α} {y : Option β} (h : Option.Rel R x y) : List.Forall₂ R x.toList y.toList := by
  cases h with
  | none => exact .nil
  | some h => exact .cons h .nil

theorem head?_rel (h : List.Forall₂ R l l') : Option.Rel R l.head? l'.head? := by
  cases h with
  | nil => exact .none
  | cons h _ => exact .some h

theorem getElem?_rel (h : List.Forall₂ R l l') (i : Nat) : Option.Rel R l[i]? l'[i]? := by
  induction h generalizing i with
  | nil => exact .none
  | cons hab _ ih =>
    cases i with
    | zero => exact .some hab
    | succ i => exact ih i

theorem getLast?_rel (h : List.Forall₂ R l l') : Option.Rel R l.getLast? l'.getLast? := by
  rw [← List.head?_reverse, ← List.head?_reverse]
  exact head?_rel (List.rel_reverse h)

theorem find?_rel {f : α → Bool} {g : β → Bool} (h : List.Forall₂ R l l') (hf : ∀ a b, R a b → f a = g b) :
    Option.Rel R (l.find? f) (l'.find? g) := by
  induction h with
  | nil => exact .none
  | @cons a b _ _ hab _ ih =>
    rw [List.find?_cons, List.find?_cons, hf a b hab]
    cases g b with
    | true => exact .some hab
    | false => exact ih

theorem findSome?_rel {f : α → Option γ} {g : β → Option δ} (h : List.Forall₂ R l l')
    (hf : ∀ a b, R a b → Option.Rel S (f a) (g b)) : Option.Rel S (l.findSome? f) (l'.findSome? g) := by
  induction h with
  | nil => exact .none
  | @cons a b _ _ hab _ ih =>
    rw [List.findSome?_cons, List.findSome?_cons]
    rcases rel_cases (hf a b hab) with ⟨hx, hy⟩ | ⟨c, d, hx, hy, hcd⟩
    · rw [hx, hy]
      exact ih
    · rw [hx, hy]
      exact .some hcd

theorem filter_rel {f : α → Bool} {g : β → Bool} (h : List.Forall₂ R l l') (hf : ∀ a b, R a b → f a = g b) :
    List.Forall₂ R (l.filter f) (l'.filter g) :=
  List.rel_filter (fun a b hab => iff_of_eq (congrArg (· = true) (hf a b hab))) h

theorem any_eq_of_rel {f : α → Bool} {g : β → Bool} (h : List.Forall₂ R l l') (hf : ∀ a b, R a b → f a = g b) :
    l.any f = l'.any g := by
  induction h with
  | nil => rfl
  | cons hab _ ih => rw [List.any_cons, List.any_cons, hf _ _ hab, ih]

theorem all_eq_of_rel {f : α → Bool} {g : β → Bool} (h : List.Forall₂ R l l') (hf : ∀ a b, R a b → f a = g b) :
    l.all f = l'.all g := by
  induction h with
  | nil => rfl
  | cons hab _ ih => rw [List.all_cons, List.all_cons, hf _ _ hab, ih]

theorem map_eq_of_rel_list {f : α → γ} {g : β → γ} (h : List.Forall₂ R l l') (hf : ∀ a b, R a b → f a = g b) :
    l.map f = l'.map g := by
  induction h with
  | nil => rfl
  | cons hab _ ih => rw [List.map_cons, List.map_cons, hf _ _ hab, ih]

theorem filterMap_eq_of_rel {f : α → Option γ} {g : β → Option γ} (h : List.Forall₂ R l l')
    (hf : ∀ a b, R a b → f a = g b) : l.filterMap f = l'.filterMap g := by
  induction h with
  | nil => rfl
  | cons hab _ ih => rw [List.filterMap_cons, List.filterMap_cons, hf _ _ hab, ih]

theorem filterMap_rel {f : α → Option γ} {g : β → Option δ} (h : List.Forall₂ R l l')
    (hf : ∀ a b, R a b → Option.Rel S (f a) (g b)) : List.Forall₂ S (l.filterMap f) (l'.filterMap g) :=
  List.rel_filterMap (fun a b hab => hf a b hab) h

theorem flatMap_eq_of_rel {f : α → List γ} {g : β → List γ} (h : List.Forall₂ R l l')
    (hf : ∀ a b, R a b → f a = g b) : l.flatMap f = l'.flatMap g := by
  induction h with
  | nil => rfl
  | cons hab _ ih => rw [List.flatMap_cons, List.flatMap_cons, hf _ _ hab, ih]

theorem flatMap_rel {f : α → List γ} {g : β → List δ} (h : List.Forall₂ R l l')
    (hf : ∀ a b, R a b → List.Forall₂ S (f a) (g b)) : List.Forall₂ S (l.flatMap f) (l'.flatMap g) :=
  List.rel_flatMap h fun a b hab => hf a b hab

theorem foldl_rel {f : γ → α → γ} {g : δ → β → δ} {s : γ} {s' : δ} (h : List.Forall₂ R l l') (hs : S s s')
    (hf : ∀ c d a b, S c d → R a b → S (f c a) (g d b)) : S (l.foldl f s) (l'.foldl g s') := by
  induction h generalizing s s' with
  | nil => exact hs
  | cons hab _ ih => exact ih (hf _ _ _ _ hs hab)

end

/-! ## Trees that read alike -/

/-- Only blanks lie between a child and the one after it. -/
def Source.blankAfter (s : Source) (n : Node) (i : Nat) : Bool :=
  match n.children[i]?, n.children[i + 1]? with
  | some a, some b => (s.slice a.stop b.start).all Text.isBlank
  | _, _ => false

/-- The trees read alike: they have the same nodes with the same texts in the same parts, with blanks between them in
the same places. -/
inductive Node.ReadsLike (s s' : Source) : Node → Node → Prop
  | intro {n n' : Node} : n.kind = n'.kind → s.text n = s'.text n' →
      n.parts.map Prod.fst = n'.parts.map Prod.fst → (∀ i, s.blankAfter n i = s'.blankAfter n' i) →
      (∀ (i : Nat) c c', n.children[i]? = some c → n'.children[i]? = some c' → ReadsLike s s' c c') →
      ReadsLike s s' n n'

namespace Place

theorem getElem?_children (p : Place) (i : Nat) : p.children[i]? = p.node.children[i]?.map (p.down i) := by
  unfold children
  rw [List.getElem?_map, List.getElem?_zipIdx, Option.map_map, Nat.zero_add]
  rfl

/-- A part is found by the position of its label. -/
theorem field?_eq (p : Place) (f : Field) :
    p.field? f = ((p.node.parts.map Prod.fst).findIdx? (· == some f)).bind fun i => p.children[i]? := by
  have hall : ∀ (l : List (Option Field × Node)) (k : Nat), (l.zipIdx k).find? (fun c => c.1.1 == some f) =
      ((l.map Prod.fst).findIdx? (· == some f)).bind fun i => l[i]?.map fun c => (c, k + i) := by
    intro l
    induction l with
    | nil => intro k; rfl
    | cons c rest ih =>
      intro k
      rw [List.zipIdx_cons, List.find?_cons, List.map_cons, List.findIdx?_cons]
      cases hc : c.1 == some f with
      | true => rfl
      | false =>
        dsimp only
        rw [ih (k + 1)]
        cases (rest.map Prod.fst).findIdx? (· == some f) with
        | none => rfl
        | some i => simp [Nat.add_comm, Nat.add_left_comm]
  unfold field?
  rw [hall, Option.map_bind]
  congr 1
  funext i
  rw [Function.comp_apply, getElem?_children, Node.children, List.getElem?_map, Option.map_map, Option.map_map,
    Nat.zero_add]
  rfl

section

variable {p p' : Place} {R : Place → Place → Prop} (hl : p.node.parts.map Prod.fst = p'.node.parts.map Prod.fst)

include hl

/-- Children are related if those at the same positions are. -/
theorem children_rel (hR : ∀ (i : Nat) c c', p.node.children[i]? = some c → p'.node.children[i]? = some c' →
    R (p.down i c) (p'.down i c')) : List.Forall₂ R p.children p'.children := by
  have hlength : p.node.parts.length = p'.node.parts.length := by simpa using congrArg List.length hl
  refine List.forall₂_iff_get.2 ⟨by simp [children, Node.children, hlength], ?_⟩
  intro i hi hi'
  have hn : i < p.node.children.length := by simpa [children] using hi
  have hn' : i < p'.node.children.length := by simpa [children] using hi'
  have hrel := hR i _ _ (List.getElem?_eq_getElem hn) (List.getElem?_eq_getElem hn')
  simpa [children] using hrel

theorem field?_rel (hc : List.Forall₂ R p.children p'.children) (f : Field) :
    Option.Rel R (p.field? f) (p'.field? f) := by
  rw [field?_eq, field?_eq, hl]
  cases (p'.node.parts.map Prod.fst).findIdx? (· == some f) with
  | none => exact .none
  | some i => exact getElem?_rel hc i

end

theorem docblock?_go {p q : Place} (h : p.source = q.source) (above : List (Node × Nat)) (n : Node) :
    docblock?.go p above n = docblock?.go q above n := by
  induction above generalizing n with
  | nil => rfl
  | cons frame up ih => rw [docblock?.go, docblock?.go, h, ih]

theorem bare_of_inside? {p q : Place} (h : p.inside? = some q) : p.bare = q.bare := by
  rw [bare]
  split
  · next r hr =>
    rw [h, Option.some.injEq] at hr
    rw [hr]
  · next hr =>
    rw [h] at hr
    cases hr

theorem bare_of_inside?_eq_none {p : Place} (h : p.inside? = none) : p.bare = p := by
  rw [bare]
  split
  · next r hr =>
    rw [h] at hr
    cases hr
  · rfl

/-- A documentation comment is right before a place, or is handed on from its parent. -/
theorem docblock?_down (p : Place) (i : Nat) (c : Node) :
    (p.down i c).docblock? =
      ((p.down i c).precedingDoc? <|> if passesDocs p.kind then p.docblock? else none) := by
  have hgo : docblock?.go (p.down i c) p.above p.node = p.docblock? :=
    docblock?_go (show (p.down i c).source = p.source from rfl) p.above p.node
  show docblock?.go (p.down i c) ((p.node, i) :: p.above) c = _
  rw [docblock?.go, hgo]
  split
  · next d hd =>
    have hd : (p.down i c).precedingDoc? = some d := hd
    rw [hd]
    rfl
  · next hd =>
    have hd : (p.down i c).precedingDoc? = none := hd
    rw [hd]
    rfl

/-- What precedes another child is its sibling. -/
theorem precedingDoc?_down_succ {p : Place} {i : Nat} {c : Node} (hc : p.node.children[i + 1]? = some c) :
    (p.down (i + 1) c).precedingDoc? = p.children[i]?.bind fun b =>
      if b.kind = .comment ∧ p.source.blankAfter p.node i = true then docblockText? b.text else none := by
  rw [getElem?_children]
  cases hb : p.node.children[i]? with
  | none => simp [precedingDoc?, previous?, down, hb]
  | some b =>
    have hblank : p.source.blankAfter p.node i = (p.source.slice b.stop c.start).all Text.isBlank := by
      simp [Source.blankAfter, hb, hc]
    rw [hblank]
    simp only [precedingDoc?, previous?, down, hb]
    rfl

/-- What precedes a child is the same if its siblings read alike or are no comments. -/
theorem precedingDoc?_down_eq {p p' : Place} (hlabels : p.node.parts.map Prod.fst = p'.node.parts.map Prod.fst)
    (hblank : ∀ j, p.source.blankAfter p.node j = p'.source.blankAfter p'.node j)
    (hsiblings : ∀ (j : Nat) b b', p.node.children[j]? = some b → p'.node.children[j]? = some b' →
      Node.ReadsLike p.source p'.source b b' ∨ b.kind ≠ .comment ∧ b'.kind ≠ .comment) {i : Nat} {c c' : Node}
    (hc : p.node.children[i]? = some c) (hc' : p'.node.children[i]? = some c') :
    (p.down i c).precedingDoc? = (p'.down i c').precedingDoc? := by
  cases i with
  | zero => rfl
  | succ i =>
    have hrel : List.Forall₂ (fun b b' => Node.ReadsLike b.source b'.source b.node b'.node ∨
        b.kind ≠ .comment ∧ b'.kind ≠ .comment) p.children p'.children :=
      children_rel hlabels hsiblings
    rw [precedingDoc?_down_succ hc, precedingDoc?_down_succ hc', hblank]
    refine bind_eq_of_rel (getElem?_rel hrel i) fun b b' hb => ?_
    rcases hb with hb | ⟨hb, hb'⟩
    · cases hb with
      | intro hk ht _ _ _ => rw [show b.kind = b'.kind from hk, show b.text = b'.text from ht]
    · rw [if_neg fun h => hb h.1, if_neg fun h => hb' h.1]

end Place

/-- A relation between places that read alike, which goes down to their children. -/
structure Likeness (M : Place → Place → Prop) : Prop where
  reads : ∀ {p p' : Place}, M p p' → Node.ReadsLike p.source p'.source p.node p'.node
  down : ∀ {p p' : Place}, M p p' → ∀ {i : Nat} {c c' : Node}, p.node.children[i]? = some c →
    p'.node.children[i]? = some c' → M (p.down i c) (p'.down i c')

namespace Likeness

variable {M : Place → Place → Prop} {p p' : Place}

section

variable (hM : Likeness M) (h : M p p')

include hM h

/-! ## Nodes and their parts -/

theorem kind : p.kind = p'.kind := by
  cases hM.reads h with
  | intro hk _ _ _ _ => exact hk

theorem text : p.text = p'.text := by
  cases hM.reads h with
  | intro _ ht _ _ _ => exact ht

theorem labels : p.node.parts.map Prod.fst = p'.node.parts.map Prod.fst := by
  cases hM.reads h with
  | intro _ _ hl _ _ => exact hl

theorem isNamed : p.isNamed = p'.isNamed := congrArg Kind.isNamed (hM.kind h)

theorem children : List.Forall₂ M p.children p'.children :=
  Place.children_rel (hM.labels h) fun _ _ _ hc hc' => hM.down h hc hc'

theorem namedChildren : List.Forall₂ M p.namedChildren p'.namedChildren :=
  filter_rel (hM.children h) fun _ _ hc => hM.isNamed hc

theorem field? (f : Field) : Option.Rel M (p.field? f) (p'.field? f) :=
  Place.field?_rel (hM.labels h) (hM.children h) f

theorem fieldText? (f : Field) : p.fieldText? f = p'.fieldText? f :=
  map_eq_of_rel (hM.field? h f) fun _ _ hc => hM.text hc

theorem hasSymbol (word : String) : p.hasSymbol word = p'.hasSymbol word :=
  any_eq_of_rel (hM.children h) fun _ _ hc => by rw [hM.kind hc, hM.text hc]

/-! ## Values -/

theorem inside? : Option.Rel M p.inside? p'.inside? := by
  unfold Place.inside?
  rw [hM.kind h]
  split
  · exact head?_rel (hM.namedChildren h)
  · exact head?_rel (hM.namedChildren h)
  · exact head?_rel (hM.namedChildren h)
  · exact head?_rel (hM.namedChildren h)
  · exact getLast?_rel (hM.namedChildren h)
  · exact .none

theorem bare : M p.bare p'.bare := by
  fun_induction Place.bare p generalizing p' with
  | case1 p q hq ih =>
    rcases rel_cases (hM.inside? h) with ⟨hx, _⟩ | ⟨a, b, hx, hy, hab⟩
    · rw [hq] at hx
      cases hx
    · rw [hq, Option.some.injEq] at hx
      subst hx
      rw [Place.bare_of_inside? hy]
      exact ih hab
  | case2 p hq =>
    rcases rel_cases (hM.inside? h) with ⟨_, hy⟩ | ⟨a, b, hx, _, _⟩
    · rw [Place.bare_of_inside?_eq_none hy]
      exact h
    · rw [hq] at hx
      cases hx

theorem isFixedTemplate : p.isFixedTemplate = p'.isFixedTemplate := by
  unfold Place.isFixedTemplate
  rw [hM.kind h, all_eq_of_rel (hM.namedChildren h) fun _ _ hc => by rw [hM.kind hc]]

theorem stringValue? : p.stringValue? = p'.stringValue? := by
  unfold Place.stringValue?
  rw [hM.kind h, hM.text h, hM.isFixedTemplate h]

theorem propertyKey? : p.propertyKey? = p'.propertyKey? := by
  unfold Place.propertyKey?
  rw [hM.kind h, hM.text h, hM.stringValue? h]

theorem isFunctionLiteral : p.isFunctionLiteral = p'.isFunctionLiteral := by
  unfold Place.isFunctionLiteral
  rw [hM.kind h]

theorem isLiteral : p.isLiteral = p'.isLiteral := by
  have hv := hM.bare h
  have hargument : ((p.bare.field? .argument).map fun a => a.kind == .number) =
      ((p'.bare.field? .argument).map fun a => a.kind == .number) :=
    map_eq_of_rel (hM.field? hv .argument) fun _ _ ha => by rw [hM.kind ha]
  unfold Place.isLiteral
  dsimp only
  rw [hM.kind hv, hM.isFixedTemplate hv, hargument]

theorem calledName? : p.calledName? = p'.calledName? := by
  unfold Place.calledName?
  rw [hM.kind h, hM.text h, hM.fieldText? h]

theorem rendersElements : p.rendersElements = p'.rendersElements := by
  induction hn : sizeOf p.node using Nat.strongRecOn generalizing p p' with
  | ind n ih =>
    subst hn
    have hname : (p.field? .function).bind Place.calledName? = (p'.field? .function).bind Place.calledName? :=
      bind_eq_of_rel (hM.field? h .function) fun _ _ hf => hM.calledName? hf
    have hchildren : p.children.any Place.rendersElements = p'.children.any Place.rendersElements :=
      any_eq_of_rel (rel_mem (hM.children h)) fun _ _ hc =>
        ih _ (Place.sizeOf_node_lt_of_mem_children hc.1) hc.2 rfl
    rw [Place.rendersElements, Place.rendersElements, List.any_subtype (g := Place.rendersElements) fun _ _ => rfl,
      List.any_subtype (g := Place.rendersElements) fun _ _ => rfl, List.unattach_attach, List.unattach_attach,
      hM.kind h, hname, hchildren]

omit h in
/-- The object literal that a value is. -/
theorem asObject? (hv : M p.bare p'.bare) : Option.Rel M p.asObject? p'.asObject? := by
  unfold Place.asObject?
  rw [hM.kind hv]
  split
  · exact .some hv
  · exact .none

theorem returnedObject? : Option.Rel M p.returnedObject? p'.returnedObject? := by
  refine rel_bind (hM.field? h .body) ?_
  intro b b' hb
  rw [hM.kind hb]
  split
  · exact hM.asObject? (hM.bare hb)
  · refine findSome?_rel (filter_rel (hM.namedChildren hb) fun _ _ hc => by rw [hM.kind hc]) ?_
    intro r r' hr
    exact rel_bind (head?_rel (hM.namedChildren hr)) fun _ _ hv => hM.asObject? (hM.bare hv)

theorem isComponentClass : p.isComponentClass = p'.isComponentClass := by
  have hheritage : (p.children.any fun c => c.kind == .classHeritage && extendsComponent c.text.toList) =
      p'.children.any fun c => c.kind == .classHeritage && extendsComponent c.text.toList :=
    any_eq_of_rel (hM.children h) fun _ _ hc => by rw [hM.kind hc, hM.text hc]
  unfold Place.isComponentClass
  rw [hheritage, map_eq_of_rel (hM.field? h .body) fun b b' hb =>
    any_eq_of_rel (hM.namedChildren hb) fun _ _ hm => by rw [hM.kind hm, hM.fieldText? hm]]

/-! ## Documentation comments -/

theorem precedingDoc?_down {i : Nat} {c c' : Node} (hc : p.node.children[i]? = some c)
    (hc' : p'.node.children[i]? = some c') : (p.down i c).precedingDoc? = (p'.down i c').precedingDoc? := by
  cases hM.reads h with
  | intro _ _ hl hb hchildren =>
    exact Place.precedingDoc?_down_eq hl hb (fun j b b' hb hb' => .inl (hchildren j b b' hb hb')) hc hc'

end

/-- The places correspond and have the same documentation comment. -/
def Documented (M : Place → Place → Prop) (p p' : Place) : Prop := M p p' ∧ p.docblock? = p'.docblock?

section

variable (hM : Likeness M) (h : M p p') (hd : Place.passesDocs p.kind = true → p.docblock? = p'.docblock?)

include hM h hd

/-- Below a construct that hands no comment on, or has the same one, comments are the same. -/
theorem documented : List.Forall₂ (Documented M) p.children p'.children := by
  refine Place.children_rel (hM.labels h) fun i c c' hc hc' => ⟨hM.down h hc hc', ?_⟩
  rw [Place.docblock?_down, Place.docblock?_down, hM.precedingDoc?_down h hc hc', ← hM.kind h]
  cases hp : Place.passesDocs p.kind with
  | true => rw [hd hp]
  | false => rfl

theorem documentedNamed : List.Forall₂ (Documented M) p.namedChildren p'.namedChildren :=
  filter_rel (hM.documented h hd) fun _ _ hc => hM.isNamed hc.1

theorem documentedField (f : Field) : Option.Rel (Documented M) (p.field? f) (p'.field? f) :=
  Place.field?_rel (hM.labels h) (hM.documented h hd) f

end

end Likeness

end ReactCatalog
