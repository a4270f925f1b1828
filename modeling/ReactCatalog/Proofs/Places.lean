import ReactCatalog.Component.Definition
import ReactCatalog.Proofs.Dictionary

/-!
# Places of one tree

Everything that resolution looks at lies within the program: what its statements export, what its names are bound
to, and where one gets from there. Within one tree a path tells places apart (`Within.eq_of_path`), so comparing
paths is comparing places.

Members have names (`Spells`), and a list of members gives a list of entries, one for each member that has one
(`Lists`).
-/

namespace ReactCatalog

/-- The place is the top of the tree or somewhere below it. -/
inductive Within (top : Place) : Place → Prop
  | top : Within top top
  | child {p c : Place} : Within top p → c ∈ p.children → Within top c

namespace Place

/-- A child is found by its position. -/
theorem mem_children_iff {p c : Place} :
    c ∈ p.children ↔ ∃ i n, p.node.children[i]? = some n ∧ c = p.down i n := by
  unfold children
  rw [List.mem_map]
  constructor
  · rintro ⟨⟨n, i⟩, hm, rfl⟩
    exact ⟨i, n, List.mk_mem_zipIdx_iff_getElem?.1 hm, rfl⟩
  · rintro ⟨i, n, hn, rfl⟩
    exact ⟨(n, i), List.mk_mem_zipIdx_iff_getElem?.2 hn, rfl⟩

theorem preorder_eq (p : Place) : p.preorder = p :: p.children.flatMap preorder := by
  rw [preorder, children, List.flatMap_map,
    List.flatMap_subtype (g := fun c => (p.down c.2 c.1).preorder) fun _ _ => rfl, List.unattach_attach]

theorem path_down (p : Place) (i : Nat) (n : Node) : (p.down i n).path = i :: p.path := rfl

end Place

namespace Within

variable {top p q : Place}

theorem length_path_le (h : Within top p) : top.path.length ≤ p.path.length := by
  induction h with
  | top => exact Nat.le_refl _
  | child _ hc ih =>
    obtain ⟨i, n, _, rfl⟩ := Place.mem_children_iff.1 hc
    rw [Place.path_down, List.length_cons]
    omega

/-- Places of one tree with the same path are the same. -/
theorem eq_of_path (hp : Within top p) (hq : Within top q) (h : p.path = q.path) : p = q := by
  induction hp generalizing q with
  | top =>
    cases hq with
    | top => rfl
    | child hq hc =>
      -- the path of a place below the top is longer than that of the top
      obtain ⟨j, m, _, rfl⟩ := Place.mem_children_iff.1 hc
      have hle := hq.length_path_le
      rw [h, Place.path_down, List.length_cons] at hle
      omega
  | child hp hc ih =>
    obtain ⟨i, n, hn, rfl⟩ := Place.mem_children_iff.1 hc
    cases hq with
    | top =>
      have hle := hp.length_path_le
      rw [← h, Place.path_down, List.length_cons] at hle
      omega
    | child hq hc =>
      obtain ⟨j, m, hm, rfl⟩ := Place.mem_children_iff.1 hc
      rw [Place.path_down, Place.path_down, List.cons.injEq] at h
      obtain ⟨rfl, h⟩ := h
      obtain rfl := ih hq h
      rw [hn, Option.some.injEq] at hm
      rw [hm]

theorem named (h : Within top p) (hc : q ∈ p.namedChildren) : Within top q :=
  .child h (Place.mem_children_of_mem_namedChildren hc)

theorem field (h : Within top p) {f : Field} (hf : p.field? f = some q) : Within top q :=
  .child h (Place.mem_children_of_field? hf)

theorem inside (h : Within top p) (hi : p.inside? = some q) : Within top q :=
  h.named (Place.mem_namedChildren_of_inside? hi)

theorem bare (h : Within top p) : Within top p.bare := by
  fun_induction Place.bare p with
  | case1 p q hi ih => exact ih (h.inside hi)
  | case2 p hi => exact h

end Within

/-! ## Scopes -/

/-- Every name is bound to a value within the tree. -/
def Scope.Inside (s : Scope) (top : Place) : Prop := ∀ name b, s.lookup name = some b → Within top b.value

namespace Scope.Inside

variable {s : Scope} {top p : Place}

theorem bind (hs : s.Inside top) (name : String) {b : Binding} (hb : Within top b.value) :
    (s.bind name b).Inside top := by
  intro other b' h
  unfold Scope.lookup Scope.bind at h
  by_cases hn : other = name
  · subst hn
    rw [Dictionary.find?_insert_self, Option.some.injEq] at h
    rw [← h]
    exact hb
  · rw [Dictionary.find?_insert_of_ne hn] at h
    exact hs other b' h

theorem bindDeclarator (hs : s.Inside top) (hp : Within top p) : (s.bindDeclarator p).Inside top := by
  unfold Scope.bindDeclarator
  split
  · split
    · next name value _ hv =>
      split
      · exact hs.bind name.text (hp.field hv)
      · exact hs
    · exact hs
  · exact hs

/-- A pass over places within the tree keeps to it if each step does. -/
theorem foldl {f : Scope → Place → Scope} {ps : List Place}
    (h : ∀ s p, s.Inside top → p ∈ ps → (f s p).Inside top) (hs : s.Inside top) : (ps.foldl f s).Inside top :=
  List.foldlRecOn ps f hs fun s hs p hp => h s p hs hp

theorem declare (hs : s.Inside top) (hp : Within top p) : (s.declare p).Inside top := by
  have hlist : (p.namedChildren.foldl Scope.bindDeclarator s).Inside top :=
    foldl (fun s d hs hd => hs.bindDeclarator (hp.named hd)) hs
  unfold Scope.declare
  split
  case h_1 | h_2 | h_3 =>
    split
    · next name _ => exact hs.bind name.text hp
    · exact hs
  case h_4 | h_5 => exact hlist
  case h_6 => exact hs

theorem addImport (hs : s.Inside top) (p : Place) : (s.addImport p).Inside top := by
  unfold Scope.addImport
  split
  · exact hs
  · exact hs

theorem addStatement (hs : s.Inside top) (hp : Within top p) : (s.addStatement p).Inside top := by
  unfold Scope.addStatement
  split
  · cases hd : p.field? .declaration with
    | none => exact hs
    | some d => exact hs.declare (hp.field hd)
  · exact hs.addImport p
  · exact hs.declare hp

theorem ofProgram (program : Place) : (Scope.ofProgram program).Inside program := by
  refine foldl (fun s p hs hp => hs.addStatement (Within.top.named hp)) ?_
  intro name b h
  cases h

end Scope.Inside

/-! ## Exports -/

theorem within_of_assignment? {top p left right : Place} (hp : Within top p)
    (h : p.assignment? = some (left, right)) : Within top right := by
  unfold Place.assignment? at h
  split at h
  · cases h
  · obtain ⟨a, ha, h⟩ := Option.bind_eq_some_iff.1 h
    split at h
    · cases h
    · obtain ⟨l, _, h⟩ := Option.bind_eq_some_iff.1 h
      obtain ⟨r, hr, h⟩ := Option.bind_eq_some_iff.1 h
      cases h
      exact (hp.named (List.mem_of_head? ha)).field hr

theorem within_of_declaredValues {top p : Place} {e : Exported} (hp : Within top p) (h : e ∈ declaredValues p) :
    Within top e.value := by
  have hlist : e ∈ ((p.namedChildren.filter fun d => d.kind == .variableDeclarator).filterMap fun d =>
      (d.field? .value).map fun v => (⟨v, d.fieldText? .name, some d⟩ : Exported)) → Within top e.value := by
    intro h
    obtain ⟨d, hd, h⟩ := List.mem_filterMap.1 h
    obtain ⟨v, hv, rfl⟩ := Option.map_eq_some_iff.1 h
    exact (hp.named (List.mem_filter.1 hd).1).field hv
  unfold declaredValues at h
  split at h
  · cases List.mem_singleton.1 h
    exact hp
  · cases List.mem_singleton.1 h
    exact hp
  · cases List.mem_singleton.1 h
    exact hp
  · exact hlist h
  · exact hlist h
  · cases h

theorem within_of_clauseValues {top p : Place} {scope : Scope} {e : Exported} (hs : scope.Inside top)
    (h : e ∈ clauseValues scope p) : Within top e.value := by
  obtain ⟨c, _, h⟩ := List.mem_flatMap.1 h
  obtain ⟨item, _, h⟩ := List.mem_filterMap.1 h
  obtain ⟨name, _, h⟩ := Option.bind_eq_some_iff.1 h
  obtain ⟨b, hb, h⟩ := Option.bind_eq_some_iff.1 h
  cases h
  exact hs name b hb

theorem within_of_exportedBy {top p : Place} {scope : Scope} {e : Exported} (hs : scope.Inside top)
    (hp : Within top p) (h : e ∈ exportedBy scope p) : Within top e.value := by
  unfold exportedBy at h
  split at h
  · split at h
    · cases h
    · split at h
      · next d hd => exact within_of_declaredValues (hp.field hd) h
      · split at h
        · next v hv =>
          cases List.mem_singleton.1 h
          exact hp.field hv
        · exact within_of_clauseValues hs h
  · split at h
    · next left right ha =>
      split at h
      · cases List.mem_singleton.1 h
        exact within_of_assignment? hp ha
      · cases h
    · cases h

theorem within_of_exportedValues {program : Place} {scope : Scope} {e : Exported} (hs : scope.Inside program)
    (h : e ∈ exportedValues program scope) : Within program e.value := by
  obtain ⟨p, hp, h⟩ := List.mem_flatMap.1 h
  exact within_of_exportedBy hs (Within.top.named hp) h

/-! ## Keys -/

/-- A key that is not computed spells a name: a word or a number as it is written, a string without its quotes. -/
inductive Spells (key : Place) : String → Prop
  | word : key.kind ∈ [.propertyIdentifier, .identifier, .number, .privatePropertyIdentifier] → Spells key key.text
  | quoted : key.kind = .string → Spells key (String.ofList (key.text.toList.drop 1).dropLast)

theorem propertyKey?_eq_some_iff {key : Place} {name : String} : key.propertyKey? = some name ↔ Spells key name := by
  constructor
  · intro h
    unfold Place.propertyKey? at h
    split at h
    case h_1 hk | h_2 hk | h_3 hk | h_4 hk =>
      cases h
      exact .word (by simp [hk])
    case h_5 hk =>
      rw [Place.stringValue?, if_pos hk] at h
      obtain rfl := Option.some.inj h
      exact .quoted hk
    case h_6 => cases h
  · rintro (hk | hk)
    · simp only [List.mem_cons, List.not_mem_nil, or_false] at hk
      rcases hk with hk | hk | hk | hk <;> simp [Place.propertyKey?, hk]
    · simp [Place.propertyKey?, Place.stringValue?, hk]

/-! ## Entries -/

/-- The entries of those items that have one, in their order. -/
inductive Lists {α β : Type} (R : α → β → Prop) : List α → List β → Prop
  | nil : Lists R [] []
  | entry {a : α} {b : β} {as : List α} {bs : List β} : R a b → Lists R as bs → Lists R (a :: as) (b :: bs)
  | silent {a : α} {as : List α} {bs : List β} : (∀ b, ¬ R a b) → Lists R as bs → Lists R (a :: as) bs

theorem lists_filterMap {α β : Type} {R : α → β → Prop} {f : α → Option β} {as : List α}
    (h : ∀ a ∈ as, ∀ b, f a = some b ↔ R a b) : Lists R as (as.filterMap f) := by
  induction as with
  | nil => exact .nil
  | cons a rest ih =>
    have hrest := ih fun a' ha' => h a' (List.mem_cons_of_mem _ ha')
    have ha := h a List.mem_cons_self
    cases hf : f a with
    | none =>
      rw [List.filterMap_cons_none hf]
      refine .silent (fun b hb => ?_) hrest
      rw [← ha b, hf] at hb
      cases hb
    | some b =>
      rw [List.filterMap_cons_some hf]
      exact .entry ((ha b).1 hf) hrest

/-- Where nothing is listed no item has an entry. -/
theorem Lists.silent_of_nil {α β : Type} {R : α → β → Prop} {as : List α} (h : Lists R as []) :
    ∀ a ∈ as, ∀ b, ¬ R a b := by
  induction as with
  | nil => exact fun a ha => absurd ha List.not_mem_nil
  | cons a rest ih =>
    cases h with
    | silent ha hrest => exact List.forall_mem_cons.2 ⟨ha, ih hrest⟩

/-- Each entry is that of some item. -/
theorem Lists.exists_of_mem {α β : Type} {R : α → β → Prop} {as : List α} {bs : List β} (h : Lists R as bs) {b : β}
    (hb : b ∈ bs) : ∃ a ∈ as, R a b := by
  induction h with
  | nil => cases hb
  | @entry a b' as bs hab _ ih =>
    rcases List.mem_cons.1 hb with rfl | hb
    · exact ⟨a, List.mem_cons_self, hab⟩
    · obtain ⟨a', ha', hR⟩ := ih hb
      exact ⟨a', List.mem_cons_of_mem _ ha', hR⟩
  | silent _ _ ih =>
    obtain ⟨a', ha', hR⟩ := ih hb
    exact ⟨a', List.mem_cons_of_mem _ ha', hR⟩

/-- If each item has an entry, they are listed one for one. -/
theorem Lists.forall₂ {α β : Type} {R : α → β → Prop} {as : List α} {bs : List β} (h : Lists R as bs)
    (hall : ∀ a ∈ as, ∃ b, R a b) : List.Forall₂ R as bs := by
  induction h with
  | nil => exact .nil
  | entry hab _ ih => exact .cons hab (ih fun a ha => hall a (List.mem_cons_of_mem _ ha))
  | silent hnone _ _ =>
    obtain ⟨b, hb⟩ := hall _ List.mem_cons_self
    exact absurd hb (hnone b)

end ReactCatalog
