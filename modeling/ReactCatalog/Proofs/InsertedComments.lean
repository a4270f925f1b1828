import ReactCatalog.Proofs.LikeModules

/-!
# Trees with comments put in

Comments are nodes among the others. A tree with comments put in has the same nodes but for those, in the same order
(`Node.Commented`), so each place of the tree without them has one that corresponds to it (`Corresponds`), and different
places have different ones (`corresponds_keepsPaths`).

What is read of corresponding places is the same, except where the first or last of several parts is taken: that may be
a comment. Taking off the wrappers of a value therefore ends at a comment or at the corresponding value
(`Corresponds.bare`).
-/

namespace ReactCatalog

/-! ## Nodes -/

/-- Constructs that comments are put into. -/
def commentHosts : List Kind := [.arguments, .parenthesizedExpression, .exportStatement]

/-- What is read of the text of a part with a label is the same. -/
@[mk_iff]
structure SameText (parent : Kind) (label : Option Field) (t t' : String) : Prop where
  property : label = some .property → t = t'
  name : label = some .name → parent ≠ .methodDefinition → t = t'
  method : label = some .name → (t == "render") = (t' == "render")
  target : label = some .left → isExportTarget t = isExportTarget t'

namespace Node

variable (added : Node → Bool)

/-- The parts that are not put in. -/
def keptParts (n : Node) : List (Option Field × Node) := n.parts.filter fun x => !added x.2

/-- The nodes have parts with the same labels, but for comments that are put into the second. There are no methods in
export clauses. -/
@[mk_iff]
structure SameParts (s s' : Source) (n n' : Node) : Prop where
  kind : n.kind = n'.kind
  name : n.kind = .identifier → s.text n = s'.text n'
  heritage : n.kind = .classHeritage → extendsComponent (s.text n).toList = extendsComponent (s'.text n').toList
  clause : n.kind = .exportClause → ∀ x ∈ n.parts, x.2.kind ≠ .methodDefinition
  comments : ∀ x ∈ n'.parts, added x.2 = true →
    x.1 = none ∧ x.2.kind = .comment ∧ x.2.parts = [] ∧ n'.kind ∈ commentHosts
  length : n.parts.length = (n'.keptParts added).length
  labels : ∀ x ∈ n.parts.zip (n'.keptParts added), x.1.1 = x.2.1
  texts : ∀ x ∈ n.parts.zip (n'.keptParts added), SameText n.kind x.1.1 (s.text x.1.2) (s'.text x.2.2)

/-- The second tree is the first with comments put into arguments, parentheses and export statements. Texts that are
read of nodes are the same. -/
inductive Commented (s s' : Source) : Node → Node → Prop
  | intro {n n' : Node} : SameParts added s s' n n' →
      (∀ x ∈ n.parts.zip (n'.keptParts added), Commented s s' x.1.2 x.2.2) → Commented s s' n n'

end Node

/-! ## Places -/

namespace Place

/-- The children with their labels. -/
def parts (p : Place) : List (Option Field × Place) := p.node.parts.zipIdx.map fun x => (x.1.1, p.down x.2 x.1.2)

theorem children_eq_parts (p : Place) : p.children = p.parts.map Prod.snd := by
  rw [children, parts, Node.children, List.zipIdx_map, List.map_map, List.map_map]
  rfl

theorem mem_children_of_mem_parts {p : Place} {x : Option Field × Place} (h : x ∈ p.parts) : x.2 ∈ p.children := by
  rw [children_eq_parts]
  exact List.mem_map_of_mem h

theorem field?_eq_parts (p : Place) (f : Field) : p.field? f = (p.parts.find? fun x => x.1 == some f).map Prod.snd := by
  rw [field?, parts, List.find?_map, Option.map_map]
  rfl

/-- What a part is in the tree. -/
def part (x : Option Field × Place) : Option Field × Node := (x.1, x.2.node)

theorem map_parts (p : Place) : p.parts.map part = p.node.parts := by
  rw [parts, List.map_map]
  exact List.zipIdx_map_fst 0 p.node.parts

theorem source_of_mem_parts {p : Place} {x : Option Field × Place} (h : x ∈ p.parts) : x.2.source = p.source := by
  obtain ⟨y, _, rfl⟩ := List.mem_map.1 h
  rfl

variable (added : Node → Bool)

def keptParts (p : Place) : List (Option Field × Place) := p.parts.filter fun x => !added x.2.node

theorem map_keptParts (p : Place) : (p.keptParts added).map part = p.node.keptParts added := by
  rw [Node.keptParts, ← map_parts p, List.filter_map]
  rfl

end Place

/-- The places are the same, counted without the nodes that are put in. -/
inductive Kept (added : Node → Bool) (top top' : Place) : Place → Place → Prop
  | top : Kept added top top' top top'
  | part {p p' : Place} {x x' : Option Field × Place} : Kept added top top' p p' →
      (x, x') ∈ p.parts.zip (p'.keptParts added) → Kept added top top' x.2 x'.2

/-- The places are the same, in a tree without and a tree with comments put in. -/
structure Corresponds (added : Node → Bool) (top top' p p' : Place) : Prop where
  kept : Kept added top top' p p'
  commented : Node.Commented added p.source p'.source p.node p'.node

namespace Corresponds

variable {added : Node → Bool} {top top' p p' : Place} (h : Corresponds added top top' p p')

include h

theorem sameParts : Node.SameParts added p.source p'.source p.node p'.node := by
  cases h.commented with
  | intro hs _ => exact hs

theorem kind : p.kind = p'.kind := h.sameParts.kind

theorem isNamed : p.isNamed = p'.isNamed := by
  rw [Place.isNamed, Place.isNamed, Node.isNamed, Node.isNamed, h.sameParts.kind]

theorem text_of_identifier (hk : p.kind = .identifier) : p.text = p'.text := h.sameParts.name hk

/-- Parts that are not put in correspond. -/
theorem parts : List.Forall₂ (fun x x' => x.1 = x'.1 ∧ SameText p.kind x.1 x.2.text x'.2.text ∧
    Corresponds added top top' x.2 x'.2) p.parts (p'.keptParts added) := by
  obtain ⟨hkept, hc⟩ := h
  cases hc with
  | intro hs hparts =>
    have hlength := hs.length
    rw [← Place.map_parts, ← Place.map_keptParts, List.length_map, List.length_map] at hlength
    refine List.forall₂_iff_zip.2 ⟨hlength, ?_⟩
    intro x x' hx
    have hnodes : (Place.part x, Place.part x') ∈ p.node.parts.zip (p'.node.keptParts added) := by
      rw [← Place.map_parts, ← Place.map_keptParts, List.zip_map]
      exact List.mem_map_of_mem hx
    have hsource : x.2.source = p.source := Place.source_of_mem_parts (List.of_mem_zip hx).1
    have hsource' : x'.2.source = p'.source :=
      Place.source_of_mem_parts (List.mem_of_mem_filter (List.of_mem_zip hx).2)
    refine ⟨hs.labels _ hnodes, ?_, .part hkept hx, ?_⟩
    · rw [Place.text, Place.text, hsource, hsource']
      exact hs.texts _ hnodes
    · rw [hsource, hsource']
      exact hparts _ hnodes

/-- What is put in is a comment, in a place for comments. -/
theorem added_part {x : Option Field × Place} (hx : x ∈ p'.parts) (ha : added x.2.node = true) :
    x.1 = none ∧ x.2.kind = .comment ∧ x.2.node.parts = [] ∧ p'.kind ∈ commentHosts := by
  have hnode : Place.part x ∈ p'.node.parts := by
    rw [← Place.map_parts]
    exact List.mem_map_of_mem hx
  exact h.sameParts.comments _ hnode ha

/-- A part with a label is not put in. -/
theorem field? (f : Field) : Option.Rel (fun c c' => SameText p.kind (some f) c.text c'.text ∧
    Corresponds added top top' c c') (p.field? f) (p'.field? f) := by
  have hfind : p'.parts.find? (fun x => x.1 == some f) = (p'.keptParts added).find? fun x => x.1 == some f := by
    rw [← List.head?_filter, ← List.head?_filter, Place.keptParts, List.filter_filter]
    refine congrArg List.head? (List.filter_congr fun x hx => ?_)
    cases ha : added x.2.node with
    | false => simp
    | true => simp [(h.added_part hx ha).1]
  rw [Place.field?_eq_parts, Place.field?_eq_parts, hfind]
  rcases rel_cases (find?_rel h.parts fun x x' hx => congrArg (· == some f) hx.1) with
    ⟨hx, hy⟩ | ⟨x, x', hx, hy, _, ht, hc⟩
  · rw [hx, hy]
    exact .none
  · have hlabel : x.1 = some f := by simpa using List.find?_some hx
    rw [hlabel] at ht
    rw [hx, hy]
    exact .some ⟨ht, hc⟩

theorem part? (f : Field) : Option.Rel (Corresponds added top top') (p.field? f) (p'.field? f) :=
  rel_imp (h.field? f) fun _ _ hc => hc.2

theorem fieldText?_property : p.fieldText? .property = p'.fieldText? .property :=
  map_eq_of_rel (h.field? .property) fun _ _ hc => hc.1.property rfl

theorem fieldText?_name (hk : p.kind ≠ .methodDefinition) : p.fieldText? .name = p'.fieldText? .name :=
  map_eq_of_rel (h.field? .name) fun _ _ hc => hc.1.name rfl hk

/-- Children that are not put in correspond. -/
theorem children : List.Forall₂ (Corresponds added top top') p.children
    (p'.children.filter fun c => !added c.node) := by
  rw [Place.children_eq_parts, Place.children_eq_parts, List.filter_map]
  refine List.forall₂_map_left_iff.2 (List.forall₂_map_right_iff.2 ?_)
  exact h.parts.imp fun _ _ hx => hx.2.2

theorem added_child {c : Place} (hc : c ∈ p'.children) (ha : added c.node = true) :
    c.kind = .comment ∧ c.node.parts = [] ∧ p'.kind ∈ commentHosts := by
  rw [Place.children_eq_parts] at hc
  obtain ⟨x, hx, rfl⟩ := List.mem_map.1 hc
  exact (h.added_part hx ha).2

theorem namedChildren_kept : List.Forall₂ (Corresponds added top top') p.namedChildren
    (p'.namedChildren.filter fun c => !added c.node) := by
  have hcomm : (p'.namedChildren.filter fun c => !added c.node) =
      (p'.children.filter fun c => !added c.node).filter Place.isNamed := by
    rw [Place.namedChildren, List.filter_filter, List.filter_filter]
    exact List.filter_congr fun c _ => Bool.and_comm _ _
  rw [hcomm]
  exact filter_rel h.children fun _ _ hc => hc.isNamed

/-- Where no comments are put, all children correspond. -/
theorem children_of_not_host (hk : p.kind ∉ commentHosts) :
    List.Forall₂ (Corresponds added top top') p.children p'.children := by
  have hall : (p'.children.filter fun c => !added c.node) = p'.children := by
    refine List.filter_eq_self.2 fun c hc => ?_
    cases ha : added c.node with
    | false => rfl
    | true => exact absurd (h.added_child hc ha).2.2 (h.kind ▸ hk)
  have hkept := h.children
  rwa [hall] at hkept

theorem namedChildren (hk : p.kind ∉ commentHosts) :
    List.Forall₂ (Corresponds added top top') p.namedChildren p'.namedChildren :=
  filter_rel (h.children_of_not_host hk) fun _ _ hc => hc.isNamed

/-- The first child that is named corresponds to the first one, unless it is put in. -/
theorem head?_namedChildren (hc : ∀ c, p'.namedChildren.head? = some c → added c.node = false) :
    Option.Rel (Corresponds added top top') p.namedChildren.head? p'.namedChildren.head? := by
  have hhead := head?_rel h.namedChildren_kept
  rwa [head?_filter_eq fun c hm => by simp [hc c hm]] at hhead

/-- The last child that is named corresponds to the last one, unless it is put in. -/
theorem getLast?_namedChildren (hc : ∀ c, p'.namedChildren.getLast? = some c → added c.node = false) :
    Option.Rel (Corresponds added top top') p.namedChildren.getLast? p'.namedChildren.getLast? := by
  have hlast := getLast?_rel h.namedChildren_kept
  rwa [getLast?_filter_eq fun c hm => by simp [hc c hm]] at hlast

/-! ## Values -/

theorem inside? (hc : ∀ c, p'.inside? = some c → added c.node = false) :
    Option.Rel (Corresponds added top top') p.inside? p'.inside? := by
  unfold Place.inside? at hc ⊢
  rw [h.kind]
  split
  all_goals
    next hk =>
      simp only [hk] at hc
      first
        | exact h.head?_namedChildren hc
        | exact h.getLast?_namedChildren hc
        | exact .none

/-- Taking off wrappers ends at a comment that is put in, or at the corresponding value. -/
theorem bare (hc : added p'.bare.node = false) : Corresponds added top top' p.bare p'.bare := by
  fun_induction Place.bare p' generalizing p with
  | case1 p' q' hi ih =>
    have hq : ∀ c, p'.inside? = some c → added c.node = false := by
      intro c hci
      have hmem := Place.mem_children_of_mem_namedChildren (Place.mem_namedChildren_of_inside? hci)
      rw [hi, Option.some.injEq] at hci
      subst hci
      cases ha : added q'.node with
      | false => rfl
      | true =>
        rw [bare_of_comment (h.added_child hmem ha).1, ha] at hc
        cases hc
    rcases rel_cases (h.inside? hq) with ⟨_, hy⟩ | ⟨q, r, hx, hy, hqr⟩
    · rw [hi] at hy
      cases hy
    · rw [hi, Option.some.injEq] at hy
      subst hy
      rw [Place.bare_of_inside? hx]
      exact ih hqr hc
  | case2 p' hi =>
    have hq : ∀ c, p'.inside? = some c → added c.node = false := by
      intro c hci
      rw [hi] at hci
      cases hci
    rcases rel_cases (h.inside? hq) with ⟨hx, _⟩ | ⟨q, r, _, hy, _⟩
    · rwa [Place.bare_of_inside?_eq_none hx]
    · rw [hi] at hy
      cases hy

theorem calledName? : p.calledName? = p'.calledName? := by
  unfold Place.calledName?
  rw [h.kind]
  split
  · next hk => rw [h.text_of_identifier (h.kind.trans hk)]
  · exact h.fieldText?_property
  · rfl

theorem callName? : callName? p = callName? p' := by
  unfold ReactCatalog.callName?
  rw [h.kind, h.fieldText?_property]
  split
  · next hk => rw [h.text_of_identifier (h.kind.trans hk)]
  · rfl
  · rfl
  · rfl

omit h in
/-- What is put in does not matter where nothing is found in it. -/
theorem any_kept {f g : Place → Bool} {ps ps' : List Place}
    (hrel : List.Forall₂ (Corresponds added top top') ps (ps'.filter fun c => !added c.node))
    (hf : ∀ c c', c ∈ ps → Corresponds added top top' c c' → f c = g c')
    (hg : ∀ c ∈ ps', added c.node = true → g c = false) : ps.any f = ps'.any g := by
  have hkept : (ps'.filter fun c => !added c.node).any g = ps'.any g := by
    rw [Bool.eq_iff_iff, List.any_eq_true, List.any_eq_true]
    constructor
    · rintro ⟨c, hc, hfound⟩
      exact ⟨c, List.mem_of_mem_filter hc, hfound⟩
    · rintro ⟨c, hc, hfound⟩
      refine ⟨c, List.mem_filter.2 ⟨hc, ?_⟩, hfound⟩
      cases ha : added c.node with
      | false => rfl
      | true =>
        rw [hg c hc ha] at hfound
        cases hfound
  rw [← hkept]
  exact any_eq_of_rel (rel_mem hrel) fun c c' hc => hf c c' hc.1 hc.2

/-- Comments make no elements. -/
theorem rendersElements : p.rendersElements = p'.rendersElements := by
  induction hn : sizeOf p.node using Nat.strongRecOn generalizing p p' with
  | ind n ih =>
    subst hn
    have hname : (p.field? .function).bind Place.calledName? = (p'.field? .function).bind Place.calledName? :=
      bind_eq_of_rel (h.part? .function) fun _ _ hf => hf.calledName?
    have hchildren : p.children.any Place.rendersElements = p'.children.any Place.rendersElements := by
      refine any_kept h.children (fun c c' hc hm => ?_) fun c hc ha => ?_
      · exact ih _ (Place.sizeOf_node_lt_of_mem_children hc) hm rfl
      · obtain ⟨hk, hleaf, _⟩ := h.added_child hc ha
        have hnone : c.children = [] := by simp [Place.children, Node.children, hleaf]
        rw [Place.rendersElements, List.any_subtype (g := Place.rendersElements) fun _ _ => rfl,
          List.unattach_attach, hk, hnone]
        rfl
    rw [Place.rendersElements, Place.rendersElements, List.any_subtype (g := Place.rendersElements) fun _ _ => rfl,
      List.any_subtype (g := Place.rendersElements) fun _ _ => rfl, List.unattach_attach, List.unattach_attach,
      h.kind, hname, hchildren]

/-- Comments are neither heritages nor methods. -/
theorem isComponentClass : p.isComponentClass = p'.isComponentClass := by
  have hheritage : (p.children.any fun c => c.kind == .classHeritage && extendsComponent c.text.toList) =
      p'.children.any fun c => c.kind == .classHeritage && extendsComponent c.text.toList := by
    refine any_kept h.children (fun c c' _ hc => ?_) fun c hc ha => by simp [(h.added_child hc ha).1]
    rw [hc.kind]
    by_cases hk : c'.kind = .classHeritage
    · have htext : extendsComponent c.text.toList = extendsComponent c'.text.toList :=
        hc.sameParts.heritage (hc.kind.trans hk)
      rw [htext]
    · rw [beq_false_of_ne hk, Bool.false_and, Bool.false_and]
  have hrender : ∀ m m', Corresponds added top top' m m' →
      (m.fieldText? .name == some "render") = (m'.fieldText? .name == some "render") := by
    intro m m' hm
    unfold Place.fieldText?
    rcases rel_cases (hm.field? .name) with ⟨hx, hy⟩ | ⟨c, c', hx, hy, ht, _⟩
    · rw [hx, hy]
    · rw [hx, hy]
      exact ht.method rfl
  unfold Place.isComponentClass
  rw [hheritage, map_eq_of_rel (h.part? .body) fun b b' hb => ?_]
  refine any_kept hb.namedChildren_kept (fun m m' _ hm => by rw [hm.kind, hrender m m' hm]) fun c hc ha => ?_
  simp [(hb.added_child (Place.mem_children_of_mem_namedChildren hc) ha).1]

end Corresponds

/-! ## Different places correspond to different ones -/

theorem Place.down_injective {p q : Place} {i j : Nat} {c d : Node} (h : p.down i c = q.down j d) : p = q := by
  obtain ⟨s, n, up⟩ := p
  obtain ⟨s', n', up'⟩ := q
  simp only [Place.down, Place.mk.injEq, List.cons.injEq, Prod.mk.injEq] at h
  obtain ⟨rfl, _, ⟨rfl, _⟩, rfl⟩ := h
  rfl

theorem Place.parent_unique {p q c : Place} (hp : c ∈ p.children) (hq : c ∈ q.children) : p = q := by
  obtain ⟨_, _, rfl⟩ := List.mem_map.1 hp
  obtain ⟨_, _, h⟩ := List.mem_map.1 hq
  exact (Place.down_injective h).symm

theorem Place.nodup_children (p : Place) : p.children.Nodup := by
  have hpaths : p.children.map Place.path = (List.range' 0 p.node.children.length).map (· :: p.path) := by
    rw [children, List.map_map, ← List.zipIdx_map_snd 0 p.node.children, List.map_map]
    rfl
  refine List.Nodup.of_map Place.path ?_
  rw [hpaths]
  exact List.Nodup.map (fun i j hij => (List.cons.inj hij).1) List.nodup_range'

/-- Pairs of two lists without repetitions share both members or none. -/
theorem zip_unique {α β : Type} {l : List α} {l' : List β} (hl : l.Nodup) (hl' : l'.Nodup) {a b : α} {a' b' : β}
    (ha : (a, a') ∈ l.zip l') (hb : (b, b') ∈ l.zip l') : a = b ↔ a' = b' := by
  obtain ⟨i, hi⟩ := List.mem_iff_getElem?.1 ha
  obtain ⟨j, hj⟩ := List.mem_iff_getElem?.1 hb
  rw [List.getElem?_zip_eq_some] at hi hj
  constructor
  · rintro rfl
    obtain ⟨hlt, _⟩ := List.getElem?_eq_some_iff.1 hi.1
    have hij : i = j := (List.getElem?_inj hlt hl).1 (hi.1.trans hj.1.symm)
    subst hij
    exact Option.some.inj (hi.2.symm.trans hj.2)
  · rintro rfl
    obtain ⟨hlt, _⟩ := List.getElem?_eq_some_iff.1 hi.2
    have hij : i = j := (List.getElem?_inj hlt hl').1 (hi.2.trans hj.2.symm)
    subst hij
    exact Option.some.inj (hi.1.symm.trans hj.1)

namespace Kept

variable {added : Node → Bool} {top top' p p' q q' : Place}

theorem within (h : Kept added top top' p p') : Within top p ∧ Within top' p' := by
  induction h with
  | top => exact ⟨.top, .top⟩
  | @part p p' x x' _ hx ih =>
    obtain ⟨hm, hm'⟩ := List.of_mem_zip hx
    have hc' : x'.2 ∈ p'.children := Place.mem_children_of_mem_parts (List.mem_of_mem_filter hm')
    exact ⟨.child ih.1 (Place.mem_children_of_mem_parts hm), .child ih.2 hc'⟩

/-- Of two places that are the same without comments, one is the top of its tree only if the other is. -/
theorem part_ne_top {x x' : Option Field × Place} (h : Kept added top top' p p')
    (hx : (x, x') ∈ p.parts.zip (p'.keptParts added)) : x.2 ≠ top ∧ x'.2 ≠ top' := by
  have hlonger : ∀ {top p : Place} {x : Option Field × Place}, Within top p → x ∈ p.parts → x.2 ≠ top := by
    rintro top p x hw hx rfl
    obtain ⟨y, _, rfl⟩ := List.mem_map.1 hx
    have hle := hw.length_path_le
    rw [Place.path_down, List.length_cons] at hle
    omega
  obtain ⟨hm, hm'⟩ := List.of_mem_zip hx
  exact ⟨hlonger h.within.1 hm, hlonger h.within.2 (List.mem_of_mem_filter hm')⟩

/-- A place is the same as one other at most. -/
theorem unique (hp : Kept added top top' p p') (hq : Kept added top top' q q') : p = q ↔ p' = q' := by
  induction hp generalizing q q' with
  | top =>
    cases hq with
    | top => exact ⟨fun _ => rfl, fun _ => rfl⟩
    | part hq hy =>
      obtain ⟨hne, hne'⟩ := hq.part_ne_top hy
      exact ⟨fun h => absurd h.symm hne, fun h => absurd h.symm hne'⟩
  | @part p p' x x' hp hx ih =>
    cases hq with
    | top =>
      obtain ⟨hne, hne'⟩ := hp.part_ne_top hx
      exact ⟨fun h => absurd h hne, fun h => absurd h hne'⟩
    | @part q q' y y' hq hy =>
      have hparts : ∀ {z z' : Option Field × Place} {r r' : Place}, (z, z') ∈ r.parts.zip (r'.keptParts added) →
          z.2 ∈ r.children ∧ z'.2 ∈ r'.children := fun hz =>
        ⟨Place.mem_children_of_mem_parts (List.of_mem_zip hz).1,
          Place.mem_children_of_mem_parts (List.mem_of_mem_filter (List.of_mem_zip hz).2)⟩
      -- parts that are equal have equal parents, and so do those that correspond to them
      have hparents : x.2 = y.2 ∨ x'.2 = y'.2 → p = q ∧ p' = q' := by
        rintro (h | h)
        · have hpq := Place.parent_unique (hparts hx).1 (h ▸ (hparts hy).1)
          exact ⟨hpq, (ih hq).1 hpq⟩
        · have hpq := Place.parent_unique (hparts hx).2 (h ▸ (hparts hy).2)
          exact ⟨(ih hq).2 hpq, hpq⟩
      have hsame : p = q ∧ p' = q' → (x.2 = y.2 ↔ x'.2 = y'.2) := by
        rintro ⟨rfl, rfl⟩
        have hnodup : (p.parts.map Prod.snd).Nodup := p.children_eq_parts ▸ p.nodup_children
        have hnodup' : ((p'.keptParts added).map Prod.snd).Nodup :=
          (p'.children_eq_parts ▸ p'.nodup_children).sublist (List.filter_sublist.map Prod.snd)
        refine zip_unique hnodup hnodup' ?_ ?_
        · rw [List.zip_map]
          exact List.mem_map_of_mem hx
        · rw [List.zip_map]
          exact List.mem_map_of_mem hy
      exact ⟨fun h => (hsame (hparents (.inl h))).1 h, fun h => (hsame (hparents (.inr h))).2 h⟩

end Kept

theorem corresponds_keepsPaths (added : Node → Bool) (top top' : Place) : KeepsPaths (Corresponds added top top') := by
  intro p p' q q' hp hq
  obtain ⟨hwp, hwp'⟩ := hp.kept.within
  obtain ⟨hwq, hwq'⟩ := hq.kept.within
  constructor
  · intro h
    rw [(hp.kept.unique hq.kept).1 (hwp.eq_of_path hwq h)]
  · intro h
    rw [(hp.kept.unique hq.kept).2 (hwp'.eq_of_path hwq' h)]

end ReactCatalog
