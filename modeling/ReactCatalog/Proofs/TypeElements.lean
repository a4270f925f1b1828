import ReactCatalog.Proofs.RequiredMarks

/-!
# The elements of a type

A union is described by its leaves, the types below it with nothing but unions on the way down to them, in the order of
the text (`Place.leaves`, `alternatives_eq_map_leaves`). How the unions are nested does not matter. A type with
arguments is described by them, one for one. Both hold of the types inside a type as well, so a description mirrors
what it describes at every depth (`Describes`, `describes_iff`).

A comment between the types of a union or between arguments is a place like any other, and is described as if it were
a type (`comment_among_elements`). What is said above holds with comments counted, and with comments left out where
none is in the way (`ClearType`).
-/

namespace ReactCatalog

/-! ## Leaves of a union -/

namespace Place

/-- Named, and no comment. -/
def isProper (p : Place) : Bool := p.isNamed && p.kind != .comment

/-- The nodes above a place up to one that it is below, nearest first. -/
def between (p q : Place) : List Node := (q.above.take (q.above.length - p.above.length)).map Prod.fst

/-- The types that a union is made of: those below it that are no unions, with nothing but unions on the way. What is no
union is its own leaf. -/
def leaves (counts : Place → Bool) (p : Place) : List Place :=
  p.preorder.filter fun q => counts q && q.kind != .unionType && (p.between q).all fun n => n.kind == .unionType

variable {counts : Place → Bool} {p q c : Place}

theorem within_of_child (hc : c ∈ p.children) (h : Within c q) : Within p q := by
  induction h with
  | top => exact .child .top hc
  | child _ hd ih => exact .child ih hd

theorem within_of_mem_preorder (h : q ∈ p.preorder) : Within p q := by
  induction hn : sizeOf p.node using Nat.strongRecOn generalizing p with
  | ind n ih =>
    subst hn
    rw [preorder_eq] at h
    rcases List.mem_cons.1 h with rfl | h
    · exact .top
    · obtain ⟨c, hc, h⟩ := List.mem_flatMap.1 h
      exact within_of_child hc (ih _ (sizeOf_node_lt_of_mem_children hc) h rfl)

/-- What is above a place ends with what is above the one it is below. -/
theorem exists_above_of_within (h : Within p q) : ∃ way, q.above = way ++ p.above := by
  induction h with
  | top => exact ⟨[], rfl⟩
  | @child d c _ hc ih =>
    obtain ⟨way, hway⟩ := ih
    obtain ⟨i, n, _, rfl⟩ := mem_children_iff.1 hc
    exact ⟨(d.node, i) :: way, congrArg ((d.node, i) :: ·) hway⟩

theorem between_self (p : Place) : p.between p = [] := by
  rw [between, Nat.sub_self]
  rfl

theorem between_child (hc : c ∈ p.children) (hq : q ∈ c.preorder) : p.between q = c.between q ++ [p.node] := by
  obtain ⟨way, hway⟩ := exists_above_of_within (within_of_mem_preorder hq)
  obtain ⟨i, n, _, rfl⟩ := mem_children_iff.1 hc
  have habove : (p.down i n).above = (p.node, i) :: p.above := rfl
  have hlong : q.above = (way ++ [(p.node, i)]) ++ p.above := by rw [hway, habove, List.append_assoc]; rfl
  have hp : p.between q = (way ++ [(p.node, i)]).map Prod.fst := by
    rw [between, hlong, List.length_append, Nat.add_sub_cancel, List.take_left]
  have hc' : (p.down i n).between q = way.map Prod.fst := by
    rw [between, hway, List.length_append, Nat.add_sub_cancel, List.take_left]
  rw [hp, hc', List.map_append]
  rfl

/-- The leaves of a union are those of its children. -/
theorem leaves_of_union (hk : p.kind = .unionType) : p.leaves counts = p.children.flatMap (leaves counts) := by
  rw [leaves, preorder_eq, List.filter_cons_of_neg (by simp [hk]), List.filter_flatMap]
  refine List.flatMap_congr fun c hc => List.filter_congr fun q hq => ?_
  have hp : (p.node.kind == .unionType) = true := beq_iff_eq.2 hk
  rw [between_child hc hq, List.all_append, List.all_cons, List.all_nil, hp, Bool.and_true, Bool.and_true]

theorem leaves_of_other (hk : p.kind ≠ .unionType) : p.leaves counts = [p].filter counts := by
  have hbelow : (p.children.flatMap preorder).filter (fun q =>
      counts q && q.kind != .unionType && (p.between q).all fun n => n.kind == .unionType) = [] := by
    refine List.filter_eq_nil_iff.2 fun q hq => ?_
    obtain ⟨c, hc, hq⟩ := List.mem_flatMap.1 hq
    have hp : (p.node.kind == .unionType) = false := beq_eq_false_iff_ne.2 hk
    rw [between_child hc hq, List.all_append, List.all_cons, hp, Bool.false_and, Bool.and_false, Bool.and_false]
    exact Bool.false_ne_true
  have hself : (p.kind != .unionType) = true := bne_iff_ne.2 hk
  rw [leaves, preorder_eq, List.filter_cons, List.filter_cons, hbelow, between_self, hself, List.all_nil,
    Bool.and_true, Bool.and_true, List.filter_nil]

theorem sizeOf_node_lt_of_within (h : Within p q) : q = p ∨ sizeOf q.node < sizeOf p.node := by
  induction h with
  | top => exact .inl rfl
  | child _ hc ih =>
    have hlt := sizeOf_node_lt_of_mem_children hc
    rcases ih with rfl | ih
    · exact .inr hlt
    · exact .inr (hlt.trans ih)

theorem sizeOf_node_lt_of_mem_leaves (hk : p.kind = .unionType) (h : q ∈ p.leaves counts) :
    sizeOf q.node < sizeOf p.node := by
  obtain ⟨hq, hleaf⟩ := List.mem_filter.1 h
  refine (sizeOf_node_lt_of_within (within_of_mem_preorder hq)).resolve_left ?_
  rintro rfl
  simp [hk] at hleaf

theorem filter_isProper (p : Place) : p.children.filter isProper = p.properChildren := by
  rw [properChildren, namedChildren, List.filter_filter]
  exact List.filter_congr fun c _ => Bool.and_comm ..

/-- To leave comments out is to take them out of what is there. -/
theorem leaves_isProper (p : Place) :
    p.leaves isProper = (p.leaves isNamed).filter fun q => q.kind != .comment := by
  rw [leaves, leaves, List.filter_filter]
  refine List.filter_congr fun q _ => ?_
  unfold isProper
  cases q.isNamed <;> cases q.kind != .comment <;> simp

end Place

theorem flatMap_filter_eq {α β : Type} {l : List α} {f : α → List β} {keep : α → Bool}
    (h : ∀ a ∈ l, keep a = false → f a = []) : (l.filter keep).flatMap f = l.flatMap f := by
  induction l with
  | nil => rfl
  | cons a l ih =>
    obtain ⟨ha, hl⟩ := List.forall_mem_cons.1 h
    rw [List.filter_cons, List.flatMap_cons, ← ih hl]
    split
    · rfl
    · next hkeep => rw [ha (Bool.eq_false_of_not_eq_true hkeep), List.nil_append]

/-- The alternatives of a union are its leaves, described one for one. -/
theorem alternatives_eq_map_leaves {p : Place} (hk : p.kind = .unionType) :
    alternatives p = (p.leaves Place.isNamed).map annotatedType := by
  induction hn : sizeOf p.node using Nat.strongRecOn generalizing p with
  | ind n ih =>
    subst hn
    have hskipped : ∀ c ∈ p.children, c.isNamed = false → c.leaves Place.isNamed = [] := by
      intro c _ hc
      have hother : c.kind ≠ .unionType := fun hu => by
        have hnamed : c.isNamed = Kind.isNamed .unionType := congrArg Kind.isNamed hu
        exact Bool.noConfusion (hc.symm.trans hnamed)
      rw [Place.leaves_of_other hother, List.filter_cons_of_neg (by simp [hc]), List.filter_nil]
    rw [alternatives_flatMap, Place.leaves_of_union hk, ← flatMap_filter_eq hskipped, List.map_flatMap]
    refine List.flatMap_congr fun c hc => ?_
    by_cases hu : c.kind = .unionType
    · rw [if_pos hu, ih _ (Place.sizeOf_node_lt_of_mem_namedChildren hc) hu rfl]
    · rw [if_neg hu, Place.leaves_of_other hu, List.filter_cons_of_pos (List.mem_filter.1 hc).2]
      rfl

/-! ## Types inside a type -/

/-- The type in parentheses, or behind a colon. -/
def wrappedType? (counts : Place → Bool) (p : Place) : Option Place :=
  if p.kind = .typeNote ∨ p.kind = .parenthesizedType then (p.children.filter counts).head? else none

/-- The arguments of a type, in their order. -/
def argumentTypes (counts : Place → Bool) (p : Place) : List Place :=
  ((p.field? .typeArguments).map fun a => a.children.filter counts).getD []

/-- The types that a type is made of, if it is a composite one. -/
def elementTypes? (counts : Place → Bool) (p : Place) : Option (List Place) :=
  match p.kind with
  | .unionType => some (p.leaves counts)
  | .arrayType => some (p.children.filter counts).head?.toList
  | .genericType => some (argumentTypes counts p)
  | _ => none

/-- What a composite type is called. -/
def compositeName (p : Place) : String :=
  match p.kind with
  | .unionType => "union"
  | .arrayType => "Array"
  | _ => (p.fieldText? .name).getD p.text

/-- What is said of a type that no other is looked at for. -/
def plainType (p : Place) : TypeDoc :=
  match p.kind with
  | .literalType => .mk "literal" (some (.string p.text)) none none
  | .functionType => .mk "signature" (some (.string "function")) (some p.text) none
  | .objectType => .mk "signature" (some (.string "object")) (some p.text) none
  | _ => .named p.text

/-- A description mirrors a type: it is that of the type in parentheses; or it has an element for each type that a
composite one is made of, in the same order, which mirrors that type; or there is nothing inside. -/
inductive Describes (counts : Place → Bool) : Place → TypeDoc → Prop
  | wrapped {p q : Place} {t : TypeDoc} (hi : wrappedType? counts p = some q) (h : Describes counts q t) :
      Describes counts p t
  | elements {p : Place} {ps : List Place} {es : List TypeDoc} (he : elementTypes? counts p = some ps)
      (hlength : ps.length = es.length) (h : ∀ x ∈ ps.zip es, Describes counts x.1 x.2) :
      Describes counts p (.mk (compositeName p) none (some p.text) (some es))
  | plain {p : Place} (hi : wrappedType? counts p = none) (he : elementTypes? counts p = none) :
      Describes counts p (plainType p)

section

variable {counts : Place → Bool} {p q : Place} {ps : List Place}

theorem head?_of_wrappedType? (hi : wrappedType? counts p = some q) :
    (p.kind = .typeNote ∨ p.kind = .parenthesizedType) ∧ (p.children.filter counts).head? = some q := by
  unfold wrappedType? at hi
  split at hi
  · next hk => exact ⟨hk, hi⟩
  · cases hi

theorem elementTypes?_cases (he : elementTypes? counts p = some ps) :
    p.kind = .unionType ∧ ps = p.leaves counts ∨
      p.kind = .arrayType ∧ ps = (p.children.filter counts).head?.toList ∨
      p.kind = .genericType ∧ ps = argumentTypes counts p := by
  unfold elementTypes? at he
  split at he
  · next hk => exact .inl ⟨hk, (Option.some.inj he).symm⟩
  · next hk => exact .inr (.inl ⟨hk, (Option.some.inj he).symm⟩)
  · next hk => exact .inr (.inr ⟨hk, (Option.some.inj he).symm⟩)
  · cases he

theorem annotatedType_of_wrapped (hi : wrappedType? Place.isNamed p = some q) : annotatedType p = annotatedType q := by
  obtain ⟨hk, hhead⟩ := head?_of_wrappedType? hi
  have hnamed : p.namedChildren.head? = some q := hhead
  rw [annotatedType_eq, hnamed]
  rcases hk with hk | hk <;> rw [hk] <;> rfl

theorem annotatedType_of_elements (he : elementTypes? Place.isNamed p = some ps) :
    annotatedType p = .mk (compositeName p) none (some p.text) (some (ps.map annotatedType)) := by
  rw [annotatedType_eq, compositeName]
  rcases elementTypes?_cases he with ⟨hk, rfl⟩ | ⟨hk, rfl⟩ | ⟨hk, rfl⟩
  · rw [hk, alternatives_eq_map_leaves hk]
    rfl
  · rw [hk, Option.toList_map]
    rfl
  · have harguments : ((p.field? .typeArguments).map fun a => a.namedChildren.map annotatedType).getD [] =
        (argumentTypes Place.isNamed p).map annotatedType := by
      unfold argumentTypes
      cases p.field? .typeArguments <;> rfl
    rw [hk, harguments]
    rfl

theorem annotatedType_of_neither (hi : wrappedType? Place.isNamed p = none)
    (he : elementTypes? Place.isNamed p = none) : annotatedType p = plainType p := by
  have hhead : p.kind = .typeNote ∨ p.kind = .parenthesizedType → p.namedChildren.head? = none :=
    fun hk => (if_pos hk).symm.trans hi
  rw [annotatedType_eq, plainType]
  unfold elementTypes? at he
  generalize p.kind = k at *
  split
  · rw [hhead (.inl rfl)]
    rfl
  · rw [hhead (.inr rfl)]
    rfl
  · rfl
  · cases he
  · cases he
  · cases he
  · rfl
  · rfl
  · split <;> first | rfl | contradiction

theorem elementTypes?_of_union (hk : p.kind = .unionType) : elementTypes? counts p = some (p.leaves counts) := by
  unfold elementTypes?
  rw [hk]

theorem elementTypes?_of_array (hk : p.kind = .arrayType) :
    elementTypes? counts p = some (p.children.filter counts).head?.toList := by
  unfold elementTypes?
  rw [hk]

theorem elementTypes?_of_generic (hk : p.kind = .genericType) :
    elementTypes? counts p = some (argumentTypes counts p) := by
  unfold elementTypes?
  rw [hk]

end

/-! ## Comments among types -/

/-- The types that are looked at right inside a type, with comments counted. -/
def typesIn (p : Place) : List Place :=
  (wrappedType? Place.isNamed p).toList ++ (elementTypes? Place.isNamed p).getD []

section

variable {p q c : Place} {ps : List Place}

theorem mem_typesIn_of_wrapped (hi : wrappedType? Place.isNamed p = some q) : q ∈ typesIn p := by
  rw [typesIn, hi]
  exact List.mem_cons_self

theorem mem_typesIn_of_elements (he : elementTypes? Place.isNamed p = some ps) (hq : q ∈ ps) : q ∈ typesIn p := by
  rw [typesIn, he]
  exact List.mem_append_right _ hq

theorem sizeOf_node_lt_of_mem_typesIn (h : q ∈ typesIn p) : sizeOf q.node < sizeOf p.node := by
  rcases List.mem_append.1 h with h | h
  · obtain ⟨_, hhead⟩ := head?_of_wrappedType? (Option.mem_toList.1 h)
    exact Place.sizeOf_node_lt_of_mem_namedChildren (List.mem_of_head? hhead)
  · cases he : elementTypes? Place.isNamed p with
    | none => simp [he] at h
    | some ps =>
      rw [he, Option.getD_some] at h
      rcases elementTypes?_cases he with ⟨hk, rfl⟩ | ⟨hk, rfl⟩ | ⟨hk, rfl⟩
      · exact Place.sizeOf_node_lt_of_mem_leaves hk h
      · exact Place.sizeOf_node_lt_of_mem_namedChildren (List.mem_of_head? (Option.mem_toList.1 h))
      · unfold argumentTypes at h
        cases ha : p.field? .typeArguments with
        | none => simp [ha] at h
        | some a =>
          rw [ha] at h
          have hlt := Place.sizeOf_node_lt_of_mem_namedChildren h
          exact hlt.trans (Place.sizeOf_node_lt_of_field? ha)

end

/-- A type and those inside it, at every depth. -/
def typePlaces (p : Place) : List Place := p :: (typesIn p).attach.flatMap fun ⟨q, _⟩ => typePlaces q
termination_by sizeOf p.node
decreasing_by exact sizeOf_node_lt_of_mem_typesIn ‹_›

/-- At no depth a comment is where a type should be. -/
def ClearType (p : Place) : Prop := ∀ q ∈ typePlaces p, ∀ c ∈ typesIn q, c.kind ≠ .comment

instance (p : Place) : Decidable (ClearType p) :=
  inferInstanceAs (Decidable (∀ q ∈ typePlaces p, ∀ c ∈ typesIn q, c.kind ≠ .comment))

namespace ClearType

variable {p q c : Place}

theorem ne_comment (h : ClearType p) (hc : c ∈ typesIn p) : c.kind ≠ .comment := by
  refine h p ?_ c hc
  rw [typePlaces]
  exact List.mem_cons_self

theorem inside (h : ClearType p) (hq : q ∈ typesIn p) : ClearType q := by
  intro e he
  refine h e ?_
  rw [typePlaces, List.flatMap_subtype (g := typePlaces) fun _ _ => rfl, List.unattach_attach]
  exact List.mem_cons_of_mem _ (List.mem_flatMap.2 ⟨q, hq, he⟩)

theorem wrappedType?_eq (h : ClearType p) : wrappedType? Place.isProper p = wrappedType? Place.isNamed p := by
  unfold wrappedType?
  split
  · next hk =>
    rw [Place.filter_isProper]
    exact head?_properChildren fun q hq => h.ne_comment (mem_typesIn_of_wrapped ((if_pos hk).trans hq))
  · rfl

theorem elementTypes?_eq (h : ClearType p) : elementTypes? Place.isProper p = elementTypes? Place.isNamed p := by
  have hproper : ∀ {ps}, elementTypes? Place.isNamed p = some ps → ∀ c ∈ ps, c.kind ≠ .comment :=
    fun he c hc => h.ne_comment (mem_typesIn_of_elements he hc)
  cases he : elementTypes? Place.isNamed p with
  | none =>
    unfold elementTypes? at he ⊢
    generalize p.kind = k at *
    split at he
    · cases he
    · cases he
    · cases he
    · rfl
  | some ps =>
    rcases elementTypes?_cases he with ⟨hk, rfl⟩ | ⟨hk, rfl⟩ | ⟨hk, rfl⟩
    · rw [elementTypes?_of_union hk, Place.leaves_isProper,
        List.filter_eq_self.2 fun c hc => bne_iff_ne.2 (hproper he c hc)]
    · rw [elementTypes?_of_array hk, Place.filter_isProper]
      refine congrArg (fun x : Option Place => some x.toList) (head?_properChildren fun q hq => ?_)
      exact hproper he q (Option.mem_toList.2 hq)
    · rw [elementTypes?_of_generic hk]
      unfold argumentTypes at hproper he ⊢
      cases ha : p.field? .typeArguments with
      | none => rfl
      | some a =>
        rw [ha] at he
        have hargs : ∀ c ∈ a.namedChildren, c.kind ≠ .comment := hproper he
        rw [Option.map_some, Option.map_some, Option.getD_some, Option.getD_some,
          Place.filter_isProper]
        exact congrArg some (List.filter_eq_self.2 fun c hc => bne_iff_ne.2 (hargs c hc))

end ClearType

/-- A type is read with comments counted, or with comments left out where none is in the way. -/
def ReadsTypes (counts : Place → Bool) (p : Place) : Prop :=
  counts = Place.isNamed ∨ counts = Place.isProper ∧ ClearType p

namespace ReadsTypes

variable {counts : Place → Bool} {p q : Place}

theorem inside (h : ReadsTypes counts p) (hq : q ∈ typesIn p) : ReadsTypes counts q := by
  rcases h with rfl | ⟨rfl, h⟩
  · exact .inl rfl
  · exact .inr ⟨rfl, h.inside hq⟩

theorem wrappedType?_eq (h : ReadsTypes counts p) : wrappedType? counts p = wrappedType? Place.isNamed p := by
  rcases h with rfl | ⟨rfl, h⟩
  · rfl
  · exact h.wrappedType?_eq

theorem elementTypes?_eq (h : ReadsTypes counts p) : elementTypes? counts p = elementTypes? Place.isNamed p := by
  rcases h with rfl | ⟨rfl, h⟩
  · rfl
  · exact h.elementTypes?_eq

/-- A composite type is described by what it is made of, however it is read. -/
theorem annotatedType_eq_mk (h : ReadsTypes counts p) {ps : List Place} (he : elementTypes? counts p = some ps) :
    annotatedType p = .mk (compositeName p) none (some p.text) (some (ps.map annotatedType)) :=
  annotatedType_of_elements (h.elementTypes?_eq.symm.trans he)

end ReadsTypes

theorem describes_iff {counts : Place → Bool} {p : Place} (h : ReadsTypes counts p) {t : TypeDoc} :
    Describes counts p t ↔ t = annotatedType p := by
  induction hn : sizeOf p.node using Nat.strongRecOn generalizing p t with
  | ind n ih =>
    subst hn
    have hinside : ∀ q ∈ typesIn p, ∀ {e}, Describes counts q e ↔ e = annotatedType q :=
      fun q hq e => ih _ (sizeOf_node_lt_of_mem_typesIn hq) (h.inside hq) rfl
    constructor
    · intro hd
      cases hd with
      | wrapped hi hq =>
        rw [h.wrappedType?_eq] at hi
        rw [annotatedType_of_wrapped hi]
        exact (hinside _ (mem_typesIn_of_wrapped hi)).1 hq
      | @elements _ ps es he hlength hes =>
        rw [h.elementTypes?_eq] at he
        have hall : List.Forall₂ (fun q e => annotatedType q = e) ps es := by
          refine List.forall₂_iff_zip.2 ⟨hlength, fun {q e} hx => ?_⟩
          exact ((hinside q (mem_typesIn_of_elements he (List.of_mem_zip hx).1)).1 (hes _ hx)).symm
        have hmap : ps.map annotatedType = es := List.forall₂_eq_eq_eq ▸ List.forall₂_map_left_iff.2 hall
        rw [annotatedType_of_elements he, hmap]
      | plain hi he =>
        rw [h.wrappedType?_eq] at hi
        rw [h.elementTypes?_eq] at he
        exact (annotatedType_of_neither hi he).symm
    · rintro rfl
      cases hi : wrappedType? Place.isNamed p with
      | some q =>
        rw [annotatedType_of_wrapped hi]
        exact .wrapped (h.wrappedType?_eq.trans hi) ((hinside q (mem_typesIn_of_wrapped hi)).2 rfl)
      | none =>
        cases he : elementTypes? Place.isNamed p with
        | some ps =>
          have hall : List.Forall₂ (Describes counts) ps (ps.map annotatedType) :=
            List.forall₂_map_right_iff.2 (List.forall₂_same.2 fun q hq =>
              (hinside q (mem_typesIn_of_elements he hq)).2 rfl)
          obtain ⟨hlength, hzip⟩ := List.forall₂_iff_zip.1 hall
          rw [annotatedType_of_elements he]
          exact .elements (h.elementTypes?_eq.trans he) hlength fun x hx => hzip hx
        | none =>
          rw [annotatedType_of_neither hi he]
          exact .plain (h.wrappedType?_eq.trans hi) (h.elementTypes?_eq.trans he)

/-- The elements of a description, if it has any. -/
def TypeDoc.elements? : TypeDoc → Option (List TypeDoc)
  | .mk _ _ _ es => es

/-- A type has one description that mirrors it at every depth, and this is what is said of it. That of a union lists its
leaves and that of a type with arguments lists these, one for one and in the order of the text. Unions whose leaves read
alike have the same elements, however they are nested. -/
theorem type_elements_in_order {counts : Place → Bool} {p : Place} (hp : ReadsTypes counts p) :
    (∀ t, Describes counts p t ↔ t = annotatedType p) ∧
    (p.kind = .unionType →
      annotatedType p = .mk "union" none (some p.text) (some ((p.leaves counts).map annotatedType)) ∧
      ∀ q, ReadsTypes counts q → q.kind = .unionType →
        List.Forall₂ Place.ReadsLike (p.leaves counts) (q.leaves counts) →
        (annotatedType p).elements? = (annotatedType q).elements?) ∧
    (p.kind = .genericType →
      annotatedType p = .mk ((p.fieldText? .name).getD p.text) none (some p.text)
        (some ((argumentTypes counts p).map annotatedType))) := by
  have hunion : ∀ q, ReadsTypes counts q → q.kind = .unionType →
      annotatedType q = .mk "union" none (some q.text) (some ((q.leaves counts).map annotatedType)) := by
    intro q hq hk
    rw [hq.annotatedType_eq_mk (elementTypes?_of_union hk), compositeName, hk]
  refine ⟨fun t => describes_iff hp, fun hk => ⟨hunion p hp hk, fun q hq hqk hlike => ?_⟩, fun hk => ?_⟩
  · rw [hunion p hp hk, hunion q hq hqk]
    exact congrArg some (map_eq_of_rel_list hlike fun _ _ h => (likeness_readsLike.annotations h).1)
  · rw [hp.annotatedType_eq_mk (elementTypes?_of_generic hk), compositeName, hk]

def alternativesText : String := "a | b | Map<c, (d | e)[]>"

/-- A type that is a name of one character. -/
def shortTypeNode (start : Nat) : Node := .mk .typeIdentifier ⟨start, start + 1⟩ none []

def unionNode (start stop : Nat) (members : List Node) : Node :=
  .mk .unionType ⟨start, stop⟩ none (members.map (none, ·))

/-- The last alternative, which has a union of its own two types further in. -/
def mapNode : Node :=
  .mk .genericType ⟨8, 25⟩ none [
    (some .name, .mk .typeIdentifier ⟨8, 11⟩ none []),
    (some .typeArguments, .mk .typeArguments ⟨11, 25⟩ none [
      (none, shortTypeNode 12),
      (none, .mk .arrayType ⟨15, 24⟩ none [
        (none, .mk .parenthesizedType ⟨15, 22⟩ none [(none, unionNode 16 21 [shortTypeNode 16, shortTypeNode 20])])])])]

def mapType : Place := .root (.ofString alternativesText) mapNode

/-- The union with its first two alternatives in a union of theirs. -/
def leftUnion : Place :=
  .root (.ofString alternativesText) (unionNode 0 25 [unionNode 0 5 [shortTypeNode 0, shortTypeNode 4], mapNode])

/-- The union with its last two alternatives in a union of theirs. -/
def rightUnion : Place :=
  .root (.ofString alternativesText) (unionNode 0 25 [shortTypeNode 0, unionNode 4 25 [shortTypeNode 4, mapNode]])

theorem nested_elements_in_order :
    ReadsTypes Place.isProper leftUnion ∧ ReadsTypes Place.isProper rightUnion ∧ ReadsTypes Place.isProper mapType ∧
      (leftUnion.leaves Place.isProper).map Place.text = ["a", "b", "Map<c, (d | e)[]>"] ∧
      annotatedType leftUnion =
        .mk "union" none (some alternativesText) (some ((leftUnion.leaves Place.isProper).map annotatedType)) ∧
      List.Forall₂ Place.ReadsLike (leftUnion.leaves Place.isProper) (rightUnion.leaves Place.isProper) ∧
      (annotatedType leftUnion).elements? = (annotatedType rightUnion).elements? ∧
      (argumentTypes Place.isProper mapType).map Place.text = ["c", "(d | e)[]"] ∧
      annotatedType mapType =
        .mk "Map" none (some "Map<c, (d | e)[]>") (some ((argumentTypes Place.isProper mapType).map annotatedType)) ∧
      Describes Place.isProper leftUnion (annotatedType leftUnion) := by
  have hleft : ReadsTypes Place.isProper leftUnion := .inr ⟨rfl, by decide +kernel⟩
  have hright : ReadsTypes Place.isProper rightUnion := .inr ⟨rfl, by decide +kernel⟩
  have hmap : ReadsTypes Place.isProper mapType := .inr ⟨rfl, by decide +kernel⟩
  have hlike : List.Forall₂ Place.ReadsLike (leftUnion.leaves Place.isProper) (rightUnion.leaves Place.isProper) := by
    have hnodes : ∀ x ∈ (leftUnion.leaves Place.isProper).zip (rightUnion.leaves Place.isProper),
        Node.readsLike x.1.source x.2.source 6 x.1.node x.2.node = true := by
      decide +kernel
    exact List.forall₂_iff_zip.2 ⟨by decide +kernel, fun hx => Node.readsLike_sound (hnodes _ hx)⟩
  obtain ⟨hmirror, hunion, _⟩ := type_elements_in_order hleft
  obtain ⟨hdescribed, hnested⟩ := hunion rfl
  obtain ⟨_, _, hgeneric⟩ := type_elements_in_order hmap
  have htext : leftUnion.text = alternativesText := by decide +kernel
  have hmapText : mapType.text = "Map<c, (d | e)[]>" := by decide +kernel
  have hname : (mapType.fieldText? .name).getD mapType.text = "Map" := by decide +kernel
  refine ⟨hleft, hright, hmap, by decide +kernel, htext ▸ hdescribed, hlike, hnested rightUnion hright rfl hlike,
    by decide +kernel, ?_, (hmirror _).2 rfl⟩
  rw [hgeneric rfl, hname, hmapText]

def commentedUnion : Place :=
  .root (.ofString "string | /* c */ number") (unionNode 0 23 [
    .mk .predefinedType ⟨0, 6⟩ none [], .mk .comment ⟨9, 16⟩ none [], .mk .predefinedType ⟨17, 23⟩ none []])

def commentedArguments : Place :=
  .root (.ofString "Map<string, /* k */ number>") (.mk .genericType ⟨0, 27⟩ none [
    (some .name, .mk .typeIdentifier ⟨0, 3⟩ none []),
    (some .typeArguments, .mk .typeArguments ⟨3, 27⟩ none [
      (none, .mk .predefinedType ⟨4, 10⟩ none []), (none, .mk .comment ⟨12, 19⟩ none []),
      (none, .mk .predefinedType ⟨20, 26⟩ none [])])])

/-- What is known by its text alone is described by it. -/
theorem map_annotatedType_of_names {ps : List Place} (h : ∀ q ∈ ps, q.kind = .predefinedType ∨ q.kind = .comment) :
    ps.map annotatedType = (ps.map Place.text).map TypeDoc.named := by
  rw [List.map_map]
  refine List.map_congr_left fun q hq => ?_
  rw [annotatedType_eq]
  rcases h q hq with hk | hk <;> rw [hk] <;> rfl

/-- The union has two alternatives and the other type has two arguments, and a comment is listed with each. -/
theorem comment_among_elements :
    (commentedUnion.leaves Place.isProper).map Place.text = ["string", "number"] ∧
      (annotatedType commentedUnion).elements? =
        some (["string", "/* c */", "number"].map TypeDoc.named) ∧
      (argumentTypes Place.isProper commentedArguments).map Place.text = ["string", "number"] ∧
      (annotatedType commentedArguments).elements? =
        some (["string", "/* k */", "number"].map TypeDoc.named) := by
  have hleaves : (commentedUnion.leaves Place.isNamed).map Place.text = ["string", "/* c */", "number"] := by
    decide +kernel
  have harguments : (argumentTypes Place.isNamed commentedArguments).map Place.text =
      ["string", "/* k */", "number"] := by
    decide +kernel
  refine ⟨by decide +kernel, ?_, by decide +kernel, ?_⟩
  · rw [annotatedType_of_elements (elementTypes?_of_union rfl), map_annotatedType_of_names (by decide +kernel), hleaves]
    rfl
  · rw [annotatedType_of_elements (elementTypes?_of_generic rfl), map_annotatedType_of_names (by decide +kernel),
      harguments]
    rfl

end ReactCatalog
