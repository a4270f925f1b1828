import ReactCatalog.Proofs.LikeDocuments

/-!
# Wrappers around a value

Parentheses, casts and marks may be written around a value that a module exports, assigns or declares. They change
neither which component the module exports nor what is said of it, but for one thing: a documentation comment before
them is handed on by parentheses only. Behind any other wrapper the description is the one found within the value
(`wrapped_value_documented`).
-/

namespace ReactCatalog

/-! ## Wrappers -/

/-- A wrapper: its kind, and at which position it holds the value. -/
structure Layer where
  kind : Kind
  position : Nat

/-- Wrappers that hold the value as their first part. -/
def leadingWrappers : List Kind :=
  [.parenthesizedExpression, .asExpression, .satisfiesExpression, .nonNullExpression]

/-- The construct `w` is such a wrapper around the value `e`, with no comment before the value. -/
inductive Layer.Wraps (l : Layer) (w e : Node) : Prop
  | leading {before after : List Node} : w.kind = l.kind → l.kind ∈ leadingWrappers →
      w.children = before ++ e :: after → before.length = l.position → (∀ c ∈ before, c.isNamed = false) → Wraps l w e
  | assertion {before after : List Node} : w.kind = l.kind → l.kind = .typeAssertion →
      w.children = before ++ e :: after → before.length = l.position → (∀ c ∈ before, c.kind ≠ .comment) →
      (∀ c ∈ after, c.isNamed = false) → Wraps l w e

/-- Wrappers, the innermost first, are written one around the other with something that reads like `e` inside. -/
inductive Stack (s s' : Source) (e : Node) : List Layer → Node → Prop
  | core {w : Node} : Node.ReadsLike s s' e w → Stack s s' e [] w
  | wrap {l : Layer} {ls : List Layer} {inner w : Node} : Stack s s' e ls inner → inner.isNamed = true →
      inner.kind ≠ .comment → l.Wraps w inner → Stack s s' e (ls ++ [l]) w

/-- Some wrapper is not a pair of parentheses. -/
def hidesDocs (ls : List Layer) : Bool := ls.any fun l => l.kind != .parenthesizedExpression

namespace Place

/-- The children by their place among the others. -/
theorem children_split {p : Place} {before after : List Node} {e : Node}
    (h : p.node.children = before ++ e :: after) :
    ∃ l r, p.children = l ++ p.down before.length e :: r ∧ (∀ c ∈ l, c.node ∈ before) ∧ ∀ c ∈ r, c.node ∈ after := by
  unfold children
  rw [h, List.zipIdx_append, List.zipIdx_cons, List.map_append, List.map_cons, Nat.zero_add]
  refine ⟨_, _, rfl, fun c hc => ?_, fun c hc => ?_⟩
  · obtain ⟨x, hx, rfl⟩ := List.mem_map.1 hc
    exact List.fst_mem_of_mem_zipIdx hx
  · obtain ⟨x, hx, rfl⟩ := List.mem_map.1 hc
    exact List.fst_mem_of_mem_zipIdx hx

/-- Without a comment among what stands before, nothing precedes. -/
theorem precedingDoc?_down_of_plain {p : Place} {i : Nat} {c : Node} (hc : p.node.children[i]? = some c)
    (h : ∀ j < i, ∀ b, p.node.children[j]? = some b → b.kind ≠ .comment) : (p.down i c).precedingDoc? = none := by
  cases i with
  | zero => rfl
  | succ i =>
    rw [precedingDoc?_down_succ hc, getElem?_children]
    cases hb : p.node.children[i]? with
    | none => rfl
    | some b => exact if_neg fun hk => h i (Nat.lt_succ_self i) b hb hk.1

end Place

namespace Layer.Wraps

variable {l : Layer} {p : Place} {e : Node}

theorem kind {w : Node} (h : l.Wraps w e) : w.kind = l.kind ∧ (l.kind ∈ leadingWrappers ∨ l.kind = .typeAssertion) := by
  cases h with
  | leading hk hl _ _ _ => exact ⟨hk, .inl hl⟩
  | assertion hk ha _ _ _ _ => exact ⟨hk, .inr ha⟩

/-- A wrapper is a comment no more than its value is. -/
theorem not_comment {w : Node} (h : l.Wraps w e) : w.kind ≠ .comment := by
  obtain ⟨hk, hl⟩ := h.kind
  rw [hk]
  simp only [leadingWrappers, List.mem_cons, List.not_mem_nil, or_false] at hl
  rcases hl with (hl | hl | hl | hl) | hl <;> simp [hl]

theorem passesDocs {w : Node} (h : l.Wraps w e) :
    Place.passesDocs w.kind = (l.kind == .parenthesizedExpression) := by
  obtain ⟨hk, hl⟩ := h.kind
  rw [hk]
  simp only [leadingWrappers, List.mem_cons, List.not_mem_nil, or_false] at hl
  rcases hl with (hl | hl | hl | hl) | hl <;> rw [hl] <;> rfl

theorem child {w : Node} (h : l.Wraps w e) : w.children[l.position]? = some e := by
  cases h with
  | leading _ _ hs hl _ => rw [hs, ← hl, List.getElem?_append_right (Nat.le_refl _), Nat.sub_self]; rfl
  | assertion _ _ hs hl _ _ => rw [hs, ← hl, List.getElem?_append_right (Nat.le_refl _), Nat.sub_self]; rfl

theorem inside? (h : l.Wraps p.node e) (hn : e.isNamed = true) : p.inside? = some (p.down l.position e) := by
  have hnamed : (p.down l.position e).isNamed = true := hn
  cases h with
  | leading hk hl hs hlength hbefore =>
    obtain ⟨before, after, hc, hb, _⟩ := Place.children_split hs
    have hnone : before.filter Place.isNamed = [] :=
      List.filter_eq_nil_iff.2 fun c hc => by simp [Place.isNamed, hbefore _ (hb c hc)]
    have hhead : p.namedChildren.head? = some (p.down l.position e) := by
      rw [Place.namedChildren, hc, List.filter_append, hnone, hlength, List.filter_cons_of_pos hnamed]
      rfl
    have hkind : p.kind = l.kind := hk
    unfold Place.inside?
    simp only [leadingWrappers, List.mem_cons, List.not_mem_nil, or_false] at hl
    rcases hl with hl | hl | hl | hl <;> simpa only [hkind, hl] using hhead
  | assertion hk hl hs hlength _ hafter =>
    obtain ⟨before, after, hc, _, ha⟩ := Place.children_split hs
    have hnone : after.filter Place.isNamed = [] :=
      List.filter_eq_nil_iff.2 fun c hc => by simp [Place.isNamed, hafter _ (ha c hc)]
    have hlast : p.namedChildren.getLast? = some (p.down l.position e) := by
      rw [Place.namedChildren, hc, List.filter_append, hlength, List.filter_cons_of_pos hnamed, hnone,
        List.getLast?_append, List.getLast?_singleton]
      rfl
    have hkind : p.kind = l.kind := hk
    unfold Place.inside?
    simpa only [hkind, hl] using hlast

/-- A value has the comment of its wrapper if that is a pair of parentheses, and none otherwise. -/
theorem docblock? (h : l.Wraps p.node e) :
    (p.down l.position e).docblock? = if l.kind = .parenthesizedExpression then p.docblock? else none := by
  have hplain : (p.down l.position e).precedingDoc? = none := by
    refine Place.precedingDoc?_down_of_plain h.child fun j hj b hb => ?_
    cases h with
    | leading _ _ hs hl hbefore =>
      rw [hs, List.getElem?_append_left (by omega)] at hb
      intro hcomment
      have hnamed := hbefore b (List.mem_of_getElem? hb)
      simp [Node.isNamed, hcomment, Kind.isNamed] at hnamed
    | assertion _ _ hs hl hbefore _ =>
      rw [hs, List.getElem?_append_left (by omega)] at hb
      exact hbefore b (List.mem_of_getElem? hb)
  have hpasses : Place.passesDocs p.kind = (l.kind == .parenthesizedExpression) := h.passesDocs
  rw [Place.docblock?_down, hplain, hpasses]
  simp

end Layer.Wraps

namespace Stack

variable {s s' : Source} {e w : Node} {ls : List Layer}

/-- A stack of wrappers reads like its value, or neither is a comment. -/
theorem reads_or (h : Stack s s' e ls w) : Node.ReadsLike s s' e w ∨ e.kind ≠ .comment ∧ w.kind ≠ .comment := by
  induction h with
  | core h => exact .inl h
  | wrap _ _ hc hw ih =>
    refine .inr ⟨?_, hw.not_comment⟩
    rcases ih with ih | ih
    · cases ih with
      | intro hk _ _ _ _ =>
        rw [hk]
        exact hc
    · exact ih.1

/-- What is inside the wrappers. -/
theorem exists_core (h : Stack s s' e ls w) {p : Place} (hs : p.source = s') (hw : p.node = w) :
    ∃ q : Place, q.bare = p.bare ∧ q.path = ls.map Layer.position ++ p.path ∧
      Node.ReadsLike s q.source e q.node ∧ q.docblock? = if hidesDocs ls then none else p.docblock? := by
  induction h generalizing p with
  | core h =>
    subst hs hw
    exact ⟨p, rfl, rfl, h, rfl⟩
  | @wrap l ls inner w hstack hn hc hwraps ih =>
    subst hw
    obtain ⟨q, hbare, hpath, hreads, hdocs⟩ := ih (p := p.down l.position inner) hs rfl
    refine ⟨q, ?_, ?_, hreads, ?_⟩
    · rw [hbare, Place.bare_of_inside? (hwraps.inside? hn)]
    · rw [hpath, Place.path_down]
      simp
    · rw [hdocs, hwraps.docblock?]
      unfold hidesDocs
      rw [List.any_append]
      by_cases hl : l.kind = .parenthesizedExpression
      · simp [hl]
      · simp [hl]

end Stack

/-! ## Trees with a wrapped value -/

/-- The trees read alike but for what is at the end of a path. There the second has wrappers around the value of the
first. -/
inductive Node.WrappedAt (s s' : Source) (ls : List Layer) : List Nat → Node → Node → Prop
  | site {n n' : Node} : Stack s s' n ls n' → WrappedAt s s' ls [] n n'
  | inside {i : Nat} {rest : List Nat} {n n' c c' : Node} : n.kind ≠ .comment → n.kind = n'.kind →
      n.parts.map Prod.fst = n'.parts.map Prod.fst → (∀ j, s.blankAfter n j = s'.blankAfter n' j) →
      n.children[i]? = some c → n'.children[i]? = some c' → WrappedAt s s' ls rest c c' →
      (∀ j d d', j ≠ i → n.children[j]? = some d → n'.children[j]? = some d' → ReadsLike s s' d d') →
      WrappedAt s s' ls (i :: rest) n n'

theorem Node.WrappedAt.reads_or {s s' : Source} {ls : List Layer} {path : List Nat} {n n' : Node}
    (h : Node.WrappedAt s s' ls path n n') : Node.ReadsLike s s' n n' ∨ n.kind ≠ .comment ∧ n'.kind ≠ .comment := by
  cases h with
  | site h => exact h.reads_or
  | inside hc hk _ _ _ _ _ _ => exact .inr ⟨hc, hk ▸ hc⟩

/-! ## Corresponding places -/

/-- The documentation comment of a place within `v`, as it is without what is around `v`. -/
def Place.docblockWithin? (v p : Place) : Option String :=
  Place.docblock? ⟨p.source, p.node, p.above.take (p.above.length - v.above.length)⟩

/-- The place is neither in the value nor around it, and nothing changes for it. -/
structure Untouched (v p p' : Place) : Prop where
  path : p'.path = p.path
  not_below : ¬ v.path <:+ p.path
  not_above : ¬ p.path <:+ v.path
  docs : p'.docblock? = p.docblock?

/-- The place is in the value and moves into the wrappers with it. -/
structure Moved (v : Place) (ls : List Layer) (p p' : Place) : Prop where
  paths : ∃ rel, p.path = rel ++ v.path ∧ p'.path = rel ++ (ls.map Layer.position ++ v.path)
  docs : p'.docblock? = if hidesDocs ls then v.docblockWithin? p else p.docblock?

/-- The places correspond to each other when `v` is wrapped. -/
def Aligned (v : Place) (ls : List Layer) (p p' : Place) : Prop :=
  Node.ReadsLike p.source p'.source p.node p'.node ∧ (Untouched v p p' ∨ Moved v ls p p')

theorem likeness_reads : Likeness fun p p' => Node.ReadsLike p.source p'.source p.node p'.node where
  reads h := h
  down h _ _ _ hc hc' := by
    cases h with
    | intro _ _ _ _ hchildren => exact hchildren _ _ _ hc hc'

section

variable {v p p' : Place} {ls : List Layer}

theorem Place.docblockWithin?_self (v : Place) : v.docblockWithin? v = none := by
  unfold docblockWithin?
  rw [Nat.sub_self]
  rfl

theorem Place.precedingDoc?_above (p : Place) (above : List (Node × Nat)) (i : Nat) (c : Node) :
    (Place.down ⟨p.source, p.node, above⟩ i c).precedingDoc? = (p.down i c).precedingDoc? := by
  cases i with
  | zero => rfl
  | succ i =>
    simp only [precedingDoc?, previous?, down]
    cases p.node.children[i]? <;> rfl

theorem Place.docblockWithin?_down (h : v.above.length ≤ p.above.length) (i : Nat) (c : Node) :
    v.docblockWithin? (p.down i c) =
      ((p.down i c).precedingDoc? <|> if passesDocs p.kind then v.docblockWithin? p else none) := by
  have htake : (p.down i c).above.take ((p.down i c).above.length - v.above.length) =
      (p.node, i) :: p.above.take (p.above.length - v.above.length) := by
    show ((p.node, i) :: p.above).take (p.above.length + 1 - v.above.length) = _
    rw [Nat.succ_sub h, List.take_succ_cons]
  unfold docblockWithin?
  rw [htake]
  have hdown := Place.docblock?_down ⟨p.source, p.node, p.above.take (p.above.length - v.above.length)⟩ i c
  rw [Place.precedingDoc?_above] at hdown
  exact hdown

theorem Untouched.down (h : Untouched v p p') (hr : Node.ReadsLike p.source p'.source p.node p'.node) {i : Nat}
    {c c' : Node} (hc : p.node.children[i]? = some c) (hc' : p'.node.children[i]? = some c') :
    Untouched v (p.down i c) (p'.down i c') where
  path := by rw [Place.path_down, Place.path_down, h.path]
  not_below hs := by
    rw [Place.path_down, List.suffix_cons_iff] at hs
    rcases hs with hs | hs
    · exact h.not_above (hs ▸ List.suffix_cons i p.path)
    · exact h.not_below hs
  not_above hs := h.not_above ((List.suffix_cons i p.path).trans hs)
  docs := by
    rw [Place.docblock?_down, Place.docblock?_down, h.docs, likeness_reads.precedingDoc?_down hr hc hc',
      likeness_reads.kind hr]

theorem Moved.down (h : Moved v ls p p') (hr : Node.ReadsLike p.source p'.source p.node p'.node) {i : Nat}
    {c c' : Node} (hc : p.node.children[i]? = some c) (hc' : p'.node.children[i]? = some c') :
    Moved v ls (p.down i c) (p'.down i c') where
  paths := by
    obtain ⟨rel, hp, hp'⟩ := h.paths
    exact ⟨i :: rel, congrArg (i :: ·) hp, congrArg (i :: ·) hp'⟩
  docs := by
    have hlength : v.above.length ≤ p.above.length := by
      obtain ⟨rel, hp, _⟩ := h.paths
      have hlengths := congrArg List.length hp
      simp only [Place.path, List.length_map, List.length_append] at hlengths
      omega
    rw [Place.docblock?_down, Place.docblock?_down, Place.docblockWithin?_down hlength, h.docs,
      likeness_reads.precedingDoc?_down hr hc hc', likeness_reads.kind hr]
    cases hidesDocs ls <;> rfl

theorem aligned_likeness (v : Place) (ls : List Layer) : Likeness (Aligned v ls) where
  reads h := h.1
  down h _ _ _ hc hc' := by
    refine ⟨likeness_reads.down h.1 hc hc', ?_⟩
    rcases h.2 with ha | hm
    · exact .inl (ha.down h.1 hc hc')
    · exact .inr (hm.down h.1 hc hc')

theorem aligned_keepsPaths (v : Place) (ls : List Layer) : KeepsPaths (Aligned v ls) := by
  -- a place in the value has the path of the value as a suffix, before and after
  have hcross : ∀ {p p' q q' : Place}, Untouched v p p' → Moved v ls q q' → p.path ≠ q.path ∧ p'.path ≠ q'.path := by
    intro p p' q q' ha hm
    obtain ⟨rel, hq, hq'⟩ := hm.paths
    refine ⟨fun hpath => ha.not_below ?_, fun hpath => ha.not_below ?_⟩
    · rw [hpath, hq]
      exact List.suffix_append rel v.path
    · rw [← ha.path, hpath, hq', ← List.append_assoc]
      exact List.suffix_append _ v.path
  rintro p p' q q' ⟨_, hp | hp⟩ ⟨_, hq | hq⟩
  · rw [hp.path, hq.path]
  · exact iff_of_false (hcross hp hq).1 (hcross hp hq).2
  · exact iff_of_false (hcross hq hp).1.symm (hcross hq hp).2.symm
  · obtain ⟨r, hr, hr'⟩ := hp.paths
    obtain ⟨t, ht, ht'⟩ := hq.paths
    rw [hr, hr', ht, ht', List.append_cancel_right_eq, List.append_cancel_right_eq]

/-! ## On the way to the value -/

/-- The places are above the value, which is found by going down `rest`. -/
structure Toward (v : Place) (ls : List Layer) (rest : List Nat) (p p' : Place) : Prop where
  node : Node.WrappedAt p.source p'.source ls rest p.node p'.node
  path : p'.path = p.path
  rest : v.path = rest.reverse ++ p.path
  docs : p'.docblock? = p.docblock?

theorem eq_of_suffix {a b l : List Nat} (ha : a <:+ l) (hb : b <:+ l) (h : a.length = b.length) : a = b :=
  (List.suffix_of_suffix_length_le ha hb h.le).eq_of_length h

/-- A part is a child under its label. -/
theorem Place.exists_of_field? {f : Field} {c : Place} (h : p.field? f = some c) :
    ∃ i n, c = p.down i n ∧ p.node.parts[i]? = some (some f, n) := by
  obtain ⟨⟨⟨g, n⟩, i⟩, hf, rfl⟩ := Option.map_eq_some_iff.1 h
  have hlabel : g = some f := by simpa using List.find?_some hf
  exact ⟨i, n, rfl, hlabel ▸ List.mk_mem_zipIdx_iff_getElem?.1 (List.mem_of_find?_eq_some hf)⟩

/-- Different parts are different children. -/
theorem Place.field_eq_of_path {f g : Field} {c d : Place} (hc : p.field? f = some c) (hd : p.field? g = some d)
    (h : c.path = d.path) : f = g := by
  obtain ⟨i, n, rfl, hi⟩ := exists_of_field? hc
  obtain ⟨j, m, rfl, hj⟩ := exists_of_field? hd
  obtain rfl : i = j := (List.cons.inj h).1
  rw [hi, Option.some.injEq, Prod.mk.injEq, Option.some.injEq] at hj
  exact hj.1

theorem Place.length_path_of_mem_children {c : Place} (h : c ∈ p.children) : c.path.length = p.path.length + 1 := by
  obtain ⟨i, n, _, rfl⟩ := mem_children_iff.1 h
  rfl

/-- A child of a place is strictly below all that the place is below. -/
theorem Place.path_below {q c : Place} (h : p.path <:+ q.path) (hc : c ∈ q.children) :
    p.path <:+ c.path ∧ p.path ≠ c.path := by
  obtain ⟨i, n, _, rfl⟩ := mem_children_iff.1 hc
  refine ⟨h.trans (List.suffix_cons i q.path), fun hpath => ?_⟩
  have hle := h.length_le
  rw [hpath, path_down, List.length_cons] at hle
  omega

namespace Toward

variable {rest : List Nat}

theorem kind {i : Nat} (h : Toward v ls (i :: rest) p p') : p.kind = p'.kind := by
  cases h.node with
  | inside _ hk _ _ _ _ _ _ => exact hk

theorem labels {i : Nat} (h : Toward v ls (i :: rest) p p') :
    p.node.parts.map Prod.fst = p'.node.parts.map Prod.fst := by
  cases h.node with
  | inside _ _ hl _ _ _ _ _ => exact hl

/-- Only one child leads to the value. -/
theorem path_eq {c d d' : Place} (h : Toward v ls rest d d') (hs : c.path <:+ v.path) (hd : d ∈ p.children)
    (hc : c ∈ p.children) : d.path = c.path := by
  have hv : d.path <:+ v.path := h.rest ▸ List.suffix_append rest.reverse d.path
  refine eq_of_suffix hv hs ?_
  rw [Place.length_path_of_mem_children hd, Place.length_path_of_mem_children hc]

/-- One child leads on to the value, the others are apart from it. -/
theorem children {i : Nat} (h : Toward v ls (i :: rest) p p') :
    List.Forall₂ (fun c c' => Toward v ls rest c c' ∨ Aligned v ls c c' ∧ ¬ c.path <:+ v.path)
      p.children p'.children := by
  have hk : p.kind = p'.kind := h.kind
  cases h.node with
  | @inside _ _ _ _ d d' _ _ hl hb hd hd' hrest hothers =>
    -- the sibling that leads to the value may be a wrapper now, but it is no comment before or after
    have hsiblings : ∀ (j : Nat) b b', p.node.children[j]? = some b → p'.node.children[j]? = some b' →
        Node.ReadsLike p.source p'.source b b' ∨ b.kind ≠ .comment ∧ b'.kind ≠ .comment := by
      intro j b b' hb hb'
      by_cases hj : j = i
      · subst hj
        rw [hd, Option.some.injEq] at hb
        rw [hd', Option.some.injEq] at hb'
        rw [← hb, ← hb']
        exact hrest.reads_or
      · exact .inl (hothers j b b' hj hb hb')
    refine Place.children_rel hl fun j c c' hc hc' => ?_
    have hdocs : (p'.down j c').docblock? = (p.down j c).docblock? := by
      rw [Place.docblock?_down, Place.docblock?_down, Place.precedingDoc?_down_eq hl hb hsiblings hc hc', h.docs, hk]
    have hpath : (p'.down j c').path = (p.down j c).path := congrArg (j :: ·) h.path
    have hv := h.rest
    rw [List.reverse_cons, List.append_assoc, List.singleton_append] at hv
    by_cases hj : j = i
    · subst hj
      rw [hd, Option.some.injEq] at hc
      rw [hd', Option.some.injEq] at hc'
      subst hc hc'
      exact .inl ⟨hrest, hpath, hv, hdocs⟩
    · have habove : ¬ (p.down j c).path <:+ v.path := by
        intro hs
        rw [Place.path_down, hv] at hs
        have hpaths := eq_of_suffix hs (List.suffix_append rest.reverse (i :: p.path)) rfl
        exact hj (List.cons.inj hpaths).1
      refine .inr ⟨⟨hothers j c c' hj hc hc', .inl ⟨hpath, fun hs => ?_, habove, hdocs⟩⟩, habove⟩
      -- the value is at least as deep as the child, so it could only be the child itself
      rw [Place.path_down, hv] at hs
      have hle := hs.length_le
      have hpaths := hs.eq_of_length_le (by simp)
      cases hr : rest.reverse with
      | nil =>
        rw [hr] at hpaths
        exact hj (List.cons.inj hpaths).1.symm
      | cons a b =>
        rw [hr] at hle
        simp at hle
        omega

/-- The value is below a child on the way to it. -/
theorem exists_step (h : Toward v ls rest p p') {c : Place} (hc : c ∈ p.children) (hs : c.path <:+ v.path) :
    ∃ i rest', rest = i :: rest' ∧ c.path = i :: p.path := by
  obtain ⟨j, n, _, rfl⟩ := Place.mem_children_iff.1 hc
  cases rest with
  | nil =>
    have hle := hs.length_le
    rw [h.rest, Place.path_down] at hle
    simp at hle
  | cons i rest =>
    have hv : (i :: p.path) <:+ v.path := by
      rw [h.rest, List.reverse_cons, List.append_assoc]
      exact List.suffix_append _ _
    exact ⟨i, rest, rfl, eq_of_suffix hs hv rfl⟩

/-- The part that leads to the value, and the other parts. -/
theorem fields (h : Toward v ls rest p p') {f : Field} {c : Place} (hf : p.field? f = some c)
    (hs : c.path <:+ v.path) :
    p.kind = p'.kind ∧ (∃ c' rest', p'.field? f = some c' ∧ Toward v ls rest' c c') ∧
      (∀ g, (p.field? g).isSome = (p'.field? g).isSome) ∧
      ∀ g, g ≠ f → Option.Rel (Aligned v ls) (p.field? g) (p'.field? g) := by
  obtain ⟨i, rest, rfl, hpath⟩ := h.exists_step (Place.mem_children_of_field? hf) hs
  have hfields := fun g => Place.field?_rel h.labels h.children g
  refine ⟨h.kind, ?_, fun g => isSome_eq_of_rel (hfields g), fun g hg => ?_⟩
  · rcases rel_cases (hfields f) with ⟨hx, _⟩ | ⟨d, d', hx, hy, hd⟩
    · rw [hf] at hx
      cases hx
    · rw [hf, Option.some.injEq] at hx
      subst hx
      exact ⟨d', rest, hy, hd.resolve_right fun hn => hn.2 hs⟩
  · rcases rel_cases (hfields g) with ⟨hx, hy⟩ | ⟨d, d', hx, hy, hd⟩
    · rw [hx, hy]
      exact .none
    · rw [hx, hy]
      refine .some (hd.resolve_left fun ht => hg (Place.field_eq_of_path hx hf ?_)).1
      exact ht.path_eq hs (Place.mem_children_of_field? hx) (Place.mem_children_of_field? hf)

/-- Among the named children as well, one leads on and the others are apart. -/
theorem namedChildren (h : Toward v ls rest p p') {c : Place} (hc : c ∈ p.children) (hs : c.path <:+ v.path)
    (hne : c.path ≠ v.path) :
    p.kind = p'.kind ∧ List.Forall₂ (fun d d' => d = c ∧ (∃ rest', Toward v ls rest' d d') ∨ d ≠ c ∧ Aligned v ls d d')
      p.namedChildren p'.namedChildren := by
  obtain ⟨i, rest, rfl, hpath⟩ := h.exists_step hc hs
  cases rest with
  | nil => exact absurd (hpath.trans h.rest.symm) hne
  | cons j rest =>
    have hnamed := filter_rel (rel_mem h.children) fun d d' hd => by
      rcases hd.2 with ht | ha
      · exact congrArg Kind.isNamed ht.kind
      · exact (aligned_likeness v ls).isNamed ha.1
    refine ⟨h.kind, hnamed.imp ?_⟩
    rintro d d' ⟨hd, ht | ha⟩
    · exact .inl ⟨Within.eq_of_path (.child .top hd) (.child .top hc) (ht.path_eq hs hd hc), _, ht⟩
    · exact .inr ⟨fun heq => ha.2 (heq ▸ hs), ha.1⟩

/-- At the value itself, what is left without wrappers corresponds. -/
theorem sameBare {v' : Place} (h : Toward v ls rest v v') : SameBare (Aligned v ls) v v' := by
  have hrest : rest = [] := by simpa using h.rest
  subst hrest
  cases h.node with
  | site hstack =>
    obtain ⟨q, hbare, hpath, hreads, hdocs⟩ := hstack.exists_core rfl rfl
    have hcore : Aligned v ls v q := by
      refine ⟨hreads, .inr ⟨⟨[], rfl, ?_⟩, ?_⟩⟩
      · rw [hpath, h.path]
        rfl
      · rw [hdocs, h.docs, Place.docblockWithin?_self]
    unfold SameBare
    rw [← hbare]
    exact (aligned_likeness v ls).bare hcore

/-- The declarator of the value. -/
theorem declarator {d d' : Place} (h : Toward v ls rest d d') (hv : d.field? .value = some v) :
    DeclaratorMatch (Aligned v ls) d d' := by
  obtain ⟨hk, ⟨v', rest', hv', ht⟩, _, hothers⟩ := h.fields hv (List.suffix_refl _)
  refine ⟨hk, hothers .name (by decide), ?_, hothers .type (by decide)⟩
  rw [hv, hv']
  exact .some ht.sameBare

/-- The declaration around the declarator of the value. -/
theorem declaration {q q' d : Place} (h : Toward v ls rest q q')
    (hq : q.kind = .lexicalDeclaration ∨ q.kind = .variableDeclaration) (hd : d ∈ q.namedChildren)
    (hv : d.field? .value = some v) : DeclarationMatch (Aligned v ls) q q' := by
  have hchild := Place.mem_children_of_mem_namedChildren hd
  have hbelow := Place.path_below (List.suffix_refl _) (Place.mem_children_of_field? hv)
  obtain ⟨hk, hchildren⟩ := h.namedChildren hchild hbelow.1 hbelow.2
  refine ⟨hk, hq, hchildren.imp ?_⟩
  rintro e e' (⟨rfl, rest', ht⟩ | ⟨_, ha⟩)
  · exact ht.declarator hv
  · exact (aligned_likeness v ls).declarator ha

end Toward

/-! ## Statements -/

/-- The statement exports, assigns or declares the value. -/
inductive Gives (p : Place) : Place → Prop
  | exported {v : Place} : p.kind = .exportStatement → p.field? .value = some v → Gives p v
  | assigned {left v : Place} : p.assignment? = some (left, v) → Gives p v
  | declared {q d v : Place} : declarationIn? p = some q →
      q.kind = .lexicalDeclaration ∨ q.kind = .variableDeclaration → d ∈ q.namedChildren → d.field? .value = some v →
      Gives p v

theorem Gives.below (h : Gives p v) : p.path <:+ v.path ∧ p.path ≠ v.path := by
  cases h with
  | exported _ hv => exact Place.path_below (List.suffix_refl _) (Place.mem_children_of_field? hv)
  | assigned ha =>
    obtain ⟨_, a, hhead, _, _, hr⟩ := Place.assignment?_eq_some_iff.1 ha
    have ha := Place.mem_children_of_mem_namedChildren (List.mem_of_head? hhead)
    exact Place.path_below (Place.path_below (List.suffix_refl _) ha).1 (Place.mem_children_of_field? hr)
  | @declared q d _ hq _ hd hv =>
    have hpq : p.path <:+ q.path := by
      unfold declarationIn? at hq
      split at hq
      · exact (Place.path_below (List.suffix_refl _) (Place.mem_children_of_field? hq)).1
      · rw [Option.some.injEq] at hq
        rw [hq]
    have hpd := Place.path_below hpq (Place.mem_children_of_mem_namedChildren hd)
    exact Place.path_below hpd.1 (Place.mem_children_of_field? hv)

theorem Toward.statement {rest : List Nat} (h : Toward v ls rest p p') (hv : Gives p v) :
    StatementMatch (Aligned v ls) p p' := by
  cases hv with
  | exported hk hv =>
    obtain ⟨hkind, ⟨v', rest', hv', ht⟩, hsome, hothers⟩ := h.fields hv (List.suffix_refl _)
    exact .exported hk (hkind ▸ hk) (hsome .source) (hothers .declaration (by decide)) hv hv' ht.sameBare
  | assigned ha =>
    obtain ⟨hk, a, hhead, hka, hl, hr⟩ := Place.assignment?_eq_some_iff.1 ha
    have hchild := Place.mem_children_of_mem_namedChildren (List.mem_of_head? hhead)
    have hbelow := Place.path_below (List.suffix_refl _) (Place.mem_children_of_field? hr)
    obtain ⟨hkind, hchildren⟩ := h.namedChildren hchild hbelow.1 hbelow.2
    rcases rel_cases (head?_rel hchildren) with ⟨hx, _⟩ | ⟨b, a', hx, hhead', hb⟩
    · rw [hhead] at hx
      cases hx
    rw [hhead, Option.some.injEq] at hx
    subst hx
    obtain ⟨rest', ht⟩ := (hb.resolve_right fun hn => hn.1 rfl).2
    obtain ⟨hkind', ⟨v', _, hr', hv⟩, _, hothers⟩ := ht.fields hr (List.suffix_refl _)
    rcases rel_cases (hothers .left (by decide)) with ⟨hx, _⟩ | ⟨l, left', hx, hl', hleft⟩
    · rw [hl] at hx
      cases hx
    rw [hl, Option.some.injEq] at hx
    subst hx
    refine .assigned ha (Place.assignment?_eq_some_iff.2 ?_) hleft hv.sameBare
    exact ⟨hkind ▸ hk, a', hhead', hkind' ▸ hka, hl', hr'⟩
  | @declared q d _ hq hk hd hv =>
    unfold declarationIn? at hq
    split at hq
    · next hexport =>
      have hqd := Place.path_below (List.suffix_refl _) (Place.mem_children_of_mem_namedChildren hd)
      have hqv := Place.path_below hqd.1 (Place.mem_children_of_field? hv)
      obtain ⟨hkind, ⟨q', rest', hq', ht⟩, hsome, _⟩ := h.fields hq hqv.1
      exact .exportedDeclaration hexport (hkind ▸ hexport) (hsome .source) hq hq' (ht.declaration hk hd hv)
    · rw [Option.some.injEq] at hq
      subst hq
      exact .declared (h.declaration hk hd hv)

/-- The value is one that a statement of the module exports, assigns or declares. -/
def HoldsValue (program v : Place) : Prop := ∃ p ∈ program.namedChildren, Gives p v

/-- Wrapping such a value leaves statements that match. -/
theorem Toward.statements {rest : List Nat} {program program' : Place} (h : Toward v ls rest program program')
    (hv : HoldsValue program v) :
    List.Forall₂ (StatementMatch (Aligned v ls)) program.namedChildren program'.namedChildren := by
  obtain ⟨p, hp, hv⟩ := hv
  obtain ⟨_, hchildren⟩ := h.namedChildren (Place.mem_children_of_mem_namedChildren hp) hv.below.1 hv.below.2
  refine hchildren.imp ?_
  rintro q q' (⟨rfl, rest', ht⟩ | ⟨_, ha⟩)
  · exact ht.statement hv
  · exact .alike ha

end

/-! ## The component of the module -/

/-- The documentation comment of a place, as it is seen through wrappers around `v`. -/
def Place.docblockThrough? (v : Place) (ls : List Layer) (p : Place) : Option String :=
  if hidesDocs ls = true ∧ v.path <:+ p.path then v.docblockWithin? p else p.docblock?

theorem Aligned.docblock? {v p p' : Place} {ls : List Layer} (h : Aligned v ls p p') :
    p'.docblock? = v.docblockThrough? ls p := by
  unfold Place.docblockThrough?
  rcases h.2 with ha | hm
  · rw [if_neg fun hs => ha.not_below hs.2, ha.docs]
  · obtain ⟨rel, hp, _⟩ := hm.paths
    have hs : v.path <:+ p.path := hp ▸ List.suffix_append rel v.path
    rw [hm.docs]
    simp only [hs, and_true]

/-- The second module is the first with wrappers around the value `v`, which a statement exports, assigns or
declares. -/
structure Wrapped (v : Place) (ls : List Layer) (program program' : Place) : Prop where
  holds : HoldsValue program v
  top : program.above = [] ∧ program'.above = []
  tree : Node.WrappedAt program.source program'.source ls v.path.reverse program.node program'.node

theorem Wrapped.toward {v program program' : Place} {ls : List Layer} (h : Wrapped v ls program program') :
    Toward v ls v.path.reverse program program' where
  node := h.tree
  path := by rw [Place.path, Place.path, h.top.1, h.top.2]
  rest := by rw [List.reverse_reverse, Place.path, Place.path, h.top.1, List.map_nil, List.append_nil]
  docs := by rw [Place.docblock?, Place.docblock?, h.top.1, h.top.2]; rfl

/-- Wrappers around a value do not change which component the module exports, nor its documentation but for the
description. The description does not change either if all wrappers are parentheses or the component is defined
elsewhere. Otherwise it is the one that is found within the value, and a comment before the wrappers is lost. -/
theorem wrapped_value_documented {v program program' : Place} {ls : List Layer} (h : Wrapped v ls program program') :
    match resolve program (.ofProgram program) with
    | .error e => resolve program' (.ofProgram program') = .error e
    | .ok d => ∃ d', resolve program' (.ofProgram program') = .ok d' ∧
        document program' (.ofProgram program') d' =
          (document program (.ofProgram program) d).describe ((v.docblockThrough? ls d.place).getD "") ∧
        (hidesDocs ls = false ∨ ¬ v.path <:+ d.place.path →
          document program' (.ofProgram program') d' = document program (.ofProgram program) d) := by
  have hM := aligned_likeness v ls
  have hstatements := h.toward.statements h.holds
  have hresolve := resolve_rel hM (aligned_keepsPaths v ls) hstatements
  generalize resolve program (.ofProgram program) = r at hresolve ⊢
  generalize resolve program' (.ofProgram program') = r' at hresolve ⊢
  cases hresolve with
  | error e => rfl
  | @ok d d' hd =>
    have hdocs := hd.place.docblock?
    refine ⟨d', rfl, ?_, fun hkept => document_eq_of_rel hM hstatements hd ?_⟩
    · rw [document_rel hM hstatements hd, hdocs]
    · rw [hdocs, Place.docblockThrough?, if_neg]
      rintro ⟨hhides, hin⟩
      rcases hkept with hk | hk
      · rw [hk] at hhides
        cases hhides
      · exact hk hin

/-! ## Checking that trees read alike -/

namespace Node

/-- The nodes have the same kind and labels, with blanks between children in the same places. -/
def sameFrame (s s' : Source) (n n' : Node) : Bool :=
  n.kind == n'.kind && n.parts.map Prod.fst == n'.parts.map Prod.fst &&
    (List.range n.children.length).all fun i => s.blankAfter n i == s'.blankAfter n' i

/-- Whether trees of some depth read alike. -/
def readsLike (s s' : Source) : Nat → Node → Node → Bool
  | 0, _, _ => false
  | depth + 1, n, n' =>
    sameFrame s s' n n' && s.text n == s'.text n' &&
      (n.children.zip n'.children).all fun c => readsLike s s' depth c.1 c.2

variable {s s' : Source} {n n' : Node}

theorem sameFrame_iff : sameFrame s s' n n' = true ↔ n.kind = n'.kind ∧
    n.parts.map Prod.fst = n'.parts.map Prod.fst ∧ ∀ i, s.blankAfter n i = s'.blankAfter n' i := by
  unfold sameFrame
  simp only [Bool.and_eq_true, beq_iff_eq, List.all_eq_true, List.mem_range, and_assoc]
  refine and_congr_right fun _ => and_congr_right fun hl => ⟨fun h i => ?_, fun h i _ => h i⟩
  by_cases hi : i < n.children.length
  · exact h i hi
  · have hlength : n.children.length = n'.children.length := by simpa [children] using congrArg List.length hl
    have hnone : n.children[i]? = none := List.getElem?_eq_none (by omega)
    have hnone' : n'.children[i]? = none := List.getElem?_eq_none (by omega)
    rw [Source.blankAfter, Source.blankAfter, hnone, hnone']

theorem readsLike_sound {depth : Nat} (h : readsLike s s' depth n n' = true) : ReadsLike s s' n n' := by
  induction depth generalizing n n' with
  | zero => cases h
  | succ depth ih =>
    rw [readsLike, Bool.and_eq_true, Bool.and_eq_true, sameFrame_iff, beq_iff_eq, List.all_eq_true] at h
    obtain ⟨⟨⟨hk, hl, hb⟩, ht⟩, hchildren⟩ := h
    refine .intro hk ht hl hb fun i c c' hc hc' => ih (hchildren (c, c') ?_)
    exact List.mem_of_getElem? (List.getElem?_zip_eq_some.2 ⟨hc, hc'⟩)

/-- Trees that differ only below one child. -/
theorem WrappedAt.of_readsLike {ls : List Layer} {i : Nat} {rest : List Nat} {c c' : Node} (depth : Nat)
    (hframe : n.kind ≠ .comment ∧ sameFrame s s' n n' = true) (hc : n.children[i]? = some c)
    (hc' : n'.children[i]? = some c') (h : WrappedAt s s' ls rest c c')
    (hothers : ((n.children.zip n'.children).eraseIdx i).all (fun d => readsLike s s' depth d.1 d.2) = true) :
    WrappedAt s s' ls (i :: rest) n n' := by
  obtain ⟨hcomment, hframe⟩ := hframe
  obtain ⟨hk, hl, hb⟩ := sameFrame_iff.1 hframe
  refine .inside hcomment hk hl hb hc hc' h fun j d d' hj hd hd' => ?_
  refine readsLike_sound (List.all_eq_true.1 hothers (d, d') ?_)
  exact List.mem_eraseIdx_iff_getElem?.2 ⟨j, hj, List.getElem?_zip_eq_some.2 ⟨hd, hd'⟩⟩

end Node

/-! ## A wrapped call -/

/-- A mark that has one or more characters. -/
def markNode (start stop : Nat) : Node := .mk .symbol ⟨start, stop⟩ none []

/-- The call `memo(() => <a/>)`. -/
def memoCall (start : Nat) : Node :=
  .mk .callExpression ⟨start, start + 16⟩ none
    [(some .function, .mk .identifier ⟨start, start + 4⟩ none []),
     (some .arguments, .mk .arguments ⟨start + 4, start + 16⟩ none
       [(none, markNode (start + 4) (start + 5)),
        (none, .mk .arrowFunction ⟨start + 5, start + 15⟩ none
          [(some .parameters, .mk .formalParameters ⟨start + 5, start + 7⟩ none
             [(none, markNode (start + 5) (start + 6)), (none, markNode (start + 6) (start + 7))]),
           (none, markNode (start + 8) (start + 10)),
           (some .body, .mk .jsxSelfClosingElement ⟨start + 11, start + 15⟩ none
             [(none, markNode (start + 11) (start + 12)),
              (some .name, .mk .identifier ⟨start + 12, start + 13⟩ none []),
              (none, markNode (start + 13) (start + 15))])]),
        (none, markNode (start + 15) (start + 16))])]

/-- The statement that exports a value. -/
def memoExport (value : Node) : Node :=
  .mk .exportStatement ⟨10, value.stop + 1⟩ none
    [(none, markNode 10 16), (none, markNode 17 24), (some .value, value),
     (none, markNode value.stop (value.stop + 1))]

/-- A module that exports a value, written as `text`, below a comment. -/
def memoModule (text : String) (value : Node) : Place :=
  .root (.ofString ("/** D. */\nexport default " ++ text ++ ";"))
    (.mk .program ⟨0, value.stop + 1⟩ none [(none, .mk .comment ⟨0, 9⟩ none []), (none, memoExport value)])

/-- The module without wrappers. -/
def memoPlain : Place := memoModule "memo(() => <a/>)" (memoCall 25)

/-- The value that the module exports. -/
def memoValue : Place := (memoPlain.down 1 (memoExport (memoCall 25))).down 2 (memoCall 25)

/-- The call in parentheses. -/
def parenthesizedCall : Node :=
  .mk .parenthesizedExpression ⟨25, 43⟩ none [(none, markNode 25 26), (none, memoCall 26), (none, markNode 42 43)]

def memoParenthesized : Place := memoModule "(memo(() => <a/>))" parenthesizedCall

/-- The call with a mark behind it. -/
def markedCall : Node := .mk .nonNullExpression ⟨25, 42⟩ none [(none, memoCall 25), (none, markNode 41 42)]

def memoMarked : Place := memoModule "memo(() => <a/>)!" markedCall

theorem memo_holdsValue : HoldsValue memoPlain memoValue := by
  refine ⟨memoPlain.down 1 (memoExport (memoCall 25)), ?_, .exported rfl rfl⟩
  exact List.mem_cons_of_mem _ List.mem_cons_self

theorem memo_wrapped_parenthesized : Wrapped memoValue [⟨.parenthesizedExpression, 1⟩] memoPlain memoParenthesized := by
  have hcall : Node.readsLike memoPlain.source memoParenthesized.source 5 (memoCall 25) (memoCall 26) = true := by
    decide +kernel
  have hchildren : parenthesizedCall.children = [markNode 25 26] ++ memoCall 26 :: [markNode 42 43] := rfl
  have hwraps : Layer.Wraps ⟨.parenthesizedExpression, 1⟩ parenthesizedCall (memoCall 26) :=
    .leading rfl (by decide) hchildren rfl (by decide)
  have hstack := Stack.wrap (.core (Node.readsLike_sound hcall)) rfl (by decide) hwraps
  refine ⟨memo_holdsValue, ⟨rfl, rfl⟩, .of_readsLike 1 (by decide +kernel) rfl rfl ?_ (by decide +kernel)⟩
  exact .of_readsLike 1 (by decide +kernel) rfl rfl (.site hstack) (by decide +kernel)

theorem memo_wrapped_marked : Wrapped memoValue [⟨.nonNullExpression, 0⟩] memoPlain memoMarked := by
  have hcall : Node.readsLike memoPlain.source memoMarked.source 5 (memoCall 25) (memoCall 25) = true := by
    decide +kernel
  have hchildren : markedCall.children = [] ++ memoCall 25 :: [markNode 41 42] := rfl
  have hwraps : Layer.Wraps ⟨.nonNullExpression, 0⟩ markedCall (memoCall 25) :=
    .leading rfl (by decide) hchildren rfl (by decide)
  have hstack := Stack.wrap (.core (Node.readsLike_sound hcall)) rfl (by decide) hwraps
  refine ⟨memo_holdsValue, ⟨rfl, rfl⟩, .of_readsLike 1 (by decide +kernel) rfl rfl ?_ (by decide +kernel)⟩
  exact .of_readsLike 1 (by decide +kernel) rfl rfl (.site hstack) (by decide +kernel)

/-- The description of the component of a module. -/
def descriptionOf? (program : Place) : Option String :=
  (resolve program (.ofProgram program)).toOption.map fun d => (document program (.ofProgram program) d).description

theorem exists_of_descriptionOf? {program : Place} {text : String} (h : descriptionOf? program = some text) :
    ∃ d, resolve program (.ofProgram program) = .ok d ∧
      (document program (.ofProgram program) d).description = text := by
  unfold descriptionOf? at h
  cases hr : resolve program (.ofProgram program) with
  | error e => simp [hr, Except.toOption] at h
  | ok d => exact ⟨d, rfl, by simpa [hr, Except.toOption] using h⟩

theorem memo_described : descriptionOf? memoPlain = some "D." := by decide +kernel

/-- Parentheses hand the comment on. -/
theorem parentheses_keep_comment :
    Wrapped memoValue [⟨.parenthesizedExpression, 1⟩] memoPlain memoParenthesized ∧
      ∃ d d', resolve memoPlain (.ofProgram memoPlain) = .ok d ∧
        resolve memoParenthesized (.ofProgram memoParenthesized) = .ok d' ∧
        (document memoPlain (.ofProgram memoPlain) d).description = "D." ∧
        document memoParenthesized (.ofProgram memoParenthesized) d' =
          document memoPlain (.ofProgram memoPlain) d := by
  obtain ⟨d, hd, htext⟩ := exists_of_descriptionOf? memo_described
  have h := wrapped_value_documented memo_wrapped_parenthesized
  rw [hd] at h
  obtain ⟨d', hd', _, hkept⟩ := h
  exact ⟨memo_wrapped_parenthesized, d, d', hd, hd', htext, hkept (.inl rfl)⟩

/-- A mark behind the value hides the comment before it. -/
theorem mark_hides_comment :
    Wrapped memoValue [⟨.nonNullExpression, 0⟩] memoPlain memoMarked ∧
      ∃ d d', resolve memoPlain (.ofProgram memoPlain) = .ok d ∧
        resolve memoMarked (.ofProgram memoMarked) = .ok d' ∧
        (document memoPlain (.ofProgram memoPlain) d).description = "D." ∧
        (document memoMarked (.ofProgram memoMarked) d').description = "" := by
  have hempty : descriptionOf? memoMarked = some "" := by decide +kernel
  obtain ⟨d, hd, htext⟩ := exists_of_descriptionOf? memo_described
  obtain ⟨d', hd', htext'⟩ := exists_of_descriptionOf? hempty
  exact ⟨memo_wrapped_marked, d, d', hd, hd', htext, htext'⟩

end ReactCatalog
