import ReactCatalog.Files.Draft
import ReactCatalog.Proofs.Dictionary

/-!
# Locations in a file tree

What `Entry.alter` does, seen through `Entry.find?`: the entry at the location is the new one, and every other
entry, taken without what is below it, stays as it was. A walk sees even less of an entry than that, its
`outline`, and so two trees with the same outlines have the same walks (`Alike.walk`).
-/

namespace ReactCatalog

namespace Entry

/-! ## Children -/

theorem lookup_setChild_self (n : Name) (e : Entry) (children : List (Name × Entry)) :
    List.lookup n (setChild n e children) = some e := by
  induction children with
  | nil => simp [setChild]
  | cons c rest ih =>
    obtain ⟨k, x⟩ := c
    by_cases h : k = n
    · simp [setChild, h]
    · simp [setChild, h, lookup_cons_ite, Ne.symm h, ih]

theorem lookup_setChild_of_ne {m n : Name} (hne : m ≠ n) (e : Entry) (children : List (Name × Entry)) :
    List.lookup m (setChild n e children) = List.lookup m children := by
  induction children with
  | nil => simp [setChild, lookup_cons_ite, hne]
  | cons c rest ih =>
    obtain ⟨k, x⟩ := c
    by_cases h : k = n
    · simp [setChild, h, lookup_cons_ite, hne]
    · simp [setChild, h, lookup_cons_ite, ih]

theorem setChild_setChild (n : Name) (e e' : Entry) (children : List (Name × Entry)) :
    setChild n e' (setChild n e children) = setChild n e' children := by
  induction children with
  | nil => simp [setChild]
  | cons c rest ih =>
    by_cases h : c.1 = n
    · simp [setChild, h]
    · simp [setChild, h, ih]

theorem setChild_eq_self {n : Name} {e : Entry} {children : List (Name × Entry)}
    (h : List.lookup n children = some e) : setChild n e children = children := by
  induction children with
  | nil => simp at h
  | cons c rest ih =>
    obtain ⟨k, x⟩ := c
    rw [lookup_cons_ite] at h
    by_cases hk : k = n
    · simp only [hk, if_true, Option.some.injEq] at h
      simp [setChild, hk, h]
    · rw [if_neg (Ne.symm hk)] at h
      simp [setChild, hk, ih h]

/-- A new name goes to the end, so taking it away gives back the list. -/
theorem filter_setChild (n : Name) (e : Entry) (children : List (Name × Entry)) :
    (setChild n e children).filter (fun c => c.1 != n) = children.filter fun c => c.1 != n := by
  induction children with
  | nil => simp [setChild]
  | cons c rest ih =>
    by_cases h : c.1 = n
    · simp [setChild, h]
    · simp [setChild, h, ih]

theorem filter_eq_self_of_lookup {n : Name} {children : List (Name × Entry)}
    (h : List.lookup n children = none) : children.filter (fun c => c.1 != n) = children := by
  rw [List.filter_eq_self]
  intro c hc
  have hn := List.lookup_eq_none_iff.1 h c hc
  simpa [bne, Bool.beq_comm] using hn

theorem lookup_filter_of_ne {m n : Name} (hne : m ≠ n) (children : List (Name × Entry)) :
    List.lookup m (children.filter fun c => c.1 != n) = List.lookup m children := by
  induction children with
  | nil => rfl
  | cons c rest ih =>
    obtain ⟨k, x⟩ := c
    by_cases h : k = n
    · simp [h, lookup_cons_ite, hne, ih]
    · simp [h, lookup_cons_ite, ih]

theorem lookup_filter_self (n : Name) (children : List (Name × Entry)) :
    List.lookup n (children.filter fun c => c.1 != n) = none := by
  rw [List.lookup_eq_none_iff]
  intro c hc
  have hn := (List.mem_filter.1 hc).2
  simpa [bne, Bool.beq_comm] using hn

theorem lookup_putChild_self (n : Name) (e : Option Entry) (children : List (Name × Entry)) :
    List.lookup n (putChild n e children) = e := by
  cases e with
  | none => exact lookup_filter_self n children
  | some e => exact lookup_setChild_self n e children

theorem lookup_putChild_of_ne {m n : Name} (hne : m ≠ n) (e : Option Entry) (children : List (Name × Entry)) :
    List.lookup m (putChild n e children) = List.lookup m children := by
  cases e with
  | none => exact lookup_filter_of_ne hne children
  | some e => exact lookup_setChild_of_ne hne e children

/-! ## What is at a location -/

theorem find?_append (e : Entry) (above below : Trail) :
    e.find? (above ++ below) = (e.find? above).bind fun x => x.find? below := by
  induction above generalizing e with
  | nil => rfl
  | cons n rest ih =>
    cases e with
    | file bytes m => rfl
    | link target => rfl
    | directory m children =>
      cases h : List.lookup n children with
      | none => simp [find?, h]
      | some x => simp [find?, h, ih]

/-- Changing a location changes what is there, if its parent is a directory. -/
theorem find?_alter_self (f : Option Entry → Option Entry) {e : Entry} {here : Trail} {n : Name} {m : Nat}
    {children : List (Name × Entry)} (hd : e.find? here = some (.directory m children)) :
    (e.alter f (here ++ [n])).find? (here ++ [n]) = f (e.find? (here ++ [n])) := by
  induction here generalizing e with
  | nil =>
    cases hd
    simp [alter, find?, lookup_putChild_self]
  | cons k rest ih =>
    cases e with
    | file bytes m => cases hd
    | link target => cases hd
    | directory m' children' =>
      cases hk : List.lookup k children' with
      | none => simp [find?, hk] at hd
      | some x =>
        simp only [find?, hk, Option.bind_some] at hd
        cases hr : rest ++ [n] with
        | nil => simp at hr
        | cons k' rest' =>
          have hi := ih hd
          rw [hr] at hi
          simp [alter, find?, hr, hk, lookup_setChild_self, hi]

/-- The entry by itself, without what is below it. -/
def alone : Entry → Entry
  | .directory m _ => .directory m []
  | e => e

/-- Changing a location leaves every entry that is neither there nor below it. -/
theorem alone_find?_alter (f : Option Entry → Option Entry) (e : Entry) {place trail : Trail}
    (hne : ¬ place <+: trail) : ((e.alter f place).find? trail).map alone = (e.find? trail).map alone := by
  fun_induction alter f e place generalizing trail with
  | case1 m children n =>
    cases trail with
    | nil => rfl
    | cons k rest =>
      have hk : k ≠ n := by
        intro hk
        exact hne ⟨rest, by simp [hk]⟩
      simp [find?, lookup_putChild_of_ne hk]
  | case2 m children n below hb x hx ih =>
    cases trail with
    | nil => rfl
    | cons k rest =>
      by_cases hk : k = n
      · subst hk
        have hr : ¬ below <+: rest := by
          rintro ⟨more, hm⟩
          exact hne ⟨more, by simp [hm]⟩
        simpa [find?, hx, lookup_setChild_self] using ih hr
      · simp [find?, lookup_setChild_of_ne hk]
  | case3 m children n below hb hx => rfl
  | case4 e place h₁ h₂ => rfl

/-- Of two changes of a location the second counts, if the first puts an entry there. -/
theorem alter_alter_some (g : Option Entry → Option Entry) (x e : Entry) (place : Trail) :
    (e.alter (fun _ => some x) place).alter g place = e.alter (fun _ => g (some x)) place := by
  fun_induction alter (fun _ => some x) e place with
  | case1 m children n =>
    simp only [alter, lookup_putChild_self]
    cases g (some x) with
    | none => simp [putChild, filter_setChild]
    | some y => simp [putChild, setChild_setChild]
  | case2 m children n below hb y hy ih =>
    cases below with
    | nil => exact absurd rfl hb
    | cons k rest => simp [alter, hy, lookup_setChild_self, setChild_setChild, ih]
  | case3 m children n below hb hy =>
    cases below with
    | nil => exact absurd rfl hb
    | cons k rest => simp [alter, hy]
  | case4 place e h₁ h₂ =>
    cases e with
    | file bytes m => simp [alter]
    | link target => simp [alter]
    | directory m children =>
      cases place with
      | nil => rfl
      | cons n below => exact absurd rfl (h₂ m children n below rfl)

/-- Taking away what is not there changes nothing. -/
theorem alter_none_of_absent {e : Entry} {place : Trail} (h : e.find? place = none) :
    e.alter (fun _ => none) place = e := by
  fun_induction alter (fun _ => none) e place with
  | case1 m children n =>
    have hn : List.lookup n children = none := by simpa [find?] using h
    simp [putChild, filter_eq_self_of_lookup hn]
  | case2 m children n below hb x hx ih =>
    have hi : x.find? below = none := by simpa [find?, hx] using h
    rw [ih hi, setChild_eq_self hx]
  | case3 m children n below hb hx => rfl
  | case4 e place h₁ h₂ => rfl

/-- As much of an entry as a walk through it sees: what it is, and where a link leads. -/
def outline : Entry → Entry
  | .file _ _ => .file [] 0
  | .directory _ _ => .directory 0 []
  | .link target => .link target

theorem outline_alone (e : Entry) : e.alone.outline = e.outline := by
  cases e <;> rfl

end Entry

namespace FileTree

/-- The entry at a location, without what is below it. -/
def entryAt? (t : FileTree) (here : Trail) : Option Entry := (t.top.find? here).map Entry.alone

/-- What a walk sees of a location. -/
def outlineAt? (t : FileTree) (here : Trail) : Option Entry := (t.top.find? here).map Entry.outline

theorem outlineAt?_eq_entryAt? (t : FileTree) (here : Trail) :
    t.outlineAt? here = (t.entryAt? here).map Entry.outline := by
  unfold outlineAt? entryAt?
  cases t.top.find? here with
  | none => rfl
  | some e => simp [Entry.outline_alone]

theorem isDirectoryAt_iff (t : FileTree) (here : Trail) :
    t.isDirectoryAt here = true ↔ t.outlineAt? here = some (.directory 0 []) := by
  unfold isDirectoryAt outlineAt?
  cases t.top.find? here with
  | none => simp
  | some e => cases e <;> simp [Entry.outline]

theorem isDirectoryAt_congr {t t' : FileTree} {here here' : Trail}
    (h : t.outlineAt? here = t'.outlineAt? here') : t.isDirectoryAt here = t'.isDirectoryAt here' := by
  rw [Bool.eq_iff_iff, isDirectoryAt_iff, isDirectoryAt_iff, h]

theorem exists_of_isDirectoryAt {t : FileTree} {here : Trail} (h : t.isDirectoryAt here = true) :
    ∃ m children, t.top.find? here = some (.directory m children) := by
  unfold isDirectoryAt at h
  split at h
  · next m children heq => exact ⟨m, children, heq⟩
  · cases h

/-! ## Walks -/

/-- A move depends on two outlines only. -/
theorem move_congr {t t' : FileTree} {here : Trail} {n : Name}
    (hd : t.isDirectoryAt here = t'.isDirectoryAt here)
    (ho : t.outlineAt? (here ++ [n]) = t'.outlineAt? (here ++ [n])) : t.move here n = t'.move here n := by
  simp only [move, hd]
  unfold outlineAt? at ho
  cases hx : t.top.find? (here ++ [n]) with
  | none =>
    cases hy : t'.top.find? (here ++ [n]) with
    | none => rfl
    | some y => simp [hx, hy] at ho
  | some x =>
    cases hy : t'.top.find? (here ++ [n]) with
    | none => simp [hx, hy] at ho
    | some y => cases x <;> cases y <;> simp_all [Entry.outline]

theorem move_of_not_directory {t : FileTree} {here : Trail} (h : t.isDirectoryAt here = false) (n : Name) :
    t.move here n = .lost .notDirectory := by
  simp [move, h]

/-- A move keeps to names with the property `ok`. -/
def Move.Keeps (ok : Name → Prop) : Move → Prop
  | .arrive next => ∀ n ∈ next, ok n
  | .follow next pieces => (∀ n ∈ next, ok n) ∧ ∀ n ∈ pieces, ok n
  | .lost _ => True

/-- Two trees look the same to every walk that keeps to names with the property `ok`. -/
structure Alike (ok : Name → Prop) (t t' : FileTree) : Prop where
  outline : ∀ here, (∀ n ∈ here, ok n) → t.outlineAt? here = t'.outlineAt? here
  link : ∀ here target, t.outlineAt? here = some (.link target) → ∀ n ∈ Path.segments target.bytes, ok n
  start_eq : t.workingDirectory = t'.workingDirectory
  start_ok : ∀ n ∈ t.workingDirectory, ok n

namespace Alike

variable {ok : Name → Prop} {t t' : FileTree}

theorem append_ok {here : Trail} {n : Name} (hh : ∀ k ∈ here, ok k) (hn : ok n) : ∀ k ∈ here ++ [n], ok k := by
  intro k hk
  rcases List.mem_append.1 hk with hk | hk
  · exact hh k hk
  · rw [List.mem_singleton.1 hk]
    exact hn

/-- One piece does the same in both trees. -/
theorem move (h : Alike ok t t') {here : Trail} {n : Name} (hh : ∀ k ∈ here, ok k) (hn : ok n) :
    t.move here n = t'.move here n :=
  move_congr (isDirectoryAt_congr (h.outline here hh)) (h.outline (here ++ [n]) (append_ok hh hn))

theorem move_keeps (h : Alike ok t t') {here : Trail} {n : Name} (hh : ∀ k ∈ here, ok k) (hn : ok n) :
    (t.move here n).Keeps ok := by
  unfold FileTree.move
  split
  · trivial
  split
  · exact hh
  split
  · exact fun k hk => hh k (List.dropLast_subset here hk)
  cases hx : t.top.find? (here ++ [n]) with
  | none => trivial
  | some x =>
    cases x with
    | file bytes m => exact append_ok hh hn
    | directory m children => exact append_ok hh hn
    | link target =>
      refine ⟨?_, h.link (here ++ [n]) target (by simp [outlineAt?, hx, Entry.outline])⟩
      split
      · simp
      · exact hh

private theorem walkWith (h : Alike ok t t') {follow follow' : Trail → List Name → Except ReadError Trail}
    (hf : ∀ here pieces, (∀ n ∈ here, ok n) → (∀ n ∈ pieces, ok n) →
      follow here pieces = follow' here pieces ∧ ∀ last, follow here pieces = .ok last → ∀ n ∈ last, ok n)
    (here : Trail) (pieces : List Name) (hh : ∀ n ∈ here, ok n) (hp : ∀ n ∈ pieces, ok n) :
    t.walkWith follow here pieces = t'.walkWith follow' here pieces ∧
      ∀ last, t.walkWith follow here pieces = .ok last → ∀ n ∈ last, ok n := by
  induction pieces generalizing here with
  | nil =>
    refine ⟨rfl, ?_⟩
    intro last hl
    cases hl
    exact hh
  | cons n rest ih =>
    have hn : ok n := hp n (by simp)
    have hr : ∀ k ∈ rest, ok k := fun k hk => hp k (List.mem_cons_of_mem _ hk)
    have hm := h.move_keeps hh hn
    simp only [FileTree.walkWith, ← h.move hh hn]
    cases hv : t.move here n with
    | lost cause => exact ⟨rfl, fun last hl => by cases hl⟩
    | arrive next =>
      rw [hv] at hm
      exact ih next hm hr
    | follow next more =>
      rw [hv] at hm
      apply hf _ _ hm.1
      intro k hk
      rcases List.mem_append.1 hk with hk | hk
      · exact hm.2 k hk
      · exact hr k hk

/-- The walks are the same, and keep to good names. -/
theorem walk (h : Alike ok t t') (links : Nat) (here : Trail) (pieces : List Name) (hh : ∀ n ∈ here, ok n)
    (hp : ∀ n ∈ pieces, ok n) :
    t.walk links here pieces = t'.walk links here pieces ∧
      ∀ last, t.walk links here pieces = .ok last → ∀ n ∈ last, ok n := by
  induction links generalizing here pieces with
  | zero => exact h.walkWith (fun _ _ _ _ => ⟨rfl, fun _ hl => by cases hl⟩) here pieces hh hp
  | succ links ih => exact h.walkWith ih here pieces hh hp

theorem start (h : Alike ok t t') (p : Path) : t.start p = t'.start p := by
  simp [FileTree.start, h.start_eq]

theorem mem_start (h : Alike ok t t') (p : Path) : ∀ n ∈ t.start p, ok n := by
  unfold FileTree.start
  split
  · simp
  · exact h.start_ok

theorem locate (h : Alike ok t t') {p : Path} (hp : ∀ n ∈ Path.segments p.bytes, ok n) :
    t.locate p = t'.locate p ∧ ∀ last, t.locate p = .ok last → ∀ n ∈ last, ok n := by
  unfold FileTree.locate
  split
  · exact ⟨rfl, fun last hl => by cases hl⟩
  · rw [← h.start p]
    exact h.walk linkLimit (t.start p) _ (h.mem_start p) hp

theorem target? (h : Alike ok t t') {p : Path} (hp : ∀ n ∈ Path.segments p.bytes, ok n) :
    t.target? p = t'.target? p ∧ ∀ last, t.target? p = some last → ∀ n ∈ last, ok n := by
  have hd : ∀ n ∈ (Path.segments p.bytes).dropLast, ok n := fun n hn => hp n (List.dropLast_subset _ hn)
  obtain ⟨hw, ho⟩ := h.walk linkLimit (t.start p) _ (h.mem_start p) hd
  simp only [FileTree.target?, ← h.start p, ← hw]
  cases hl : (Path.segments p.bytes).getLast? with
  | none => simp
  | some n =>
    have hn : ok n := hp n (List.mem_of_getLast? hl)
    simp only [Option.bind_eq_bind, Option.bind_some]
    split
    · simp
    cases hr : t.walk linkLimit (t.start p) (Path.segments p.bytes).dropLast with
    | error e => simp
    | ok here =>
      have hh := ho here hr
      simp only [← isDirectoryAt_congr (h.outline here hh)]
      refine ⟨trivial, ?_⟩
      intro last hs
      split at hs
      · cases hs
        exact append_ok hh hn
      · cases hs

end Alike

end FileTree

end ReactCatalog
