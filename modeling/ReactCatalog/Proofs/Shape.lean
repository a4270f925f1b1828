import ReactCatalog.Catalog.Candidates
import ReactCatalog.Proofs.Writing

/-!
# Trees of one shape

Two trees have the same shape if they differ in the bytes of files at most. Where a path leads, which files are
candidates and whether a file can be written depend on the shape alone (`SameShape.locate`,
`SameShape.collectCandidates`, `SameShape.write`).
-/

namespace ReactCatalog

namespace Entry

mutual

/-- The entry with all its files empty. -/
def shape : Entry → Entry
  | .file _ m => .file [] m
  | .directory m children => .directory m (shapes children)
  | .link target => .link target

def shapes : List (Name × Entry) → List (Name × Entry)
  | [] => []
  | (n, e) :: rest => (n, e.shape) :: shapes rest

end

theorem lookup_shapes (n : Name) (children : List (Name × Entry)) :
    List.lookup n (shapes children) = (List.lookup n children).map shape := by
  induction children with
  | nil => rfl
  | cons c rest ih =>
    obtain ⟨k, e⟩ := c
    simp only [shapes, lookup_cons_ite, ih]
    split <;> rfl

theorem find?_shape (e : Entry) (trail : Trail) : e.shape.find? trail = (e.find? trail).map shape := by
  induction trail generalizing e with
  | nil => simp [find?]
  | cons n rest ih =>
    cases e with
    | file bytes m => simp [shape, find?]
    | link target => simp [shape, find?]
    | directory m children =>
      simp only [shape, find?, lookup_shapes]
      cases List.lookup n children with
      | none => rfl
      | some x => simp [ih]

theorem outline_shape (e : Entry) : e.shape.outline = e.outline := by
  cases e <;> simp [shape, outline]

theorem shapes_setChild {n : Name} {x y : Entry} {children : List (Name × Entry)}
    (hx : List.lookup n children = some x) (hy : y.shape = x.shape) :
    shapes (setChild n y children) = shapes children := by
  induction children with
  | nil => simp at hx
  | cons c rest ih =>
    obtain ⟨k, e⟩ := c
    rw [lookup_cons_ite] at hx
    by_cases hk : k = n
    · simp only [hk, if_true, Option.some.injEq] at hx
      simp [setChild, hk, shapes, hy, hx]
    · rw [if_neg (Ne.symm hk)] at hx
      simp [setChild, hk, shapes, ih hx]

/-- A change that keeps the shape of what it changes keeps the shape of the whole. -/
theorem shape_alter {f : Entry → Entry} (hf : ∀ e, (f e).shape = e.shape) (e : Entry) (place : Trail) :
    (e.alter (Option.map f) place).shape = e.shape := by
  fun_induction alter (Option.map f) e place with
  | case1 m children n =>
    cases hx : List.lookup n children with
    | none => simp [putChild, filter_eq_self_of_lookup hx]
    | some x => simp [putChild, shape, shapes_setChild hx (hf x)]
  | case2 m children n below hb x hx ih => simp [shape, shapes_setChild hx ih]
  | case3 m children n below hb hx => rfl
  | case4 e place h₁ h₂ => rfl

/-- The entry with other bytes, if it is a file. -/
def withBytes (bytes : List UInt8) : Entry → Entry
  | .file _ m => .file bytes m
  | e => e

theorem shape_withBytes (bytes : List UInt8) (e : Entry) : (e.withBytes bytes).shape = e.shape := by
  cases e <;> simp [withBytes, shape]

theorem find?_withBytes (bytes : List UInt8) (e : Entry) (n : Name) (rest : Trail) :
    (e.withBytes bytes).find? (n :: rest) = e.find? (n :: rest) := by
  cases e <;> rfl

/-- Other bytes in one file leave every other entry. -/
theorem alone_find?_withBytes (bytes : List UInt8) (e : Entry) {place trail : Trail} (hne : trail ≠ place) :
    ((e.alter (Option.map (withBytes bytes)) place).find? trail).map alone = (e.find? trail).map alone := by
  fun_induction alter (Option.map (withBytes bytes)) e place generalizing trail with
  | case1 m children n =>
    cases trail with
    | nil => rfl
    | cons k below =>
      by_cases hk : k = n
      · subst hk
        cases below with
        | nil => exact absurd rfl hne
        | cons k' rest =>
          cases hx : List.lookup k children with
          | none => simp [find?, hx, putChild, filter_eq_self_of_lookup hx]
          | some x => simp [find?, hx, putChild, lookup_setChild_self, find?_withBytes]
      · simp [find?, lookup_putChild_of_ne hk]
  | case2 m children n below hb x hx ih =>
    cases trail with
    | nil => rfl
    | cons k rest =>
      by_cases hk : k = n
      · subst hk
        have hr : rest ≠ below := by
          rintro rfl
          exact hne rfl
        simpa [find?, hx, lookup_setChild_self] using ih hr
      · simp [find?, lookup_setChild_of_ne hk]
  | case3 m children n below hb hx => rfl
  | case4 e place h₁ h₂ => rfl

/-- The bytes and the mode of a file. -/
def contents? : Entry → Option (List UInt8 × Nat)
  | .file bytes m => some (bytes, m)
  | _ => none

mutual

theorem entriesBelow_shapes (recursive : Bool) (above : Path) (children : List (Name × Entry)) :
    entriesBelow recursive above (shapes children) = entriesBelow recursive above children := by
  match children with
  | [] => simp [shapes]
  | (n, e) :: rest =>
    simp only [shapes, entriesBelow]
    rw [entriesOf_shape recursive (above.join ⟨n⟩) n e, entriesBelow_shapes recursive above rest]

theorem entriesOf_shape (recursive : Bool) (p : Path) (n : Name) (e : Entry) :
    entriesOf recursive p n e.shape = entriesOf recursive p n e := by
  match e with
  | .file bytes m => simp [shape, entriesOf]
  | .link target => simp [shape, entriesOf]
  | .directory m children => simp only [shape, entriesOf, entriesBelow_shapes recursive p children]

end

end Entry

namespace FileTree

/-- The trees differ in the bytes of files at most. -/
structure SameShape (t t' : FileTree) : Prop where
  top : t.top.shape = t'.top.shape
  start : t.workingDirectory = t'.workingDirectory

namespace SameShape

variable {t t' : FileTree}

theorem find? (h : SameShape t t') (here : Trail) :
    (t.top.find? here).map Entry.shape = (t'.top.find? here).map Entry.shape := by
  rw [← Entry.find?_shape, ← Entry.find?_shape, h.top]

theorem outlineAt? (h : SameShape t t') (here : Trail) : t.outlineAt? here = t'.outlineAt? here := by
  have ho : ∀ x : Option Entry, x.map Entry.outline = (x.map Entry.shape).map Entry.outline := by
    intro x
    cases x with
    | none => rfl
    | some e => simp [Entry.outline_shape]
  unfold FileTree.outlineAt?
  rw [ho, ho (t'.top.find? here), h.find? here]

theorem alike (h : SameShape t t') : Alike (fun _ => True) t t' where
  outline here _ := h.outlineAt? here
  link _ _ _ _ _ := trivial
  start_eq := h.start
  start_ok _ _ := trivial

theorem isDirectoryAt (h : SameShape t t') (here : Trail) : t.isDirectoryAt here = t'.isDirectoryAt here :=
  isDirectoryAt_congr (h.outlineAt? here)

theorem locate (h : SameShape t t') (p : Path) : t.locate p = t'.locate p :=
  (h.alike.locate fun _ _ => trivial).1

theorem target? (h : SameShape t t') (p : Path) : t.target? p = t'.target? p :=
  (h.alike.target? fun _ _ => trivial).1

theorem find (h : SameShape t t') (p : Path) : (t.find p).map Entry.shape = (t'.find p).map Entry.shape := by
  unfold FileTree.find
  rw [← h.locate p]
  cases t.locate p with
  | error e => rfl
  | ok here =>
    have hf := h.find? here
    cases hx : t.top.find? here <;> cases hy : t'.top.find? here <;>
      simp_all [bind, Except.bind, Except.map, pure, Except.pure]

/-- What a path leads to in both trees: nothing, for the same reason, or entries of the same sort. -/
theorem find_cases (h : SameShape t t') (p : Path) :
    (∃ e, t.find p = .error e ∧ t'.find p = .error e) ∨
      (∃ bytes bytes' m, t.find p = .ok (.file bytes m) ∧ t'.find p = .ok (.file bytes' m)) ∨
      (∃ m children children', t.find p = .ok (.directory m children) ∧ t'.find p = .ok (.directory m children') ∧
        Entry.shapes children = Entry.shapes children') ∨
      ∃ target, t.find p = .ok (.link target) ∧ t'.find p = .ok (.link target) := by
  have hf := h.find p
  cases hx : t.find p with
  | error e =>
    cases hy : t'.find p with
    | error e' => simp_all [Except.map]
    | ok y => simp [hx, hy, Except.map] at hf
  | ok x =>
    cases hy : t'.find p with
    | error e' => simp [hx, hy, Except.map] at hf
    | ok y =>
      rw [hx, hy] at hf
      simp only [Except.map, Except.ok.injEq] at hf
      cases x with
      | file bytes m =>
        cases y <;> simp only [Entry.shape, Entry.file.injEq, reduceCtorEq, true_and] at hf
        subst hf
        exact .inr (.inl ⟨_, _, _, rfl, rfl⟩)
      | directory m children =>
        cases y <;> simp only [Entry.shape, Entry.directory.injEq, reduceCtorEq] at hf
        obtain ⟨rfl, hs⟩ := hf
        exact .inr (.inr (.inl ⟨_, _, _, rfl, rfl, hs⟩))
      | link target =>
        cases y <;> simp only [Entry.shape, Entry.link.injEq, reduceCtorEq] at hf
        subst hf
        exact .inr (.inr (.inr ⟨_, rfl, rfl⟩))

theorem isFile (h : SameShape t t') (p : Path) : t.isFile p = t'.isFile p := by
  unfold FileTree.isFile
  rcases h.find_cases p with ⟨e, hx, hy⟩ | ⟨b, b', m, hx, hy⟩ | ⟨m, cs, cs', hx, hy, _⟩ | ⟨target, hx, hy⟩ <;>
    rw [hx, hy]

theorem isDirectory (h : SameShape t t') (p : Path) : t.isDirectory p = t'.isDirectory p := by
  unfold FileTree.isDirectory
  rcases h.find_cases p with ⟨e, hx, hy⟩ | ⟨b, b', m, hx, hy⟩ | ⟨m, cs, cs', hx, hy, _⟩ | ⟨target, hx, hy⟩ <;>
    rw [hx, hy]

theorem entriesUnder (h : SameShape t t') (recursive : Bool) (root : Path) :
    entriesUnder t recursive root = entriesUnder t' recursive root := by
  unfold ReactCatalog.entriesUnder
  rcases h.find_cases root with ⟨e, hx, hy⟩ | ⟨b, b', m, hx, hy⟩ | ⟨m, cs, cs', hx, hy, hs⟩ | ⟨target, hx, hy⟩
  · rw [hx, hy]
  · rw [hx, hy]
  · rw [hx, hy]
    dsimp only
    rw [← Entry.entriesBelow_shapes, hs, Entry.entriesBelow_shapes]
  · rw [hx, hy]

theorem candidate? (h : SameShape t t') (filter : CandidateFilter) (root p : Path) :
    candidate? t filter root p = candidate? t' filter root p := by
  unfold ReactCatalog.candidate?
  rw [h.isFile p]

theorem collectCandidates (h : SameShape t t') (filter : CandidateFilter) (root : Path) :
    collectCandidates t filter root = collectCandidates t' filter root := by
  unfold ReactCatalog.collectCandidates
  rw [h.entriesUnder, funext (h.candidate? filter root)]

/-- Whether a draft can be made. -/
theorem create? (h : SameShape t t') (p : Path) :
    (Draft.create? t p).isSome = (Draft.create? t' p).isSome := by
  unfold Draft.create?
  rw [← h.locate]
  cases t.locate (Draft.directoryOf p) with
  | error e => rfl
  | ok here =>
    simp only [← h.isDirectoryAt here]
    split <;> rfl

/-- Whether a file can be written, whatever is to be written. -/
theorem write (h : SameShape t t') (p : Path) (bytes bytes' : List UInt8) (faults : Faults) :
    (t.write p bytes faults).1 = none ↔ (t'.write p bytes' faults).1 = none := by
  simp only [write_succeeds_iff, h.create? p, h.target? p, h.isDirectoryAt]

end SameShape

/-! ## One file with other bytes -/

/-- The tree with other bytes in the file at a location. -/
def withBytes (t : FileTree) (place : Trail) (bytes : List UInt8) : FileTree :=
  { t with top := t.top.alter (Option.map (Entry.withBytes bytes)) place }

theorem sameShape_withBytes (t : FileTree) (place : Trail) (bytes : List UInt8) :
    SameShape t (t.withBytes place bytes) :=
  ⟨(Entry.shape_alter (Entry.shape_withBytes bytes) t.top place).symm, rfl⟩

/-- The file that a path leads to, by what is at its location. -/
theorem file?_of_locate {t : FileTree} {p : Path} {here : Trail} (h : t.locate p = .ok here) :
    t.file? p = (t.entryAt? here).bind Entry.contents? := by
  unfold file? find entryAt?
  rw [h]
  cases hx : t.top.find? here with
  | none => simp [bind, Except.bind, hx, throw, throwThe, MonadExceptOf.throw]
  | some e => cases e <;> simp [bind, Except.bind, pure, Except.pure, hx, Entry.alone, Entry.contents?]

/-- Other files are left. -/
theorem file?_withBytes {t : FileTree} {p : Path} {place : Trail} (hne : t.locate p ≠ .ok place)
    (bytes : List UInt8) : (t.withBytes place bytes).file? p = t.file? p := by
  have hl := (sameShape_withBytes t place bytes).locate p
  cases hp : t.locate p with
  | error e => simp [file?, find, ← hl, hp, bind, Except.bind]
  | ok here =>
    have hh : here ≠ place := by
      rintro rfl
      exact hne hp
    have he : (t.withBytes place bytes).entryAt? here = t.entryAt? here :=
      Entry.alone_find?_withBytes bytes t.top hh
    rw [file?_of_locate hp, file?_of_locate (hl ▸ hp), he]

end FileTree

end ReactCatalog
