import ReactCatalog.Proofs.FileTree

/-!
# Going down from a path

Names joined to a path lead down from what the path leads to: the parts of the new path are those of the old one with
the names after them (`Path.parts_descend`), and its walk goes on from where the old one ended
(`FileTree.locate_descend`). Through real directories it arrives (`FileTree.walk_names`).
-/

namespace ReactCatalog

namespace Path

/-- A name that an entry of a directory can have. -/
structure IsName (n : Name) : Prop where
  ne_nil : n ≠ []
  no_slash : slash ∉ n
  ne_dot : n ≠ [dot]
  ne_dots : n ≠ [dot, dot]

instance (n : Name) : Decidable (IsName n) :=
  decidable_of_iff (n ≠ [] ∧ slash ∉ n ∧ n ≠ [dot] ∧ n ≠ [dot, dot])
    ⟨fun ⟨h₁, h₂, h₃, h₄⟩ => ⟨h₁, h₂, h₃, h₄⟩, fun h => ⟨h.1, h.2, h.3, h.4⟩⟩

/-- The path with names joined to it one after the other. -/
def descend (p : Path) (names : Trail) : Path := names.foldl (fun q n => q.join ⟨n⟩) p

/-- The pieces of a path, without the empty one after a slash at its end. -/
def stem (p : Path) : List Name :=
  if p.bytes.getLast? = some slash then (segments p.bytes).dropLast else segments p.bytes

/-! ## Pieces -/

theorem segments_ne_nil (bytes : List UInt8) : segments bytes ≠ [] := by
  cases bytes with
  | nil => simp [segments]
  | cons b rest =>
    unfold segments
    split
    · simp
    · split <;> simp

theorem segments_append (a b : List UInt8) : segments (a ++ slash :: b) = segments a ++ segments b := by
  induction a with
  | nil => simp [segments]
  | cons c rest ih =>
    rw [List.cons_append, segments, segments, ih]
    split
    · rfl
    · cases hs : segments rest with
      | nil => exact absurd hs (segments_ne_nil rest)
      | cons s more => rfl

theorem segments_of_no_slash {n : List UInt8} (h : slash ∉ n) : segments n = [n] := by
  induction n with
  | nil => rfl
  | cons b rest ih =>
    rw [List.mem_cons, not_or] at h
    rw [segments, if_neg (Ne.symm h.1), ih h.2]

/-- Nothing but an empty piece may be left out. -/
theorem segments_eq_stem (p : Path) : segments p.bytes = p.stem ∨ segments p.bytes = p.stem ++ [[]] := by
  unfold stem
  split
  · next h =>
    obtain ⟨a, ha⟩ := List.getLast?_eq_some_iff.1 h
    right
    rw [ha, segments_append]
    simp [segments]
  · exact .inl rfl

section

variable {p : Path} {n : Name}

theorem not_isAbsolute_of_isName (hn : IsName n) : (⟨n⟩ : Path).isAbsolute = false := by
  unfold isAbsolute
  cases hb : n.head? with
  | none => rfl
  | some b =>
    have hne : b ≠ slash := fun h => hn.no_slash (h ▸ List.mem_of_head? hb)
    simpa using hne

theorem bytes_join (hn : IsName n) :
    (p.join ⟨n⟩).bytes =
      if p.bytes = [] ∨ p.bytes.getLast? = some slash then p.bytes ++ n else p.bytes ++ slash :: n := by
  unfold join
  rw [if_neg (by simp [not_isAbsolute_of_isName hn])]
  simp only [List.isEmpty_iff]
  split <;> rfl

theorem segments_join (hp : p.bytes ≠ []) (hn : IsName n) : segments (p.join ⟨n⟩).bytes = p.stem ++ [n] := by
  rw [bytes_join hn]
  unfold stem
  by_cases hs : p.bytes.getLast? = some slash
  · rw [if_pos (.inr hs), if_pos hs]
    obtain ⟨a, ha⟩ := List.getLast?_eq_some_iff.1 hs
    rw [ha, List.append_assoc, List.singleton_append, segments_append, segments_append,
      segments_of_no_slash hn.no_slash]
    simp [segments]
  · rw [if_neg (by simp [hp, hs]), if_neg hs, segments_append, segments_of_no_slash hn.no_slash]

theorem getLast?_join (hn : IsName n) : (p.join ⟨n⟩).bytes.getLast? ≠ some slash := by
  have hb : n.getLast? = some (n.getLast hn.ne_nil) := List.getLast?_eq_some_getLast hn.ne_nil
  generalize n.getLast hn.ne_nil = b at hb
  have hlast : (p.join ⟨n⟩).bytes.getLast? = some b := by
    rw [bytes_join hn]
    split
    · rw [List.getLast?_append, hb]
      rfl
    · rw [List.getLast?_append, List.getLast?_cons, hb]
      rfl
  rw [hlast, ne_eq, Option.some.injEq]
  rintro rfl
  exact hn.no_slash (List.mem_of_getLast? hb)

theorem stem_join (hp : p.bytes ≠ []) (hn : IsName n) : (p.join ⟨n⟩).stem = p.stem ++ [n] := by
  rw [stem, if_neg (getLast?_join hn), segments_join hp hn]

theorem join_ne_nil (hn : IsName n) : (p.join ⟨n⟩).bytes ≠ [] := by
  rw [bytes_join hn]
  split <;> simp [hn.ne_nil]

theorem isAbsolute_join (hp : p.bytes ≠ []) (hn : IsName n) : (p.join ⟨n⟩).isAbsolute = p.isAbsolute := by
  obtain ⟨b, rest, hb⟩ := List.exists_cons_of_ne_nil hp
  unfold isAbsolute
  rw [bytes_join hn, hb]
  split <;> rfl

/-- An empty piece at the end is no part. -/
theorem parts_eq (p : Path) :
    p.parts = (if p.isAbsolute then [.root] else if p.stem.head? = some [dot] then [.here] else []) ++
      p.stem.filterMap partOf? := by
  have hpieces : (segments p.bytes).filterMap partOf? = p.stem.filterMap partOf? ∧
      ((segments p.bytes).head? = some [dot] ↔ p.stem.head? = some [dot]) := by
    rcases p.segments_eq_stem with hs | hs
    · simp [hs]
    · rw [hs, List.filterMap_append]
      cases p.stem with
      | nil => simp [partOf?]
      | cons s more => simp [partOf?]
  unfold parts
  simp only [hpieces.1, hpieces.2]
  split
  · rfl
  · split <;> rfl

theorem partOf?_of_isName (hn : IsName n) : partOf? n = some (.name n) := by
  simp [partOf?, hn.ne_nil, hn.ne_dot, hn.ne_dots]

theorem parts_join (hp : p.bytes ≠ []) (hn : IsName n) : (p.join ⟨n⟩).parts = p.parts ++ [.name n] := by
  have hhead : (p.stem ++ [n]).head? = some [dot] ↔ p.stem.head? = some [dot] := by
    cases p.stem with
    | nil => simp [hn.ne_dot]
    | cons s more => simp
  have hlast : [n].filterMap partOf? = [.name n] := by simp [partOf?_of_isName hn]
  rw [parts_eq, parts_eq, isAbsolute_join hp hn, stem_join hp hn, List.filterMap_append, List.append_assoc, hlast]
  simp only [hhead]

end

/-! ## Several names -/

section

variable {p : Path} {names : Trail}

theorem descend_nil : p.descend [] = p := rfl

theorem descend_cons (n : Name) : p.descend (n :: names) = (p.join ⟨n⟩).descend names := rfl

theorem stem_descend (hp : p.bytes ≠ []) (hn : ∀ n ∈ names, IsName n) : (p.descend names).stem = p.stem ++ names := by
  induction names generalizing p with
  | nil => rw [descend_nil, List.append_nil]
  | cons n rest ih =>
    obtain ⟨hname, hnames⟩ := List.forall_mem_cons.1 hn
    rw [descend_cons, ih (join_ne_nil hname) hnames, stem_join hp hname,
      List.append_assoc, List.singleton_append]

theorem segments_descend (hp : p.bytes ≠ []) (hn : ∀ n ∈ names, IsName n) (hne : names ≠ []) :
    segments (p.descend names).bytes = p.stem ++ names := by
  induction names generalizing p with
  | nil => exact absurd rfl hne
  | cons n rest ih =>
    obtain ⟨hname, hnames⟩ := List.forall_mem_cons.1 hn
    rw [descend_cons]
    by_cases hrest : rest = []
    · rw [hrest, descend_nil, segments_join hp hname]
    · rw [ih (join_ne_nil hname) hnames hrest, stem_join hp hname,
        List.append_assoc, List.singleton_append]

theorem isAbsolute_descend (hp : p.bytes ≠ []) (hn : ∀ n ∈ names, IsName n) :
    (p.descend names).isAbsolute = p.isAbsolute := by
  induction names generalizing p with
  | nil => rfl
  | cons n rest ih =>
    obtain ⟨hname, hnames⟩ := List.forall_mem_cons.1 hn
    rw [descend_cons, ih (join_ne_nil hname) hnames, isAbsolute_join hp hname]

theorem descend_ne_nil (hp : p.bytes ≠ []) (hn : ∀ n ∈ names, IsName n) : (p.descend names).bytes ≠ [] := by
  induction names generalizing p with
  | nil => exact hp
  | cons n rest ih =>
    obtain ⟨hname, hnames⟩ := List.forall_mem_cons.1 hn
    exact ih (join_ne_nil hname) hnames

/-- The names are parts of the path. -/
theorem parts_descend (hp : p.bytes ≠ []) (hn : ∀ n ∈ names, IsName n) :
    (p.descend names).parts = p.parts ++ names.map .name := by
  induction names generalizing p with
  | nil => rw [descend_nil, List.map_nil, List.append_nil]
  | cons n rest ih =>
    obtain ⟨hname, hnames⟩ := List.forall_mem_cons.1 hn
    rw [descend_cons, ih (join_ne_nil hname) hnames, parts_join hp hname,
      List.append_assoc, List.singleton_append, List.map_cons]

theorem partsBelow?_eq_some_iff {root : Path} {below : List Part} :
    partsBelow? root p = some below ↔ p.parts = root.parts ++ below := by
  unfold partsBelow?
  rw [Option.ite_none_right_eq_some, List.isPrefixOf_iff_prefix]
  constructor
  · rintro ⟨⟨rest, hrest⟩, hbelow⟩
    rw [← hrest, List.drop_left, Option.some.injEq] at hbelow
    rw [← hrest, hbelow]
  · intro h
    rw [h, List.drop_left]
    exact ⟨List.prefix_append _ _, rfl⟩

theorem partsBelow?_descend (hp : p.bytes ≠ []) (hn : ∀ n ∈ names, IsName n) :
    partsBelow? p (p.descend names) = some (names.map .name) :=
  partsBelow?_eq_some_iff.2 (parts_descend hp hn)

/-- Different names lead to different paths. -/
theorem descend_injective (hp : p.bytes ≠ []) {names' : Trail} (hn : ∀ n ∈ names, IsName n)
    (hn' : ∀ n ∈ names', IsName n) (h : p.descend names = p.descend names') : names = names' := by
  have hstem : p.stem ++ names = p.stem ++ names' := by rw [← stem_descend hp hn, ← stem_descend hp hn', h]
  exact List.append_cancel_left hstem

theorem fileName?_descend (hp : p.bytes ≠ []) (hn : ∀ n ∈ names, IsName n) (hne : names ≠ []) :
    (p.descend names).fileName? = names.getLast? := by
  have hlast : names.getLast? = some (names.getLast hne) := List.getLast?_eq_some_getLast hne
  unfold fileName?
  rw [parts_descend hp hn, List.getLast?_append, List.getLast?_map, hlast]
  rfl

end

end Path

/-! ## Walks -/

namespace FileTree

variable {t : FileTree}

theorem walk_nil (links : Nat) (here : Trail) : t.walk links here [] = .ok here := by
  cases links <;> rfl

theorem walk_arrive {here next : Trail} {n : Name} (h : t.move here n = .arrive next) (links : Nat)
    (rest : List Name) : t.walk links here (n :: rest) = t.walk links next rest := by
  cases links <;> simp [walk, walkWith, h]

theorem walk_lost {here : Trail} {n : Name} {cause : ReadError} (h : t.move here n = .lost cause) (links : Nat)
    (rest : List Name) : t.walk links here (n :: rest) = .error cause := by
  cases links <;> simp [walk, walkWith, h]

/-- A walk along more pieces fails as it did, or goes on from where it was. -/
theorem walk_append (t : FileTree) (links : Nat) (here : Trail) (pieces : List Name) :
    (∃ e, ∀ more, t.walk links here (pieces ++ more) = .error e) ∨
      ∃ links' there, ∀ more, t.walk links here (pieces ++ more) = t.walk links' there more := by
  induction links generalizing here pieces with
  | zero =>
    induction pieces generalizing here with
    | nil => exact .inr ⟨0, here, fun more => rfl⟩
    | cons n rest ih =>
      cases hm : t.move here n with
      | arrive next =>
        simp only [List.cons_append, walk_arrive hm]
        exact ih next
      | follow next others => exact .inl ⟨.tooManyLinks, fun more => by simp [walk, walkWith, hm]⟩
      | lost cause => exact .inl ⟨cause, fun more => walk_lost hm _ _⟩
  | succ links ih =>
    induction pieces generalizing here with
    | nil => exact .inr ⟨links + 1, here, fun more => rfl⟩
    | cons n rest ihp =>
      cases hm : t.move here n with
      | arrive next =>
        simp only [List.cons_append, walk_arrive hm]
        exact ihp next
      | follow next others =>
        have hf : ∀ more, t.walk (links + 1) here (n :: rest ++ more) = t.walk links next (others ++ rest ++ more) := by
          intro more
          simp [walk, walkWith, hm]
        simp only [hf]
        exact ih next (others ++ rest)
      | lost cause => exact .inl ⟨cause, fun more => walk_lost hm _ _⟩

/-- The walk of a longer path goes on from where the path leads. -/
theorem locate_descend {p : Path} {here : Trail} (h : t.locate p = .ok here) :
    p.bytes ≠ [] ∧ ∃ links, ∀ names ≠ [], (∀ n ∈ names, Path.IsName n) →
      t.locate (p.descend names) = t.walk links here names := by
  have hp : p.bytes ≠ [] := by
    intro hp
    rw [locate, if_pos hp] at h
    cases h
  rw [locate, if_neg hp] at h
  refine ⟨hp, ?_⟩
  have hstem : ∃ links, ∀ more, t.walk linkLimit (t.start p) (p.stem ++ more) = t.walk links here more := by
    rcases t.walk_append linkLimit (t.start p) p.stem with ⟨e, he⟩ | ⟨links, there, hw⟩
    · rcases p.segments_eq_stem with hs | hs
      · rw [hs, ← List.append_nil p.stem, he] at h
        cases h
      · rw [hs, he] at h
        cases h
    · refine ⟨links, ?_⟩
      have hthere : there = here := by
        rcases p.segments_eq_stem with hs | hs
        · rw [hs, ← List.append_nil p.stem, hw, walk_nil] at h
          cases h
          rfl
        · rw [hs, hw] at h
          cases hd : t.isDirectoryAt there with
          | false =>
            rw [walk_lost (move_of_not_directory hd [])] at h
            cases h
          | true =>
            have hm : t.move there [] = .arrive there := by simp [move, hd]
            rw [walk_arrive hm, walk_nil] at h
            cases h
            rfl
      rw [← hthere]
      exact hw
  obtain ⟨links, hw⟩ := hstem
  refine ⟨links, ?_⟩
  intro names hne hnames
  have hstart : t.start (p.descend names) = t.start p := by
    unfold start
    rw [Path.isAbsolute_descend hp hnames]
  rw [locate, if_neg (Path.descend_ne_nil hp hnames), hstart, Path.segments_descend hp hnames hne, hw]

/-- Names that lead through real directories to something that is no link lead there on a walk too. -/
theorem walk_names {here : Trail} {names : Trail} {e : Entry} (h : t.top.find? (here ++ names) = some e)
    (hlink : ∀ target, e ≠ .link target) (hn : ∀ n ∈ names, Path.IsName n) (links : Nat) :
    t.walk links here names = .ok (here ++ names) := by
  induction names generalizing here with
  | nil => rw [walk_nil, List.append_nil]
  | cons n rest ih =>
    obtain ⟨hname, hnames⟩ := List.forall_mem_cons.1 hn
    have hsplit : here ++ n :: rest = (here ++ [n]) ++ rest := by simp
    have hmove : t.move here n = .arrive (here ++ [n]) := by
      rw [Entry.find?_append] at h
      obtain ⟨x, hx, hbelow⟩ := Option.bind_eq_some_iff.1 h
      cases x with
      | file bytes m => cases hbelow
      | link target => cases hbelow
      | directory m children =>
        have hd : t.isDirectoryAt here = true := by simp [isDirectoryAt, hx]
        obtain ⟨y, hy, hrest⟩ := Option.bind_eq_some_iff.1 hbelow
        have hfind : t.top.find? (here ++ [n]) = some y := by
          rw [Entry.find?_append, hx]
          simp [Entry.find?, hy]
        have hy' : ∀ target, y ≠ .link target := by
          rintro target rfl
          cases rest with
          | nil =>
            cases hrest
            exact hlink target rfl
          | cons k more => cases hrest
        unfold move
        rw [hd, if_neg (by simp), if_neg (by simp [hname.ne_nil, hname.ne_dot]), if_neg hname.ne_dots, hfind]
        cases y with
        | file bytes m => rfl
        | directory m children => rfl
        | link target => exact absurd rfl (hy' target)
    rw [walk_arrive hmove, hsplit]
    exact ih (hsplit ▸ h) hnames

/-- What is at names below a directory is what the path down to them leads to, unless it is a link. -/
theorem find_descend {p : Path} {here names : Trail} {e : Entry} (hp : t.locate p = .ok here) (hne : names ≠ [])
    (hn : ∀ n ∈ names, Path.IsName n) (h : t.top.find? (here ++ names) = some e)
    (hlink : ∀ target, e ≠ .link target) : t.find (p.descend names) = .ok e := by
  obtain ⟨_, links, hw⟩ := locate_descend hp
  unfold find
  rw [hw names hne hn, walk_names h hlink hn links]
  simp [bind, Except.bind, h, pure, Except.pure]

end FileTree

end ReactCatalog
