import Mathlib.Data.List.Nodup
import ReactCatalog.Catalog.Candidates
import ReactCatalog.Proofs.Descent
import ReactCatalog.Proofs.Utf8

/-!
# Which files are candidates

An entry below a directory is given by the names that lead to it through real directories. The candidates are the
entries that are files or lead to files, have one of the extensions, are not excluded by a pattern, and are not below a
directory that is skipped (`Selected`). Each of them is listed once, in the order of the encoded relative names
(`candidates_selected`).
-/

namespace ReactCatalog

/-! ## Selected entries -/

/-- The entries of each directory have different names. -/
inductive Entry.WellNamed : Entry → Prop
  | file (bytes : List UInt8) (m : Nat) : WellNamed (.file bytes m)
  | link (target : Path) : WellNamed (.link target)
  | directory {m : Nat} {children : List (Name × Entry)} : (children.map Prod.fst).Nodup →
      (∀ c ∈ children, Path.IsName c.1) → (∀ c ∈ children, WellNamed c.2) → WellNamed (.directory m children)

/-- At the names below the directory that the path leads to there is a file, or a link that leads to one. -/
def FileTree.FileBelow (t : FileTree) (root : Path) (names : Trail) : Prop :=
  ∃ here, t.locate root = .ok here ∧ names ≠ [] ∧
    ((∃ bytes m, t.top.find? (here ++ names) = some (.file bytes m)) ∨
      ∃ target, t.top.find? (here ++ names) = some (.link target) ∧ t.isFile (root.descend names) = true)

/-- The name ends in a dot and the extension, after something else. -/
def HasExtension (name : Name) (ext : String) : Prop :=
  ∃ front ≠ [], name = front ++ Path.dot :: Text.utf8 ext ∧ Path.dot ∉ Text.utf8 ext

/-- The names with slashes between them, as text. -/
def relativeText (names : Trail) : String := "/".intercalate (names.map Text.decodeLossy)

/-- The candidate that the entry at these names is. -/
def candidateAt (root : Path) (names : Trail) : Candidate := ⟨root.descend names, relativeText names⟩

/-- The entry at these names below a directory is to be documented. -/
structure Selected (t : FileTree) (extensions patterns : List String) (recursive : Bool) (root : Path)
    (names : Trail) : Prop where
  file : t.FileBelow root names
  extension : ∃ name ext, names.getLast? = some name ∧ ext ∈ extensions ∧ HasExtension name ext
  not_excluded : ∀ pattern ∈ patterns, ∀ tokens, Glob.read? pattern = some tokens →
    Glob.covers tokens (Text.utf8 (relativeText names)) = false
  searched : if recursive then ∀ n ∈ names.dropLast, n.head? ≠ some Path.dot ∧ n ≠ Text.utf8 "node_modules"
    else names.length = 1

/-! ## Extensions, patterns and directories -/

theorem extensionOf?_eq_some_iff {name ext : Name} :
    Path.extensionOf? name = some ext ↔ ∃ front ≠ [], name = front ++ Path.dot :: ext ∧ Path.dot ∉ ext := by
  unfold Path.extensionOf?
  dsimp only
  constructor
  · intro h
    split at h
    · cases h
    · next hbefore =>
      cases hdrop : name.reverse.dropWhile (fun b => decide (b ≠ Path.dot)) with
      | nil => simp only [hdrop, List.drop_nil, List.isEmpty_nil, not_true_eq_false] at hbefore
      | cons b before =>
        have hb : b = Path.dot := by
          have hhead := List.head?_dropWhile_not (fun b => decide (b ≠ Path.dot)) name.reverse
          rw [hdrop] at hhead
          simpa using hhead
        have hsplit := List.takeWhile_append_dropWhile (p := fun b => decide (b ≠ Path.dot)) (l := name.reverse)
        have hall := List.all_takeWhile (p := fun b => decide (b ≠ Path.dot)) (l := name.reverse)
        rw [Option.some.injEq] at h
        rw [hdrop, hb, ← List.reverse_reverse (List.takeWhile _ _), h] at hsplit
        rw [← List.reverse_reverse (List.takeWhile _ _), h, List.all_reverse, List.all_eq_true] at hall
        refine ⟨before.reverse, ?_, ?_, ?_⟩
        · rw [hdrop] at hbefore
          simpa using hbefore
        · rw [← List.reverse_reverse name, ← hsplit]
          simp
        · intro hmem
          simpa using hall _ hmem
  · rintro ⟨front, hfront, rfl, hdot⟩
    have hall : ∀ b ∈ ext.reverse, decide (b ≠ Path.dot) = true := by
      intro b hb
      rw [decide_eq_true_eq]
      rintro rfl
      exact hdot (List.mem_reverse.1 hb)
    have hrev : (front ++ Path.dot :: ext).reverse = ext.reverse ++ Path.dot :: front.reverse := by simp
    rw [hrev, List.takeWhile_append_of_pos hall, List.dropWhile_append_of_pos hall]
    simp [hfront]

theorem startsWith_dot_iff (s : String) : Text.startsWith s "." = true ↔ s.toList.head? = some '.' := by
  show (Text.dropLeading? ['.'] s.toList).isSome = true ↔ _
  cases s.toList with
  | nil => simp [Text.dropLeading?]
  | cons c rest =>
    by_cases hc : '.' = c
    · simp [Text.dropLeading?, ← hc]
    · simp [Text.dropLeading?, hc, Ne.symm hc]

/-- The directories that are never entered, by the bytes of their names. -/
theorem isSkippedDirectory_iff (n : Name) :
    isSkippedDirectory n = true ↔ n.head? = some Path.dot ∨ n = Text.utf8 "node_modules" := by
  have hdot : String.utf8EncodeChar '.' <+: n ↔ n.head? = some Path.dot := by
    have he : String.utf8EncodeChar '.' = [Path.dot] := by decide
    rw [he, List.head?_eq_some_iff]
    exact ⟨fun ⟨rest, h⟩ => ⟨rest, h.symm⟩, fun ⟨rest, h⟩ => ⟨rest, h.symm⟩⟩
  unfold isSkippedDirectory
  rw [Bool.or_eq_true, startsWith_dot_iff, Text.head?_decodeLossy (by decide), hdot, beq_iff_eq,
    Text.decodeLossy_eq_iff (by decide)]

theorem isExcluded_iff (patterns : List String) (relative : String) :
    isExcluded (readPatterns patterns).1 relative = false ↔ ∀ pattern ∈ patterns, ∀ tokens,
      Glob.read? pattern = some tokens → Glob.covers tokens (Text.utf8 relative) = false := by
  have hvalid : (readPatterns patterns).1.getD [] = patterns.filterMap Glob.read? := by
    unfold readPatterns
    cases patterns <;> rfl
  unfold isExcluded
  rw [hvalid, List.any_eq_false]
  simp only [List.mem_filterMap, Bool.not_eq_true]
  constructor
  · intro h pattern hp tokens ht
    exact h tokens ⟨pattern, hp, ht⟩
  · rintro h tokens ⟨pattern, hp, ht⟩
    exact h pattern hp tokens ht

section

variable {root : Path} {names : Trail}

theorem hasExtension_descend (hr : root.bytes ≠ []) (hn : ∀ n ∈ names, Path.IsName n) (hne : names ≠ [])
    (extensions : List String) :
    hasExtension extensions (root.descend names) = true ↔
      ∃ name ext, names.getLast? = some name ∧ ext ∈ extensions ∧ HasExtension name ext := by
  have htext : ∀ ext, (root.descend names).extensionText? = some ext ↔
      ∃ name, names.getLast? = some name ∧ HasExtension name ext := by
    intro ext
    unfold Path.extensionText? Path.extension?
    rw [Path.fileName?_descend hr hn hne]
    simp only [Option.bind_eq_some_iff, extensionOf?_eq_some_iff, Text.decode?_eq_some_iff]
    constructor
    · rintro ⟨_, ⟨name, hname, hext⟩, rfl⟩
      exact ⟨name, hname, hext⟩
    · rintro ⟨name, hname, hext⟩
      exact ⟨_, ⟨name, hname, hext⟩, rfl⟩
  unfold hasExtension
  cases he : (root.descend names).extensionText? with
  | none =>
    simp only [Bool.false_eq_true, false_iff]
    rintro ⟨name, ext, hname, _, hext⟩
    rw [(htext ext).2 ⟨name, hname, hext⟩] at he
    cases he
  | some ext =>
    obtain ⟨name, hname, hext⟩ := (htext ext).1 he
    simp only [List.contains_iff_mem]
    constructor
    · intro hmem
      exact ⟨name, ext, hname, hmem, hext⟩
    · rintro ⟨name', ext', hname', hmem, hext'⟩
      have heq := (htext ext').2 ⟨name', hname', hext'⟩
      rw [he, Option.some.injEq] at heq
      exact heq ▸ hmem

theorem relativeName_descend (hr : root.bytes ≠ []) (hn : ∀ n ∈ names, Path.IsName n) :
    relativeName root (root.descend names) = some (relativeText names) := by
  unfold relativeName
  rw [Path.partsBelow?_descend hr hn, Option.map_some, List.map_map]
  rfl

theorem candidate?_descend (t : FileTree) (filter : CandidateFilter) (hr : root.bytes ≠ [])
    (hn : ∀ n ∈ names, Path.IsName n) :
    candidate? t filter root (root.descend names) =
      if t.isFile (root.descend names) && hasExtension filter.extensions (root.descend names) &&
        !isExcluded filter.exclude (relativeText names) then some (candidateAt root names) else none := by
  unfold candidate?
  rw [relativeName_descend hr hn]
  cases t.isFile (root.descend names) && hasExtension filter.extensions (root.descend names) with
  | false => rfl
  | true => cases hx : isExcluded filter.exclude (relativeText names) <;> simp [hx, candidateAt]

end

/-! ## Searching -/

theorem lookup_eq_some_iff_mem {children : List (Name × Entry)} (h : (children.map Prod.fst).Nodup) {n : Name}
    {e : Entry} : List.lookup n children = some e ↔ (n, e) ∈ children := by
  induction children with
  | nil => simp
  | cons c rest ih =>
    obtain ⟨k, x⟩ := c
    obtain ⟨hk, hrest⟩ := List.nodup_cons.1 h
    rw [lookup_cons_ite, List.mem_cons, Prod.mk.injEq]
    by_cases hn : n = k
    · subst hn
      have hnot : (n, e) ∉ rest := fun hm => hk (List.mem_map.2 ⟨(n, e), hm, rfl⟩)
      simp [hnot, eq_comm]
    · simp [hn, ih hrest]

namespace Entry.WellNamed

theorem isName {e x : Entry} (h : e.WellNamed) {names : Trail} (hf : e.find? names = some x) :
    ∀ n ∈ names, Path.IsName n := by
  induction names generalizing e with
  | nil => simp
  | cons n rest ih =>
    cases h with
    | file bytes m => cases hf
    | link target => cases hf
    | directory hnodup hnames hchildren =>
      obtain ⟨y, hy, hrest⟩ := Option.bind_eq_some_iff.1 hf
      have hmem := (lookup_eq_some_iff_mem hnodup).1 hy
      exact List.forall_mem_cons.2 ⟨hnames _ hmem, ih (hchildren _ hmem) hrest⟩

theorem find? {e x : Entry} (h : e.WellNamed) {names : Trail} (hf : e.find? names = some x) : x.WellNamed := by
  induction names generalizing e with
  | nil =>
    cases hf
    exact h
  | cons n rest ih =>
    cases h with
    | file bytes m => cases hf
    | link target => cases hf
    | directory hnodup hnames hchildren =>
      obtain ⟨y, hy, hrest⟩ := Option.bind_eq_some_iff.1 hf
      exact ih (hchildren _ ((lookup_eq_some_iff_mem hnodup).1 hy)) hrest

end Entry.WellNamed

mutual

/-- The names of the entries that a search comes to. -/
def namesBelow (recursive : Bool) : List (Name × Entry) → List Trail
  | [] => []
  | (n, e) :: rest => namesOf recursive n e ++ namesBelow recursive rest

def namesOf (recursive : Bool) (n : Name) : Entry → List Trail
  | .directory _ children =>
    if isSkippedDirectory n then []
    else if recursive then [n] :: (namesBelow recursive children).map (n :: ·)
    else [[n]]
  | _ => [[n]]

end

mutual

theorem entriesBelow_eq (recursive : Bool) (above : Path) (children : List (Name × Entry)) :
    entriesBelow recursive above children = (namesBelow recursive children).map above.descend := by
  match children with
  | [] => rfl
  | (n, e) :: rest =>
    rw [entriesBelow, namesBelow, List.map_append, entriesOf_eq recursive above n e,
      entriesBelow_eq recursive above rest]

theorem entriesOf_eq (recursive : Bool) (above : Path) (n : Name) (e : Entry) :
    entriesOf recursive (above.join ⟨n⟩) n e = (namesOf recursive n e).map above.descend := by
  match e with
  | .file bytes m => rfl
  | .link target => rfl
  | .directory m children =>
    rw [entriesOf, namesOf, entriesBelow_eq recursive (above.join ⟨n⟩) children]
    split
    · rfl
    · split
      · rw [List.map_cons, List.map_map]
        rfl
      · rfl

end

theorem mem_namesBelow {recursive : Bool} {children : List (Name × Entry)} {names : Trail} :
    names ∈ namesBelow recursive children ↔ ∃ c ∈ children, names ∈ namesOf recursive c.1 c.2 := by
  induction children with
  | nil => simp [namesBelow]
  | cons c rest ih =>
    obtain ⟨n, e⟩ := c
    simp [namesBelow, ih]

theorem mem_namesOf_directory {recursive : Bool} {n : Name} {m : Nat} {children : List (Name × Entry)} {names : Trail} :
    names ∈ namesOf recursive n (.directory m children) ↔ isSkippedDirectory n = false ∧
      ∃ rest, names = n :: rest ∧ (rest = [] ∨ recursive = true ∧ rest ∈ namesBelow recursive children) := by
  rw [namesOf]
  cases hs : isSkippedDirectory n with
  | true => simp
  | false =>
    cases recursive with
    | false => simp
    | true =>
      simp only [Bool.false_eq_true, if_false, if_true, List.mem_cons, List.mem_map, true_and]
      constructor
      · rintro (rfl | ⟨rest, hrest, rfl⟩)
        · exact ⟨[], rfl, .inl rfl⟩
        · exact ⟨rest, rfl, .inr hrest⟩
      · rintro ⟨rest, rfl, rfl | hrest⟩
        · exact .inl rfl
        · exact .inr ⟨rest, hrest, rfl⟩

theorem mem_namesOf_other {recursive : Bool} {n : Name} {e : Entry} (he : ∀ m children, e ≠ .directory m children)
    {names : Trail} : names ∈ namesOf recursive n e ↔ names = [n] := by
  cases e with
  | file bytes m => exact List.mem_singleton
  | link target => exact List.mem_singleton
  | directory m children => exact absurd rfl (he m children)

theorem exists_of_mem_namesOf {recursive : Bool} {n : Name} {e : Entry} {names : Trail}
    (h : names ∈ namesOf recursive n e) : ∃ rest, names = n :: rest := by
  cases e with
  | file bytes m => exact ⟨[], List.mem_singleton.1 h⟩
  | link target => exact ⟨[], List.mem_singleton.1 h⟩
  | directory m children =>
    obtain ⟨_, rest, hrest, _⟩ := mem_namesOf_directory.1 h
    exact ⟨rest, hrest⟩

/-- A search comes to names by way of the entry with the first of them. -/
theorem cons_mem_namesBelow {recursive : Bool} {children : List (Name × Entry)}
    (hnodup : (children.map Prod.fst).Nodup) {n : Name} {rest : Trail} :
    n :: rest ∈ namesBelow recursive children ↔
      ∃ e, List.lookup n children = some e ∧ n :: rest ∈ namesOf recursive n e := by
  rw [mem_namesBelow]
  constructor
  · rintro ⟨⟨k, e⟩, hmem, h⟩
    obtain ⟨rest', hcons⟩ := exists_of_mem_namesOf h
    cases hcons
    exact ⟨e, (lookup_eq_some_iff_mem hnodup).2 hmem, h⟩
  · rintro ⟨e, he, h⟩
    exact ⟨(n, e), (lookup_eq_some_iff_mem hnodup).1 he, h⟩

theorem ne_nil_of_mem_namesBelow {recursive : Bool} {children : List (Name × Entry)} {names : Trail}
    (h : names ∈ namesBelow recursive children) : names ≠ [] := by
  obtain ⟨c, _, hc⟩ := mem_namesBelow.1 h
  obtain ⟨rest, rfl⟩ := exists_of_mem_namesOf hc
  simp

/-- A search comes to entries only. -/
theorem find?_of_mem_namesBelow {recursive : Bool} {m : Nat} {children : List (Name × Entry)}
    (hw : (Entry.directory m children).WellNamed) {names : Trail} (h : names ∈ namesBelow recursive children) :
    ∃ e, (Entry.directory m children).find? names = some e := by
  induction names generalizing m children with
  | nil => exact ⟨_, rfl⟩
  | cons n rest ih =>
    cases hw with
    | directory hnodup hnames hchildren =>
      obtain ⟨e, hlookup, hc⟩ := (cons_mem_namesBelow hnodup).1 h
      have hrest : ∃ x, e.find? rest = some x := by
        cases e with
        | file bytes m =>
          cases List.mem_singleton.1 hc
          exact ⟨_, rfl⟩
        | link target =>
          cases List.mem_singleton.1 hc
          exact ⟨_, rfl⟩
        | directory m' children' =>
          obtain ⟨_, _, hcons, hbelow⟩ := mem_namesOf_directory.1 hc
          cases hcons
          rcases hbelow with rfl | ⟨_, hbelow⟩
          · exact ⟨_, rfl⟩
          · exact ih (hchildren _ ((lookup_eq_some_iff_mem hnodup).1 hlookup)) hbelow
      obtain ⟨x, hx⟩ := hrest
      exact ⟨x, by simp [Entry.find?, hlookup, hx]⟩

/-- A search comes to every entry that is no directory, unless it is below a directory that is skipped, or is to keep
to the first level. -/
theorem mem_namesBelow_iff {recursive : Bool} {m : Nat} {children : List (Name × Entry)}
    (hw : (Entry.directory m children).WellNamed) {names : Trail} {e : Entry} (hne : names ≠ [])
    (hf : (Entry.directory m children).find? names = some e) (he : ∀ m children, e ≠ .directory m children) :
    names ∈ namesBelow recursive children ↔
      (∀ n ∈ names.dropLast, isSkippedDirectory n = false) ∧ (recursive = true ∨ names.length = 1) := by
  induction names generalizing m children with
  | nil => exact absurd rfl hne
  | cons n rest ih =>
    cases hw with
    | directory hnodup hnames hchildren =>
      obtain ⟨x, hx, hrest⟩ := Option.bind_eq_some_iff.1 hf
      have hhere : n :: rest ∈ namesBelow recursive children ↔ n :: rest ∈ namesOf recursive n x := by
        simp [cons_mem_namesBelow hnodup, hx]
      rw [hhere]
      cases rest with
      | nil =>
        cases hrest
        rw [mem_namesOf_other he]
        simp
      | cons k more =>
        -- the entry is below the directory `x`
        cases x with
        | file bytes m => cases hrest
        | link target => cases hrest
        | directory m' children' =>
          have hbelow := ih (hchildren _ ((lookup_eq_some_iff_mem hnodup).1 hx)) (by simp) hrest
          rw [mem_namesOf_directory, List.dropLast_cons_of_ne_nil (by simp), List.forall_mem_cons]
          constructor
          · rintro ⟨hs, _, hcons, hb⟩
            cases hcons
            rcases hb with hb | ⟨hr, hb⟩
            · cases hb
            · exact ⟨⟨hs, (hbelow.1 hb).1⟩, .inl hr⟩
          · rintro ⟨⟨hs, hbetween⟩, hr⟩
            have hrec : recursive = true := by simpa using hr
            exact ⟨hs, _, rfl, .inr ⟨hrec, hbelow.2 ⟨hbetween, .inl hrec⟩⟩⟩

mutual

theorem nodup_namesBelow (recursive : Bool) {children : List (Name × Entry)} (hnodup : (children.map Prod.fst).Nodup)
    (hw : ∀ c ∈ children, c.2.WellNamed) : (namesBelow recursive children).Nodup := by
  match children with
  | [] => exact List.nodup_nil
  | (n, e) :: rest =>
    obtain ⟨hn, hrest⟩ := List.nodup_cons.1 hnodup
    obtain ⟨he, hwrest⟩ := List.forall_mem_cons.1 hw
    rw [namesBelow, List.nodup_append]
    refine ⟨nodup_namesOf recursive n he, nodup_namesBelow recursive hrest hwrest, ?_⟩
    -- the first names differ
    intro names hnames names' hnames' heq
    subst heq
    obtain ⟨c, hc, hmem⟩ := mem_namesBelow.1 hnames'
    obtain ⟨below, rfl⟩ := exists_of_mem_namesOf hnames
    obtain ⟨below', hbelow⟩ := exists_of_mem_namesOf hmem
    cases hbelow
    exact hn (List.mem_map.2 ⟨c, hc, rfl⟩)

theorem nodup_namesOf (recursive : Bool) (n : Name) {e : Entry} (hw : e.WellNamed) : (namesOf recursive n e).Nodup := by
  match e with
  | .file bytes m => exact List.nodup_singleton _
  | .link target => exact List.nodup_singleton _
  | .directory m children =>
    cases hw with
    | directory hnodup hnames hchildren =>
      have hbelow := nodup_namesBelow recursive hnodup hchildren
      rw [namesOf]
      split
      · exact List.nodup_nil
      · split
        · refine List.nodup_cons.2 ⟨?_, List.Nodup.map List.cons_injective hbelow⟩
          intro hmem
          obtain ⟨names, hnames, heq⟩ := List.mem_map.1 hmem
          cases heq
          obtain ⟨c, _, hc⟩ := mem_namesBelow.1 hnames
          obtain ⟨rest, hrest⟩ := exists_of_mem_namesOf hc
          cases hrest
        · exact List.nodup_singleton _

end

/-! ## Candidates -/

theorem FileTree.find_eq_ok_iff {t : FileTree} {p : Path} {e : Entry} :
    t.find p = .ok e ↔ ∃ here, t.locate p = .ok here ∧ t.top.find? here = some e := by
  unfold FileTree.find
  cases hl : t.locate p with
  | error cause => simp [bind, Except.bind]
  | ok here =>
    cases hf : t.top.find? here with
    | none => simp [bind, Except.bind, hf, throw, throwThe, MonadExceptOf.throw]
    | some x => simp [bind, Except.bind, hf, pure, Except.pure]

/-- The names of the entries that a search of a directory comes to. -/
def searchedNames (t : FileTree) (recursive : Bool) (root : Path) : List Trail :=
  match t.find root with
  | .ok (.directory _ children) => namesBelow recursive children
  | _ => []

theorem entriesUnder_eq (t : FileTree) (recursive : Bool) (root : Path) :
    (entriesUnder t recursive root).1 = (searchedNames t recursive root).map root.descend := by
  unfold entriesUnder searchedNames
  cases t.find root with
  | error cause => rfl
  | ok e =>
    cases e with
    | file bytes m => rfl
    | link target => rfl
    | directory m children => exact entriesBelow_eq recursive root children

theorem mem_searchedNames {t : FileTree} {recursive : Bool} {root : Path} {names : Trail} :
    names ∈ searchedNames t recursive root ↔ ∃ here m children, t.locate root = .ok here ∧
      t.top.find? here = some (.directory m children) ∧ names ∈ namesBelow recursive children := by
  unfold searchedNames
  constructor
  · intro h
    split at h
    · next m children hf =>
      obtain ⟨here, hl, htop⟩ := FileTree.find_eq_ok_iff.1 hf
      exact ⟨here, m, children, hl, htop, h⟩
    · cases h
  · rintro ⟨here, m, children, hl, htop, h⟩
    rw [FileTree.find_eq_ok_iff.2 ⟨here, hl, htop⟩]
    exact h

/-- What of the entry at these names does not depend on how it was found. -/
def isWanted (t : FileTree) (filter : CandidateFilter) (root : Path) (names : Trail) : Bool :=
  t.isFile (root.descend names) && hasExtension filter.extensions (root.descend names) &&
    !isExcluded filter.exclude (relativeText names)

section

variable {t : FileTree} {root : Path}

/-- Names that a search comes to are names of an entry below the directory. -/
theorem find?_of_mem_searchedNames (ht : t.top.WellNamed) {recursive : Bool} {names : Trail}
    (h : names ∈ searchedNames t recursive root) :
    names ≠ [] ∧ (∀ n ∈ names, Path.IsName n) ∧
      ∃ here e, t.locate root = .ok here ∧ t.top.find? (here ++ names) = some e := by
  obtain ⟨here, m, children, hl, htop, hmem⟩ := mem_searchedNames.1 h
  have hw := ht.find? htop
  obtain ⟨e, he⟩ := find?_of_mem_namesBelow hw hmem
  refine ⟨ne_nil_of_mem_namesBelow hmem, hw.isName he, here, e, hl, ?_⟩
  rw [Entry.find?_append, htop, Option.bind_some, he]

theorem nodup_searchedNames (ht : t.top.WellNamed) (recursive : Bool) (root : Path) :
    (searchedNames t recursive root).Nodup := by
  unfold searchedNames
  split
  · next m children hf =>
    obtain ⟨here, _, htop⟩ := FileTree.find_eq_ok_iff.1 hf
    cases ht.find? htop with
    | directory hnodup _ hchildren => exact nodup_namesBelow recursive hnodup hchildren
  · exact List.nodup_nil

/-- A search comes to the names of a file or link if it enters the directories on the way. -/
theorem mem_searchedNames_iff (ht : t.top.WellNamed) {recursive : Bool} {here names : Trail} {e : Entry}
    (hl : t.locate root = .ok here) (hne : names ≠ []) (hf : t.top.find? (here ++ names) = some e)
    (he : ∀ m children, e ≠ .directory m children) :
    names ∈ searchedNames t recursive root ↔
      if recursive then ∀ n ∈ names.dropLast, n.head? ≠ some Path.dot ∧ n ≠ Text.utf8 "node_modules"
      else names.length = 1 := by
  rw [Entry.find?_append] at hf
  obtain ⟨x, hx, hbelow⟩ := Option.bind_eq_some_iff.1 hf
  obtain ⟨n, rest, rfl⟩ := List.exists_cons_of_ne_nil hne
  have hskipped : ∀ k, isSkippedDirectory k = false ↔ k.head? ≠ some Path.dot ∧ k ≠ Text.utf8 "node_modules" := by
    intro k
    rw [← Bool.not_eq_true, isSkippedDirectory_iff, not_or]
  cases x with
  | file bytes m => cases hbelow
  | link target => cases hbelow
  | directory m children =>
    have hnames : n :: rest ∈ searchedNames t recursive root ↔ n :: rest ∈ namesBelow recursive children := by
      rw [searchedNames, FileTree.find_eq_ok_iff.2 ⟨here, hl, hx⟩]
    rw [hnames, mem_namesBelow_iff (ht.find? hx) hne hbelow he]
    simp only [hskipped]
    cases recursive with
    | true => simp
    | false =>
      simp only [Bool.false_eq_true, false_or, if_false, and_iff_right_iff_imp]
      intro hlength
      cases rest with
      | nil => simp
      | cons k more => simp at hlength

theorem isFile_iff {p : Path} : t.isFile p = true ↔ ∃ bytes m, t.find p = .ok (.file bytes m) := by
  unfold FileTree.isFile
  split
  · next bytes m h => simp [h]
  · next h =>
    simp only [Bool.false_eq_true, false_iff]
    rintro ⟨bytes, m, hf⟩
    exact h bytes m hf

/-- The entries that are found and wanted are the selected ones. -/
theorem selected_iff (ht : t.top.WellNamed) (extensions patterns : List String) (recursive : Bool) (root : Path)
    (names : Trail) :
    names ∈ (searchedNames t recursive root).filter
        (isWanted t ⟨extensions, (readPatterns patterns).1, recursive⟩ root) ↔
      Selected t extensions patterns recursive root names := by
  rw [List.mem_filter]
  simp only [isWanted, Bool.and_eq_true, Bool.not_eq_true', isExcluded_iff]
  constructor
  · rintro ⟨hmem, ⟨hfile, hext⟩, hexcluded⟩
    obtain ⟨hne, hnames, here, e, hl, hf⟩ := find?_of_mem_searchedNames ht hmem
    obtain ⟨hroot, _⟩ := FileTree.locate_descend hl
    rw [hasExtension_descend hroot hnames hne] at hext
    cases e with
    | file bytes m =>
      exact ⟨⟨here, hl, hne, .inl ⟨bytes, m, hf⟩⟩, hext, hexcluded,
        (mem_searchedNames_iff ht hl hne hf (by simp)).1 hmem⟩
    | link target =>
      exact ⟨⟨here, hl, hne, .inr ⟨target, hf, hfile⟩⟩, hext, hexcluded,
        (mem_searchedNames_iff ht hl hne hf (by simp)).1 hmem⟩
    | directory m children =>
      obtain ⟨bytes, m', hfind⟩ := isFile_iff.1 hfile
      rw [FileTree.find_descend hl hne hnames hf (by simp)] at hfind
      cases hfind
  · rintro ⟨⟨here, hl, hne, hentry⟩, hext, hexcluded, hsearched⟩
    obtain ⟨hroot, _⟩ := FileTree.locate_descend hl
    rcases hentry with ⟨bytes, m, hf⟩ | ⟨target, hf, hfile⟩
    · have hnames : ∀ n ∈ names, Path.IsName n := fun n hn => ht.isName hf n (List.mem_append_right _ hn)
      refine ⟨(mem_searchedNames_iff ht hl hne hf (by simp)).2 hsearched, ⟨?_, ?_⟩, hexcluded⟩
      · exact isFile_iff.2 ⟨bytes, m, FileTree.find_descend hl hne hnames hf (by simp)⟩
      · exact (hasExtension_descend hroot hnames hne extensions).2 hext
    · have hnames : ∀ n ∈ names, Path.IsName n := fun n hn => ht.isName hf n (List.mem_append_right _ hn)
      refine ⟨(mem_searchedNames_iff ht hl hne hf (by simp)).2 hsearched, ⟨hfile, ?_⟩, hexcluded⟩
      exact (hasExtension_descend hroot hnames hne extensions).2 hext

/-- The candidates are the entries that are found and wanted, sorted by their relative names. -/
theorem collectCandidates_eq (ht : t.top.WellNamed) (filter : CandidateFilter) (root : Path) :
    (collectCandidates t filter root).1 =
      (((searchedNames t filter.recursive root).filter (isWanted t filter root)).mergeSort
        fun a b => decide (relativeText a ≤ relativeText b)).map (candidateAt root) := by
  have hcandidate : ∀ names ∈ searchedNames t filter.recursive root,
      candidate? t filter root (root.descend names) =
        if isWanted t filter root names then some (candidateAt root names) else none := by
    intro names hmem
    obtain ⟨_, hnames, here, e, hl, _⟩ := find?_of_mem_searchedNames ht hmem
    exact candidate?_descend t filter (FileTree.locate_descend hl).1 hnames
  have hlist : (entriesUnder t filter.recursive root).1.filterMap (candidate? t filter root) =
      ((searchedNames t filter.recursive root).filter (isWanted t filter root)).map (candidateAt root) := by
    rw [entriesUnder_eq, List.filterMap_map]
    refine (List.filterMap_congr hcandidate).trans ?_
    rw [← List.filterMap_filter, List.filterMap_eq_map']
  show sortCandidates ((entriesUnder t filter.recursive root).1.filterMap (candidate? t filter root)) = _
  rw [hlist, sortCandidates, List.map_mergeSort]
  intro a _ b _
  rfl

theorem names_of_selected (ht : t.top.WellNamed) {extensions patterns : List String} {recursive : Bool} {names : Trail}
    (h : Selected t extensions patterns recursive root names) : root.bytes ≠ [] ∧ ∀ n ∈ names, Path.IsName n := by
  obtain ⟨here, hl, _, hentry⟩ := h.file
  have hfind : ∃ e, t.top.find? (here ++ names) = some e := by
    rcases hentry with ⟨bytes, m, hf⟩ | ⟨target, hf, _⟩
    · exact ⟨_, hf⟩
    · exact ⟨_, hf⟩
  obtain ⟨e, hf⟩ := hfind
  exact ⟨(FileTree.locate_descend hl).1, fun n hn => ht.isName hf n (List.mem_append_right _ hn)⟩

/-- The candidates are the selected entries, each of them once, in the order of the bytes of their relative names. -/
theorem candidates_selected (ht : t.top.WellNamed) (extensions patterns : List String) (recursive : Bool)
    (root : Path) :
    let candidates := (collectCandidates t ⟨extensions, (readPatterns patterns).1, recursive⟩ root).1
    (∃ entries : List Trail, candidates = entries.map (candidateAt root) ∧ entries.Nodup ∧
      ∀ names, names ∈ entries ↔ Selected t extensions patterns recursive root names) ∧
    (candidates.map Candidate.path).Nodup ∧
    candidates.Pairwise fun a b => Text.utf8 a.relative ≤ Text.utf8 b.relative := by
  intro candidates
  have hc := collectCandidates_eq ht ⟨extensions, (readPatterns patterns).1, recursive⟩ root
  generalize hentries : ((searchedNames t recursive root).filter
    (isWanted t ⟨extensions, (readPatterns patterns).1, recursive⟩ root)).mergeSort
      (fun a b => decide (relativeText a ≤ relativeText b)) = entries at hc
  have hperm : entries.Perm _ := hentries ▸ List.mergeSort_perm _ _
  have hnodup : entries.Nodup := hperm.nodup_iff.2 ((nodup_searchedNames ht recursive root).filter _)
  have hselected : ∀ names, names ∈ entries ↔ Selected t extensions patterns recursive root names :=
    fun names => hperm.mem_iff.trans (selected_iff ht extensions patterns recursive root names)
  have hsorted : entries.Pairwise fun a b => decide (relativeText a ≤ relativeText b) = true := by
    rw [← hentries]
    apply List.pairwise_mergeSort
    · intro a b c hab hbc
      exact decide_eq_true (le_trans (of_decide_eq_true hab) (of_decide_eq_true hbc))
    · intro a b
      simpa using le_total (relativeText a) (relativeText b)
  refine ⟨⟨entries, hc, hnodup, hselected⟩, ?_, ?_⟩
  · show ((collectCandidates t _ root).1.map Candidate.path).Nodup
    rw [hc, List.map_map]
    apply List.Nodup.map_on _ hnodup
    intro names hmem names' hmem' heq
    obtain ⟨hroot, hn⟩ := names_of_selected ht ((hselected names).1 hmem)
    obtain ⟨_, hn'⟩ := names_of_selected ht ((hselected names').1 hmem')
    exact Path.descend_injective hroot hn hn' heq
  · show (collectCandidates t _ root).1.Pairwise _
    rw [hc, List.pairwise_map]
    exact hsorted.imp fun h => Text.utf8_le_utf8 (of_decide_eq_true h)

end

def packageFile : Entry := .file [] 0o644

/-- Directories with a file each: one to be searched, a hidden one and one for packages. -/
def packageDirectories : List (Name × Entry) :=
  [(Text.utf8 "lib", .directory directoryMode [(Text.utf8 "B.jsx", packageFile)]),
    (Text.utf8 ".git", .directory directoryMode [(Text.utf8 "C.jsx", packageFile)]),
    (Text.utf8 "node_modules", .directory directoryMode [(Text.utf8 "D.jsx", packageFile)])]

/-- The directories, two files, a link to a file and a link to a directory. -/
def packageTree : FileTree where
  top := .directory directoryMode [(Text.utf8 "src", .directory directoryMode (packageDirectories ++
    [(Text.utf8 "A.jsx", packageFile), (Text.utf8 "E.txt", packageFile),
      (Text.utf8 "L.jsx", .link (.ofString "lib/B.jsx")), (Text.utf8 "far", .link (.ofString "lib"))]))]

theorem packageTree_wellNamed : packageTree.top.WellNamed := by
  refine .directory (by decide +kernel) (by decide +kernel) ?_
  rw [List.forall_mem_singleton]
  refine .directory (by decide +kernel) (by decide +kernel) ?_
  have hone : ∀ n, Path.IsName n → (Entry.directory directoryMode [(n, packageFile)]).WellNamed := by
    intro n hn
    refine .directory (by simp) (by simpa using hn) ?_
    rw [List.forall_mem_singleton]
    exact .file _ _
  simp only [packageDirectories, List.cons_append, List.nil_append, List.forall_mem_cons]
  exact ⟨hone _ (by decide +kernel), hone _ (by decide +kernel), hone _ (by decide +kernel), .file _ _, .file _ _,
    .link _, .link _, by simp⟩

theorem package_candidates :
    ∃ entries : List Trail,
      (collectCandidates packageTree ⟨["jsx"], (readPatterns ["[", "A*"]).1, true⟩ (.ofString "src")).1 =
        entries.map (candidateAt (.ofString "src")) ∧
      [Text.utf8 "lib", Text.utf8 "B.jsx"] ∈ entries ∧ [Text.utf8 "L.jsx"] ∈ entries ∧
      [Text.utf8 ".git", Text.utf8 "C.jsx"] ∉ entries ∧ [Text.utf8 "A.jsx"] ∉ entries := by
  obtain ⟨⟨entries, hc, _, hselected⟩, _⟩ :=
    candidates_selected packageTree_wellNamed ["jsx"] ["[", "A*"] true (.ofString "src")
  have hl : packageTree.locate (.ofString "src") = .ok [Text.utf8 "src"] := rfl
  have hpatterns : ∀ relative ∈ ["lib/B.jsx", "L.jsx"], ∀ pattern ∈ ["[", "A*"],
      (Glob.read? pattern).all fun tokens => !Glob.covers tokens (Text.utf8 relative) := by
    decide +kernel
  have hexcluded : ∀ relative ∈ ["lib/B.jsx", "L.jsx"], ∀ pattern ∈ ["[", "A*"], ∀ tokens,
      Glob.read? pattern = some tokens → Glob.covers tokens (Text.utf8 relative) = false := by
    intro relative hrelative pattern hpattern tokens ht
    simpa [ht] using hpatterns relative hrelative pattern hpattern
  have hcovered : (Glob.read? "A*").any fun tokens =>
      Glob.covers tokens (Text.utf8 (relativeText [Text.utf8 "A.jsx"])) := by
    decide +kernel
  refine ⟨entries, hc, (hselected _).2 ⟨?_, ?_, ?_, ?_⟩, (hselected _).2 ⟨?_, ?_, ?_, ?_⟩, ?_, ?_⟩
  · exact ⟨_, hl, by simp, .inl ⟨_, _, rfl⟩⟩
  · exact ⟨_, "jsx", rfl, by simp, Text.utf8 "B", by decide, by decide, by decide⟩
  · have hrelative : relativeText [Text.utf8 "lib", Text.utf8 "B.jsx"] = "lib/B.jsx" := by decide +kernel
    rw [hrelative]
    exact hexcluded _ (by simp)
  · decide +kernel
  · exact ⟨_, hl, by simp, .inr ⟨_, rfl, by decide +kernel⟩⟩
  · exact ⟨_, "jsx", rfl, by simp, Text.utf8 "L", by decide, by decide, by decide⟩
  · have hrelative : relativeText [Text.utf8 "L.jsx"] = "L.jsx" := by decide +kernel
    rw [hrelative]
    exact hexcluded _ (by simp)
  · decide +kernel
  · intro h
    have hs := ((hselected _).1 h).searched
    revert hs
    decide +kernel
  · intro h
    cases hread : Glob.read? "A*" with
    | none => simp [hread] at hcovered
    | some tokens =>
      have hnot := ((hselected _).1 h).not_excluded "A*" (by simp) tokens hread
      simp [hread, hnot] at hcovered

end ReactCatalog
