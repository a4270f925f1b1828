import ReactCatalog.Proofs.ModuleNames

/-!
# Modules of paths

The module of a file is worked out twice: the catalog shows the relative name of a candidate, in which bytes that are no
text are replaced, and annotations are looked up by the path, of which every name has to be text. Both agree on each
candidate whose names are text, however the directory is spelled, and the look-up refuses the others
(`modules_of_paths`). Two paths with one module have the same parts.
-/

namespace ReactCatalog

/-! ## Names in a path -/

theorem slash_not_mem_segments {bytes piece : List UInt8} (h : piece ∈ Path.segments bytes) : Path.slash ∉ piece := by
  induction bytes generalizing piece with
  | nil =>
    rw [List.mem_singleton.1 h]
    exact List.not_mem_nil
  | cons b rest ih =>
    rw [Path.segments] at h
    split at h
    · rcases List.mem_cons.1 h with rfl | h
      · exact List.not_mem_nil
      · exact ih h
    · next hb =>
      cases hs : Path.segments rest with
      | nil => exact absurd hs (Path.segments_ne_nil rest)
      | cons s more =>
        rw [hs] at h ih
        rcases List.mem_cons.1 h with rfl | h
        · rw [List.mem_cons, not_or]
          exact ⟨Ne.symm hb, ih List.mem_cons_self⟩
        · exact ih (List.mem_cons_of_mem _ h)

theorem slash_not_mem_name {p : Path} {n : Name} (h : .name n ∈ p.parts) : Path.slash ∉ n := by
  have hbody : .name n ∈ (Path.segments p.bytes).filterMap Path.partOf? := by
    unfold Path.parts at h
    dsimp only at h
    split at h
    · simpa using h
    · split at h
      · simpa using h
      · exact h
  obtain ⟨piece, hpiece, hpart⟩ := List.mem_filterMap.1 hbody
  unfold Path.partOf? at hpart
  split at hpart
  · cases hpart
  · split at hpart
    · cases hpart
    · cases hpart
      exact slash_not_mem_segments hpiece

/-- Paths with the same module have the same parts. -/
theorem parts_eq_of_module {root p q : Path} {module : String} (hp : moduleOfPath? root p = some module)
    (hq : moduleOfPath? root q = some module) : p.parts = q.parts := by
  obtain ⟨texts, hne, hparts, rfl⟩ := moduleOfPath?_eq_some.1 hp
  obtain ⟨texts', hne', hparts', hmodule⟩ := moduleOfPath?_eq_some.1 hq
  have hslash : ∀ (r : Path) (ss : List String), r.parts = root.parts ++ ss.map (fun s => .name (Text.utf8 s)) →
      ∀ cs ∈ ss.map String.toList, '/' ∉ cs := by
    intro r ss hr cs hcs
    obtain ⟨s, hs, rfl⟩ := List.mem_map.1 hcs
    have hname : .name (Text.utf8 s) ∈ r.parts := by
      rw [hr]
      exact List.mem_append_right _ (List.mem_map.2 ⟨s, hs, rfl⟩)
    have hshown := Text.slash_not_mem_decodeLossy (slash_not_mem_name hname)
    rwa [Text.decodeLossy_utf8] at hshown
  rw [hparts, hparts', intercalate_slash_injective (hslash p texts hparts) (hslash q texts' hparts') hne hne' hmodule]

/-! ## Candidates -/

/-- The names of a path below a directory are text. -/
def AreText (names : Trail) : Prop := ∀ n ∈ names, ∃ s, n = Text.utf8 s

theorem areText_iff {names : Trail} : AreText names ↔ ∃ texts : List String, names = texts.map Text.utf8 := by
  constructor
  · intro h
    induction names with
    | nil => exact ⟨[], rfl⟩
    | cons n rest ih =>
      obtain ⟨⟨s, rfl⟩, hrest⟩ := List.forall_mem_cons.1 h
      obtain ⟨ss, rfl⟩ := ih hrest
      exact ⟨s :: ss, rfl⟩
  · rintro ⟨texts, rfl⟩ n hn
    obtain ⟨s, _, rfl⟩ := List.mem_map.1 hn
    exact ⟨s, rfl⟩

theorem exists_names_of_mem {t : FileTree} (ht : t.top.WellNamed) {filter : CandidateFilter} {root : Path}
    {c : Candidate} (hc : c ∈ (collectCandidates t filter root).1) :
    ∃ names, c = candidateAt root names ∧ names ≠ [] ∧ root.bytes ≠ [] ∧ ∀ n ∈ names, Path.IsName n := by
  rw [collectCandidates_eq ht] at hc
  obtain ⟨names, hmem, rfl⟩ := List.mem_map.1 hc
  have hsearched := List.mem_of_mem_filter (List.mem_mergeSort.1 hmem)
  obtain ⟨hne, hn, here, e, hl, _⟩ := find?_of_mem_searchedNames ht hsearched
  exact ⟨names, rfl, hne, (FileTree.locate_descend hl).1, hn⟩

/-- A candidate is looked up under its relative name if all names that lead to it from the directory are text; if not,
the look-up fails and names the path. A path has a module if it goes on from the directory by names that are text, and
two paths with the same module have the same parts. -/
theorem modules_of_paths (root : Path) :
    (∀ (t : FileTree) (filter : CandidateFilter), t.top.WellNamed → ∀ c ∈ (collectCandidates t filter root).1,
      ∃ names : Trail, names ≠ [] ∧ c.path.parts = root.parts ++ names.map .name ∧
        (∀ module, moduleOfPath? root c.path = some module ↔ AreText names ∧ module = c.relative) ∧
        (¬AreText names → ∀ registry, annotationFor registry root c.path =
          .error ("Cannot derive a module identifier for " ++ c.path.display))) ∧
    (∀ p module, moduleOfPath? root p = some module ↔ ∃ texts : List String, texts ≠ [] ∧
      p.parts = root.parts ++ texts.map (fun s => .name (Text.utf8 s)) ∧ module = "/".intercalate texts) ∧
    ∀ p q module, moduleOfPath? root p = some module → moduleOfPath? root q = some module → p.parts = q.parts := by
  refine ⟨?_, fun p module => moduleOfPath?_eq_some, fun p q module => parts_eq_of_module⟩
  intro t filter ht c hc
  obtain ⟨names, rfl, hne, hroot, hn⟩ := exists_names_of_mem ht hc
  have hmodule : ∀ module, moduleOfPath? root (candidateAt root names).path = some module ↔
      AreText names ∧ module = (candidateAt root names).relative := by
    intro module
    rw [areText_iff]
    refine (moduleOfPath?_descend hroot hn hne).trans ?_
    constructor
    · rintro ⟨texts, rfl, rfl⟩
      exact ⟨⟨texts, rfl⟩, (relativeText_utf8 texts).symm⟩
    · rintro ⟨⟨texts, rfl⟩, rfl⟩
      exact ⟨texts, rfl, relativeText_utf8 texts⟩
  refine ⟨names, hne, Path.parts_descend hroot hn, hmodule, fun htext registry => ?_⟩
  have hnone : moduleOfPath? root (candidateAt root names).path = none :=
    Option.eq_none_iff_forall_ne_some.2 fun module h => htext ((hmodule module).1 h).1
  rw [annotationFor, hnone]
  rfl

/-- A directory beside another, with a file whose name is no text and one whose name is. -/
def spelledTree : FileTree where
  top := .directory directoryMode
    [(Text.utf8 "lib", .directory directoryMode []), (Text.utf8 "src", .directory directoryMode mixedFiles)]

/-- The directory, by a way around and with more slashes and dots than it takes. -/
def spelledRoot : Path := .ofString "lib/../src//./"

theorem spelledTree_wellNamed : spelledTree.top.WellNamed := by
  refine .directory (by decide +kernel) (by decide +kernel) ?_
  have hmixed : (flatTree mixedFiles).top.WellNamed :=
    wellNamed_flatTree (by decide +kernel) (by decide +kernel) (by simp [mixedFiles])
  rw [List.forall_mem_cons, List.forall_mem_singleton]
  exact ⟨.directory (by simp) (by simp) (by simp), hmixed⟩

theorem spelled_modules :
    let candidates := (collectCandidates spelledTree { extensions := ["jsx"] } spelledRoot).1
    let named (n : Name) : Candidate := ⟨spelledRoot.join ⟨n⟩, Text.decodeLossy n⟩
    named (Text.utf8 "A.jsx") ∈ candidates ∧ named (0xff :: Text.utf8 ".jsx") ∈ candidates ∧
      moduleOfPath? spelledRoot (named (Text.utf8 "A.jsx")).path = some "A.jsx" ∧
      annotationFor .empty spelledRoot (named (0xff :: Text.utf8 ".jsx")).path =
        .error "Cannot derive a module identifier for lib/../src//./\uFFFD.jsx" := by
  intro candidates named
  have hmem : ∀ n ∈ mixedFiles.map Prod.fst, named n ∈ candidates := by
    intro n hn
    refine (List.mergeSort_perm _ _).mem_iff.2 ?_
    revert n
    decide +kernel
  have hnames : ∀ n, Path.IsName n → ∀ names : Trail,
      (named n).path.parts = spelledRoot.parts ++ names.map .name → names = [n] := by
    intro n hn names hparts
    rw [Path.parts_join (by decide +kernel) hn] at hparts
    exact (List.map_injective_iff.2 (fun _ _ h => Path.Part.name.inj h) (List.append_cancel_left hparts)).symm
  have htext := hmem (Text.utf8 "A.jsx") (by decide +kernel)
  have hbytes := hmem (0xff :: Text.utf8 ".jsx") (by decide +kernel)
  obtain ⟨names, _, hparts, hmodule, _⟩ := (modules_of_paths spelledRoot).1 _ _ spelledTree_wellNamed _ htext
  obtain ⟨names', _, hparts', _, herror⟩ := (modules_of_paths spelledRoot).1 _ _ spelledTree_wellNamed _ hbytes
  obtain rfl := hnames _ (by decide +kernel) names hparts
  obtain rfl := hnames _ (by decide +kernel) names' hparts'
  refine ⟨htext, hbytes, (hmodule _).2 ⟨?_, by decide +kernel⟩, (herror ?_ .empty).trans ?_⟩
  · exact List.forall_mem_singleton.2 ⟨_, rfl⟩
  · intro h
    obtain ⟨s, hs⟩ := h _ List.mem_cons_self
    have hnone : Text.decode? (0xff :: Text.utf8 ".jsx") = none := by decide +kernel
    rw [Text.decode?_eq_some_iff.2 hs] at hnone
    cases hnone
  · exact congrArg Except.error (by decide +kernel)

end ReactCatalog
