import ReactCatalog.Proofs.Batch
import ReactCatalog.Proofs.Selection

/-!
# Relative names and the order of listing

The relative name of an entry shows what is no text as replacement characters, so entries with different bytes may be
shown alike. Where that does not happen the relative names are different, and neither the candidates nor the catalog
depend on the order in which directories list their entries (`relatives_distinct`). Entries that are shown alike are in
the order of the listing (`alike_files_in_listed_order`).
-/

namespace ReactCatalog

/-! ## Shown names -/

theorem slash_not_mem_shown {names : Trail} (hn : ∀ n ∈ names, Path.IsName n) :
    ∀ cs ∈ (names.map Text.decodeLossy).map String.toList, '/' ∉ cs := by
  intro cs hcs
  obtain ⟨s, hs, rfl⟩ := List.mem_map.1 hcs
  obtain ⟨n, hmem, rfl⟩ := List.mem_map.1 hs
  exact Text.slash_not_mem_decodeLossy (hn n hmem).no_slash

/-- Texts that were joined by slashes can be told apart again. -/
theorem intercalate_slash_injective {texts texts' : List String}
    (h : ∀ cs ∈ texts.map String.toList, '/' ∉ cs) (h' : ∀ cs ∈ texts'.map String.toList, '/' ∉ cs)
    (hne : texts ≠ []) (hne' : texts' ≠ []) (heq : "/".intercalate texts = "/".intercalate texts') :
    texts = texts' := by
  have hlists : ['/'].intercalate (texts.map String.toList) = ['/'].intercalate (texts'.map String.toList) := by
    have hchars := congrArg String.toList heq
    rwa [String.toList_intercalate, String.toList_intercalate] at hchars
  have hsplit := congrArg (List.splitOn '/') hlists
  rw [List.splitOn_intercalate '/' h (by simpa using hne), List.splitOn_intercalate '/' h' (by simpa using hne')]
    at hsplit
  exact List.map_injective_iff.2 (fun _ _ => String.toList_inj.1) hsplit

/-- Relative names are equal if each name is shown as its counterpart. -/
theorem relativeText_eq_iff {names names' : Trail} (hne : names ≠ []) (hne' : names' ≠ [])
    (hn : ∀ n ∈ names, Path.IsName n) (hn' : ∀ n ∈ names', Path.IsName n) :
    relativeText names = relativeText names' ↔ names.map Text.decodeLossy = names'.map Text.decodeLossy := by
  constructor
  · intro h
    exact intercalate_slash_injective (slash_not_mem_shown hn) (slash_not_mem_shown hn') (by simpa using hne)
      (by simpa using hne') h
  · intro h
    rw [relativeText, h, relativeText]

/-- Names that are text are shown as what they are. -/
theorem shown_utf8 (texts : List String) : (texts.map Text.utf8).map Text.decodeLossy = texts := by
  rw [List.map_map]
  exact (List.map_congr_left fun s _ => Text.decodeLossy_utf8 s).trans (List.map_id _)

/-! ## Entries of candidates -/

/-- The entry at these names is one that the options ask for. -/
def Options.Selects (o : Options) (t : FileTree) (names : Trail) : Prop :=
  Selected t o.extensions o.exclude o.recursive o.inputDir names

section

variable {t : FileTree}

/-- The candidates come from the selected entries, each of them once, sorted by their relative names. -/
theorem exists_entries (ht : t.top.WellNamed) (o : Options) :
    ∃ entries : List Trail, candidatesFor t o = entries.map (candidateAt o.inputDir) ∧ entries.Nodup ∧
      (∀ names, names ∈ entries ↔ o.Selects t names) ∧
      entries.Pairwise fun a b => relativeText a ≤ relativeText b := by
  have hperm := List.mergeSort_perm ((searchedNames t o.recursive o.inputDir).filter (isWanted t o.filter o.inputDir))
    fun a b => decide (relativeText a ≤ relativeText b)
  refine ⟨_, collectCandidates_eq ht o.filter o.inputDir, ?_, ?_, ?_⟩
  · exact hperm.nodup_iff.2 ((nodup_searchedNames ht o.recursive o.inputDir).filter _)
  · intro names
    exact hperm.mem_iff.trans (selected_iff ht o.extensions o.exclude o.recursive o.inputDir names)
  · refine (List.pairwise_mergeSort ?_ ?_ _).imp of_decide_eq_true
    · intro a b c hab hbc
      exact decide_eq_true (le_trans (of_decide_eq_true hab) (of_decide_eq_true hbc))
    · intro a b
      simpa using le_total (relativeText a) (relativeText b)

theorem ne_nil_of_selects {o : Options} {names : Trail} (h : o.Selects t names) : names ≠ [] := by
  obtain ⟨_, _, hne, _⟩ := h.file
  exact hne

theorem relativeText_eq_of_selects (ht : t.top.WellNamed) {o : Options} {a b : Trail} (ha : o.Selects t a)
    (hb : o.Selects t b) :
    relativeText a = relativeText b ↔ a.map Text.decodeLossy = b.map Text.decodeLossy :=
  relativeText_eq_iff (ne_nil_of_selects ha) (ne_nil_of_selects hb) (names_of_selected ht ha).2
    (names_of_selected ht hb).2

/-- No two selected entries are shown alike. -/
def Options.ShowsApart (o : Options) (t : FileTree) : Prop :=
  ∀ a b, o.Selects t a → o.Selects t b → a.map Text.decodeLossy = b.map Text.decodeLossy → a = b

theorem nodup_relatives_iff (ht : t.top.WellNamed) (o : Options) :
    ((candidatesFor t o).map Candidate.relative).Nodup ↔ o.ShowsApart t := by
  obtain ⟨entries, hc, hnodup, hselects, _⟩ := exists_entries ht o
  have hrelatives : (candidatesFor t o).map Candidate.relative = entries.map relativeText := by
    rw [hc, List.map_map]
    rfl
  rw [hrelatives]
  constructor
  · intro h a b ha hb hshown
    exact List.inj_on_of_nodup_map h ((hselects a).2 ha) ((hselects b).2 hb)
      ((relativeText_eq_of_selects ht ha hb).2 hshown)
  · intro h
    refine List.Nodup.map_on ?_ hnodup
    intro a ha b hb heq
    have ha' := (hselects a).1 ha
    have hb' := (hselects b).1 hb
    exact h a b ha' hb' ((relativeText_eq_of_selects ht ha' hb').1 heq)

/-- Sorted relative names increase if they are different. -/
theorem increasing_iff (ht : t.top.WellNamed) (o : Options) :
    (candidatesFor t o).Pairwise (fun a b => a.relative < b.relative) ↔
      ((candidatesFor t o).map Candidate.relative).Nodup := by
  obtain ⟨entries, hc, _, _, hsorted⟩ := exists_entries ht o
  have hle : (candidatesFor t o).Pairwise fun a b => a.relative ≤ b.relative := by
    rw [hc, List.pairwise_map]
    exact hsorted
  unfold List.Nodup
  rw [List.pairwise_map]
  constructor
  · intro h
    exact h.imp fun hlt => hlt.ne
  · intro h
    exact (hle.and h).imp fun hboth => lt_of_le_of_ne hboth.1 hboth.2

theorem showsApart_of_text {o : Options}
    (h : ∀ names, o.Selects t names → ∃ texts : List String, names = texts.map Text.utf8) : o.ShowsApart t := by
  intro a b ha hb hshown
  obtain ⟨texts, rfl⟩ := h a ha
  obtain ⟨texts', rfl⟩ := h b hb
  rw [shown_utf8, shown_utf8] at hshown
  rw [hshown]

end

/-! ## Other orders of listing -/

namespace FileTree

/-- The same entries are at the same places. Directories may list them in another order. -/
structure Relisted (t t' : FileTree) : Prop where
  entry : ∀ here, t.entryAt? here = t'.entryAt? here
  start : t.workingDirectory = t'.workingDirectory

/-- Entries with different names can be listed in any order. -/
theorem relisted_of_perm {m : Nat} {children children' : List (Name × Entry)} (hp : children.Perm children')
    (hn : (children.map Prod.fst).Nodup) (start : Trail) :
    Relisted ⟨.directory m children, start⟩ ⟨.directory m children', start⟩ := by
  have hn' : (children'.map Prod.fst).Nodup := (hp.map Prod.fst).nodup_iff.1 hn
  refine ⟨?_, rfl⟩
  intro here
  cases here with
  | nil => rfl
  | cons n rest =>
    have hlookup : List.lookup n children = List.lookup n children' := by
      apply Option.ext
      intro e
      rw [lookup_eq_some_iff_mem hn, lookup_eq_some_iff_mem hn', hp.mem_iff]
    simp only [entryAt?, Entry.find?, hlookup]

theorem entryAt?_eq_file_iff {t : FileTree} {here : Trail} {bytes : List UInt8} {m : Nat} :
    t.entryAt? here = some (.file bytes m) ↔ t.top.find? here = some (.file bytes m) := by
  unfold entryAt?
  cases t.top.find? here with
  | none => simp
  | some e => cases e <;> simp [Entry.alone]

theorem entryAt?_eq_link_iff {t : FileTree} {here : Trail} {target : Path} :
    t.entryAt? here = some (.link target) ↔ t.top.find? here = some (.link target) := by
  unfold entryAt?
  cases t.top.find? here with
  | none => simp
  | some e => cases e <;> simp [Entry.alone]

namespace Relisted

variable {t t' : FileTree}

theorem symm (h : Relisted t t') : Relisted t' t := ⟨fun here => (h.entry here).symm, h.start.symm⟩

theorem alike (h : Relisted t t') : Alike (fun _ => True) t t' where
  outline here _ := by rw [outlineAt?_eq_entryAt?, outlineAt?_eq_entryAt?, h.entry here]
  link _ _ _ _ _ := trivial
  start_eq := h.start
  start_ok _ _ := trivial

theorem locate (h : Relisted t t') (p : Path) : t.locate p = t'.locate p :=
  (h.alike.locate fun _ _ => trivial).1

theorem file? (h : Relisted t t') (p : Path) : t.file? p = t'.file? p := by
  cases hp : t.locate p with
  | error e =>
    have hp' : t'.locate p = .error e := h.locate p ▸ hp
    simp [FileTree.file?, find, hp, hp', bind, Except.bind]
  | ok here =>
    have hp' : t'.locate p = .ok here := h.locate p ▸ hp
    rw [file?_of_locate hp, file?_of_locate hp', h.entry here]

theorem isFile (h : Relisted t t') (p : Path) : t.isFile p = t'.isFile p := by
  have hiff : ∀ u : FileTree, u.isFile p = (u.file? p).isSome := by
    intro u
    unfold FileTree.isFile FileTree.file?
    split <;> simp_all
  rw [hiff, hiff, h.file?]

theorem selects (h : Relisted t t') {o : Options} {names : Trail} (hs : o.Selects t names) : o.Selects t' names := by
  obtain ⟨here, hl, hne, hentry⟩ := hs.file
  refine ⟨⟨here, h.locate _ ▸ hl, hne, ?_⟩, hs.extension, hs.not_excluded, hs.searched⟩
  rcases hentry with ⟨bytes, m, hf⟩ | ⟨target, hf, hfile⟩
  · left
    refine ⟨bytes, m, entryAt?_eq_file_iff.1 ?_⟩
    rw [← h.entry]
    exact entryAt?_eq_file_iff.2 hf
  · right
    refine ⟨target, entryAt?_eq_link_iff.1 ?_, h.isFile _ ▸ hfile⟩
    rw [← h.entry]
    exact entryAt?_eq_link_iff.2 hf

theorem selects_iff (h : Relisted t t') (o : Options) (names : Trail) : o.Selects t names ↔ o.Selects t' names :=
  ⟨h.selects, h.symm.selects⟩

theorem outcomeOf (h : Relisted t t') (registry : Registry) (o : Options) (c : Candidate) :
    outcomeOf t' registry o c = outcomeOf t registry o c := by
  unfold ReactCatalog.outcomeOf FileTree.bytesAt
  rw [h.file? c.path]

variable (ht : t.top.WellNamed) (ht' : t'.top.WellNamed)

include ht ht'

/-- The entries of the candidates are the same, and sorted by their relative names. -/
theorem exists_listings (h : Relisted t t') (o : Options) :
    ∃ entries entries' : List Trail, ReactCatalog.candidatesFor t o = entries.map (candidateAt o.inputDir) ∧
      ReactCatalog.candidatesFor t' o = entries'.map (candidateAt o.inputDir) ∧ entries'.Perm entries ∧
      (∀ names, names ∈ entries ↔ o.Selects t names) ∧
      (entries.Pairwise fun a b => relativeText a ≤ relativeText b) ∧
      entries'.Pairwise fun a b => relativeText a ≤ relativeText b := by
  obtain ⟨entries, hc, hnodup, hselects, hsorted⟩ := exists_entries ht o
  obtain ⟨entries', hc', hnodup', hselects', hsorted'⟩ := exists_entries ht' o
  have hperm : entries'.Perm entries := by
    rw [List.perm_ext_iff_of_nodup hnodup' hnodup]
    intro names
    rw [hselects', hselects, h.selects_iff]
  exact ⟨entries, entries', hc, hc', hperm, hselects, hsorted, hsorted'⟩

/-- The relative names do not depend on the order of listing. -/
theorem relatives (h : Relisted t t') (o : Options) :
    (ReactCatalog.candidatesFor t' o).map Candidate.relative =
      (ReactCatalog.candidatesFor t o).map Candidate.relative := by
  obtain ⟨entries, entries', hc, hc', hperm, _, hsorted, hsorted'⟩ := h.exists_listings ht ht' o
  have hle : ((entries.map (candidateAt o.inputDir)).map Candidate.relative).Pairwise (· ≤ ·) := by
    rw [List.map_map, List.pairwise_map]
    exact hsorted
  have hle' : ((entries'.map (candidateAt o.inputDir)).map Candidate.relative).Pairwise (· ≤ ·) := by
    rw [List.map_map, List.pairwise_map]
    exact hsorted'
  rw [hc, hc']
  exact List.Perm.eq_of_pairwise (fun a b _ _ => le_antisymm) hle' hle ((hperm.map _).map _)

/-- Where no two entries are shown alike, the candidates do not depend on it either. -/
theorem candidatesFor (h : Relisted t t') {o : Options} (hapart : o.ShowsApart t) :
    ReactCatalog.candidatesFor t' o = ReactCatalog.candidatesFor t o := by
  obtain ⟨entries, entries', hc, hc', hperm, hselects, hsorted, hsorted'⟩ := h.exists_listings ht ht' o
  have hentries : entries' = entries := by
    refine List.Perm.eq_of_pairwise ?_ hsorted' hsorted hperm
    intro a b ha hb hab hba
    have ha' := (hselects a).1 (hperm.mem_iff.1 ha)
    have hb' := (hselects b).1 hb
    exact hapart a b ha' hb' ((relativeText_eq_of_selects ht ha' hb').1 (le_antisymm hab hba))
  rw [hc, hc', hentries]

theorem newText (h : Relisted t t') (registry : Registry) {o : Options} (hapart : o.ShowsApart t) :
    newText t' registry o = newText t registry o := by
  unfold ReactCatalog.newText
  rw [outcomes_eq, outcomes_eq, h.candidatesFor ht ht' hapart, List.map_congr_left fun c _ => h.outcomeOf registry o c]

end Relisted

end FileTree

/-! ## Distinct names -/

/-- The relative names of the candidates are different, and increase, if and only if no two of them are shown alike, as
is the case where all names are text. The records of a catalog then have different files, and the order in which
directories list their entries does not matter; to the relative names it never does. -/
theorem relatives_distinct {t : FileTree} (ht : t.top.WellNamed) (o : Options) :
    (((candidatesFor t o).map Candidate.relative).Nodup ↔ o.ShowsApart t) ∧
    ((candidatesFor t o).Pairwise (fun a b => a.relative < b.relative) ↔ o.ShowsApart t) ∧
    ((∀ names, o.Selects t names → ∃ texts : List String, names = texts.map Text.utf8) → o.ShowsApart t) ∧
    (∀ registry faults report, (generate t registry o faults).result = .ok report →
      ∃ records, OnlyWritten t (generate t registry o faults).tree o.output (catalogText records) ∧
        (o.ShowsApart t → (records.map Record.file).Nodup)) ∧
    ∀ t' : FileTree, t.Relisted t' → t'.top.WellNamed →
      (candidatesFor t' o).map Candidate.relative = (candidatesFor t o).map Candidate.relative ∧
      (o.ShowsApart t → candidatesFor t' o = candidatesFor t o ∧
        ∀ registry, newText t' registry o = newText t registry o) := by
  have hnodup := nodup_relatives_iff ht o
  refine ⟨hnodup, (increasing_iff ht o).trans hnodup, showsApart_of_text, ?_, ?_⟩
  · intro registry faults report hok
    refine ⟨_, (generate_ok hok).2, ?_⟩
    intro hapart
    have hfiles : ((keptFor t registry o).map fun c => (outcomeOf t registry o c).record).map Record.file =
        (keptFor t registry o).map Candidate.relative := by
      rw [List.map_map]
      rfl
    rw [keptRecords_eq, hfiles]
    exact (hnodup.2 hapart).sublist (List.filter_sublist.map _)
  · intro t' hlisted ht'
    exact ⟨hlisted.relatives ht ht' o, fun hapart =>
      ⟨hlisted.candidatesFor ht ht' hapart, fun registry => hlisted.newText ht ht' registry hapart⟩⟩

def emptyFile : Entry := .file [] 0o644

/-- A file whose name is no text, and one whose name is. -/
def mixedFiles : List (Name × Entry) := [(0xff :: Text.utf8 ".jsx", emptyFile), (Text.utf8 "A.jsx", emptyFile)]

/-- Two files that are shown alike. -/
def alikeFiles : List (Name × Entry) := [(0xfe :: Text.utf8 ".jsx", emptyFile), (0xff :: Text.utf8 ".jsx", emptyFile)]

/-- A directory with nothing but files. -/
def flatTree (files : List (Name × Entry)) : FileTree := { top := .directory directoryMode files }

def flatOptions : Options where
  inputDir := .ofString "."
  output := .ofString "out.json"

theorem wellNamed_flatTree {files : List (Name × Entry)} (hnodup : (files.map Prod.fst).Nodup)
    (hnames : ∀ c ∈ files, Path.IsName c.1) (hfiles : ∀ c ∈ files, c.2 = emptyFile) :
    (flatTree files).top.WellNamed := by
  refine .directory hnodup hnames ?_
  intro c hc
  rw [hfiles c hc]
  exact .file _ _

theorem mixed_files_sorted :
    (candidatesFor (flatTree mixedFiles) flatOptions).Pairwise (fun a b => a.relative < b.relative) ∧
    candidatesFor (flatTree mixedFiles.reverse) flatOptions = candidatesFor (flatTree mixedFiles) flatOptions := by
  have ht : (flatTree mixedFiles).top.WellNamed :=
    wellNamed_flatTree (by decide +kernel) (by decide +kernel) (by simp [mixedFiles])
  have ht' : (flatTree mixedFiles.reverse).top.WellNamed :=
    wellNamed_flatTree (by decide +kernel) (by decide +kernel) (by simp [mixedFiles])
  have hlisted : (flatTree mixedFiles).Relisted (flatTree mixedFiles.reverse) :=
    FileTree.relisted_of_perm (List.reverse_perm _).symm (by decide +kernel) []
  obtain ⟨hnodup, hincreasing, _, _, hrelisted⟩ := relatives_distinct ht flatOptions
  have hapart : flatOptions.ShowsApart (flatTree mixedFiles) := by
    rw [← hnodup, ((perm_candidatesFor _ _).map _).nodup_iff]
    decide +kernel
  exact ⟨hincreasing.2 hapart, ((hrelisted _ hlisted ht').2 hapart).1⟩

/-- What is found in the right order is left in it. -/
theorem candidatesFor_of_sorted {t : FileTree} {o : Options} {found : List Candidate}
    (hfound : (entriesUnder t o.recursive o.inputDir).1.filterMap (candidate? t o.filter o.inputDir) = found)
    (hsorted : found.Pairwise fun a b => a.relative ≤ b.relative) : candidatesFor t o = found := by
  show sortCandidates ((entriesUnder t o.recursive o.inputDir).1.filterMap (candidate? t o.filter o.inputDir)) = found
  rw [hfound]
  exact List.mergeSort_of_pairwise (hsorted.imp fun h => decide_eq_true h)

theorem alike_files_in_listed_order :
    (flatTree alikeFiles).top.WellNamed ∧
    (candidatesFor (flatTree alikeFiles) flatOptions).map Candidate.relative = ["\uFFFD.jsx", "\uFFFD.jsx"] ∧
    ((keptFor (flatTree alikeFiles) .empty flatOptions).map fun c =>
      (outcomeOf (flatTree alikeFiles) .empty flatOptions c).record.file) = ["\uFFFD.jsx", "\uFFFD.jsx"] ∧
    (flatTree alikeFiles).Relisted (flatTree alikeFiles.reverse) ∧
    candidatesFor (flatTree alikeFiles.reverse) flatOptions ≠ candidatesFor (flatTree alikeFiles) flatOptions := by
  have hcandidates : ∀ files, files = alikeFiles ∨ files = alikeFiles.reverse →
      candidatesFor (flatTree files) flatOptions =
        files.map fun c => ⟨(Path.ofString ".").join ⟨c.1⟩, "\uFFFD.jsx"⟩ := by
    rintro files (rfl | rfl)
    · exact candidatesFor_of_sorted (by decide +kernel) (by decide +kernel)
    · exact candidatesFor_of_sorted (by decide +kernel) (by decide +kernel)
  have hlisted := hcandidates alikeFiles (.inl rfl)
  have hrelisted := hcandidates alikeFiles.reverse (.inr rfl)
  refine ⟨?_, ?_, ?_, FileTree.relisted_of_perm (List.reverse_perm _).symm (by decide +kernel) [], ?_⟩
  · exact wellNamed_flatTree (by decide +kernel) (by decide +kernel) (by simp [alikeFiles])
  · rw [hlisted]
    rfl
  · have hkept : keptFor (flatTree alikeFiles) .empty flatOptions = candidatesFor (flatTree alikeFiles) flatOptions := by
      simp [keptFor, flatOptions]
    rw [hkept, hlisted]
    rfl
  · rw [hlisted, hrelisted]
    decide +kernel

end ReactCatalog
