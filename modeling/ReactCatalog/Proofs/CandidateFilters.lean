import ReactCatalog.Proofs.RelativeNames

/-!
# Laws of filters

What is asked of candidates can be asked in steps: more patterns leave out more of the same list, patterns that are not
well formed leave out nothing, and more extensions let in what each of them lets in. Without subdirectories the
candidates are those of the whole search that have no slash in their relative names. The order stays as it is, for
sorting keeps equal names in the order in which they come (`filter_mergeSort`).
-/

namespace ReactCatalog

/-! ## Sorting what is left -/

section

variable {α : Type} {le : α → α → Bool} (trans : ∀ a b c, le a b → le b c → le a c)
  (total : ∀ a b, le a b || le b a)

include trans total

/-- Sorting puts the first of a list behind what has to come before it and in front of everything else. -/
theorem mergeSort_cons_eq (a : α) (l : List α) :
    (a :: l).mergeSort le = ((l.mergeSort le).filter fun b => !le a b) ++ a :: (l.mergeSort le).filter (le a) ∧
    l.mergeSort le = ((l.mergeSort le).filter fun b => !le a b) ++ (l.mergeSort le).filter (le a) := by
  obtain ⟨before, after, hcons, hl, hbefore⟩ := List.mergeSort_cons trans total a l
  have hafter : ∀ b ∈ after, le a b = true := by
    have hsorted := List.pairwise_mergeSort trans total (a :: l)
    rw [hcons, List.pairwise_append, List.pairwise_cons] at hsorted
    exact hsorted.2.1.1
  have hfirst : ((before ++ after).filter fun b => !le a b) = before := by
    rw [List.filter_append, List.filter_eq_self.2 hbefore, List.filter_eq_nil_iff.2, List.append_nil]
    intro b hb
    simp [hafter b hb]
  have hlast : (before ++ after).filter (le a) = after := by
    rw [List.filter_append, List.filter_eq_self.2 hafter, List.filter_eq_nil_iff.2, List.nil_append]
    intro b hb
    simpa using hbefore b hb
  rw [hcons, hl, hfirst, hlast]
  exact ⟨rfl, rfl⟩

/-- What is left out of a list may be left out before or after it is sorted. -/
theorem filter_mergeSort (p : α → Bool) (l : List α) : (l.mergeSort le).filter p = (l.filter p).mergeSort le := by
  induction l with
  | nil => simp
  | cons a l ih =>
    obtain ⟨hcons, hsplit⟩ := mergeSort_cons_eq trans total a l
    rw [hcons, List.filter_append]
    by_cases hp : p a = true
    · rw [List.filter_cons_of_pos hp, List.filter_cons_of_pos hp, (mergeSort_cons_eq trans total a _).1, ← ih,
        List.filter_comm, List.filter_comm (p := p) (q := le a)]
    · rw [List.filter_cons_of_neg hp, List.filter_cons_of_neg hp, ← ih, ← List.filter_append, ← hsplit]

end

/-- This is so for lists that are sorted by a text. -/
theorem filter_mergeSort_text {α : Type} (text : α → String) (p : α → Bool) (l : List α) :
    (l.mergeSort fun a b => decide (text a ≤ text b)).filter p =
      (l.filter p).mergeSort fun a b => decide (text a ≤ text b) := by
  apply filter_mergeSort
  · intro a b c hab hbc
    exact decide_eq_true (le_trans (of_decide_eq_true hab) (of_decide_eq_true hbc))
  · intro a b
    simpa using le_total (text a) (text b)

/-! ## Patterns and extensions -/

/-- The pattern is well formed and covers the relative name. -/
def patternCovers (pattern relative : String) : Bool :=
  (Glob.read? pattern).any fun tokens => Glob.covers tokens (Text.utf8 relative)

theorem isExcluded_eq (patterns : List String) (relative : String) :
    isExcluded (readPatterns patterns).1 relative = patterns.any fun p => patternCovers p relative := by
  rw [Bool.eq_iff_iff, ← not_iff_not, Bool.not_eq_true, Bool.not_eq_true, isExcluded_iff, List.any_eq_false]
  refine forall₂_congr fun pattern _ => ?_
  cases h : Glob.read? pattern with
  | none => simp [patternCovers, h]
  | some tokens => simp [patternCovers, h]

theorem hasExtension_append (extensions extensions' : List String) (p : Path) :
    hasExtension (extensions ++ extensions') p = (hasExtension extensions p || hasExtension extensions' p) := by
  unfold hasExtension
  cases p.extensionText? with
  | none => rfl
  | some ext => simp

/-- The candidates under a directory for some extensions and patterns. -/
def candidatesUnder (t : FileTree) (root : Path) (extensions patterns : List String) (recursive : Bool) :
    List Candidate :=
  (collectCandidates t ⟨extensions, (readPatterns patterns).1, recursive⟩ root).1

/-- What extensions and patterns ask of a file. -/
def fits (t : FileTree) (extensions patterns : List String) (c : Candidate) : Bool :=
  t.isFile c.path && hasExtension extensions c.path && !patterns.any fun p => patternCovers p c.relative

theorem candidate?_eq (t : FileTree) (extensions patterns : List String) (recursive : Bool) (root p : Path) :
    candidate? t ⟨extensions, (readPatterns patterns).1, recursive⟩ root p =
      ((relativeName root p).map (Candidate.mk p)).filter (fits t extensions patterns) := by
  unfold candidate? fits
  cases relativeName root p with
  | none => simp
  | some relative =>
    simp only [Option.map_some, Option.filter_some, isExcluded_eq]
    cases t.isFile p && hasExtension extensions p with
    | false => rfl
    | true => cases patterns.any fun p => patternCovers p relative <;> rfl

section

variable {t : FileTree} {root : Path} {extensions extensions' patterns patterns' : List String} {recursive : Bool}

/-- To ask for more leaves out what it asks for, and changes nothing else. -/
theorem candidatesUnder_of_fits {keep : Candidate → Bool}
    (h : ∀ c, fits t extensions' patterns' c = (fits t extensions patterns c && keep c)) :
    candidatesUnder t root extensions' patterns' recursive =
      (candidatesUnder t root extensions patterns recursive).filter keep := by
  have hcandidate : candidate? t ⟨extensions', (readPatterns patterns').1, recursive⟩ root =
      fun p => (candidate? t ⟨extensions, (readPatterns patterns).1, recursive⟩ root p).filter keep := by
    funext p
    rw [candidate?_eq, candidate?_eq, Option.filter_filter]
    exact congrArg (Option.filter · _) (funext h)
  show sortCandidates ((entriesUnder t recursive root).1.filterMap _) =
    (sortCandidates ((entriesUnder t recursive root).1.filterMap _)).filter keep
  rw [sortCandidates, sortCandidates, filter_mergeSort_text, List.filter_filterMap, hcandidate]

theorem candidatesUnder_of_invalid {pattern : String} (h : Glob.read? pattern = none) :
    candidatesUnder t root extensions (patterns ++ pattern :: patterns') recursive =
      candidatesUnder t root extensions (patterns ++ patterns') recursive := by
  have hcovers : ∀ relative, patternCovers pattern relative = false := by
    intro relative
    rw [patternCovers, h]
    rfl
  rw [← List.filter_true (candidatesUnder t root extensions (patterns ++ patterns') recursive)]
  refine candidatesUnder_of_fits fun c => ?_
  simp only [fits, List.any_append, List.any_cons, hcovers, Bool.false_or, Bool.and_true]

/-- The candidates for some of the extensions are those that have one of them. -/
theorem candidatesUnder_of_subset (h : extensions ⊆ extensions') :
    candidatesUnder t root extensions patterns recursive =
      (candidatesUnder t root extensions' patterns recursive).filter fun c => hasExtension extensions c.path := by
  refine candidatesUnder_of_fits fun c => ?_
  have hmore : hasExtension extensions c.path = true → hasExtension extensions' c.path = true := by
    unfold hasExtension
    cases c.path.extensionText? with
    | none => exact id
    | some ext => simpa using fun hext => h hext
  unfold fits
  cases hext : hasExtension extensions c.path with
  | false => simp
  | true => simp [hmore hext]

theorem mem_candidatesUnder_append {c : Candidate} :
    c ∈ candidatesUnder t root (extensions ++ extensions') patterns recursive ↔
      c ∈ candidatesUnder t root extensions patterns recursive ∨
        c ∈ candidatesUnder t root extensions' patterns recursive := by
  have hall : ∀ c ∈ candidatesUnder t root (extensions ++ extensions') patterns recursive,
      hasExtension (extensions ++ extensions') c.path = true :=
    List.filter_eq_self.1 (candidatesUnder_of_subset (List.Subset.refl _)).symm
  rw [candidatesUnder_of_subset (List.subset_append_left extensions extensions'),
    candidatesUnder_of_subset (List.subset_append_right extensions extensions'), List.mem_filter, List.mem_filter,
    ← and_or_left, ← Bool.or_eq_true, ← hasExtension_append]
  exact ⟨fun hc => ⟨hc, hall c hc⟩, And.left⟩

end

/-! ## Subdirectories -/

/-- Without subdirectories a search comes to what it comes to at once. -/
theorem namesOf_false (n : Name) (e : Entry) :
    namesOf false n e = (namesOf true n e).filter fun names => names.length = 1 := by
  cases e with
  | file bytes m => rfl
  | link target => rfl
  | directory m children =>
    have hbelow : ((namesBelow true children).map (n :: ·)).filter (fun names => names.length = 1) = [] := by
      rw [List.filter_eq_nil_iff]
      intro names hnames
      obtain ⟨rest, hrest, rfl⟩ := List.mem_map.1 hnames
      simpa using ne_nil_of_mem_namesBelow hrest
    rw [namesOf, namesOf]
    cases isSkippedDirectory n with
    | true => rfl
    | false => simpa using hbelow

theorem namesBelow_false (children : List (Name × Entry)) :
    namesBelow false children = (namesBelow true children).filter fun names => names.length = 1 := by
  induction children with
  | nil => rfl
  | cons c rest ih => rw [namesBelow, namesBelow, List.filter_append, ih, namesOf_false]

theorem searchedNames_false (t : FileTree) (root : Path) :
    searchedNames t false root = (searchedNames t true root).filter fun names => names.length = 1 := by
  unfold searchedNames
  split
  · exact namesBelow_false _
  · rfl

/-- There is a slash in a relative name if there is more than one name to show. -/
theorem slash_mem_relativeText_iff {names : Trail} (hne : names ≠ []) (hn : ∀ n ∈ names, Path.IsName n) :
    '/' ∈ (relativeText names).toList ↔ names.length ≠ 1 := by
  have hshown := slash_not_mem_shown hn
  rw [relativeText, String.toList_intercalate]
  cases names with
  | nil => exact absurd rfl hne
  | cons n more =>
    cases more with
    | nil => simpa using hshown
    | cons k rest => simp [List.intercalate_cons_cons]

/-- Without subdirectories the candidates are those that have no slash in their relative names. -/
theorem candidatesUnder_false {t : FileTree} (ht : t.top.WellNamed) (root : Path) (extensions patterns : List String) :
    candidatesUnder t root extensions patterns false =
      (candidatesUnder t root extensions patterns true).filter fun c => '/' ∉ c.relative.toList := by
  have hslash : ∀ names ∈ searchedNames t true root,
      decide ('/' ∉ (relativeText names).toList) = decide (names.length = 1) := by
    intro names hmem
    obtain ⟨hne, hn, _⟩ := find?_of_mem_searchedNames ht hmem
    exact decide_eq_decide.2 (not_iff_comm.1 (slash_mem_relativeText_iff hne hn).symm)
  have hnames : (searchedNames t false root).filter (isWanted t ⟨extensions, (readPatterns patterns).1, false⟩ root) =
      ((searchedNames t true root).filter (isWanted t ⟨extensions, (readPatterns patterns).1, true⟩ root)).filter
        ((fun c => decide ('/' ∉ c.relative.toList)) ∘ candidateAt root) := by
    rw [searchedNames_false, List.filter_comm]
    exact List.filter_congr fun names hmem => (hslash names (List.mem_of_mem_filter hmem)).symm
  unfold candidatesUnder
  rw [collectCandidates_eq ht, collectCandidates_eq ht, List.filter_map, filter_mergeSort_text, hnames]

/-- More patterns leave out of the candidates what they cover, and a pattern that is not well formed leaves out nothing,
wherever it stands. For more extensions the candidates are those for one part of them or for the other, each part in the
order of the whole. Without subdirectories they are those that have no slash in their relative names, in the same
order. -/
theorem candidates_of_combined_filters (t : FileTree) (root : Path)
    (extensions extensions' patterns patterns' : List String) (recursive : Bool) :
    let candidates := candidatesUnder t root
    (candidates extensions (patterns ++ patterns') recursive =
      (candidates extensions patterns recursive).filter fun c => !patterns'.any fun p => patternCovers p c.relative) ∧
    (∀ pattern, Glob.read? pattern = none →
      candidates extensions (patterns ++ pattern :: patterns') recursive =
        candidates extensions (patterns ++ patterns') recursive) ∧
    (∀ c, c ∈ candidates (extensions ++ extensions') patterns recursive ↔
      c ∈ candidates extensions patterns recursive ∨ c ∈ candidates extensions' patterns recursive) ∧
    (∀ part ⊆ extensions ++ extensions', candidates part patterns recursive =
      (candidates (extensions ++ extensions') patterns recursive).filter fun c => hasExtension part c.path) ∧
    (t.top.WellNamed → candidates extensions patterns false =
      (candidates extensions patterns true).filter fun c => '/' ∉ c.relative.toList) := by
  refine ⟨?_, fun pattern h => candidatesUnder_of_invalid h, fun c => mem_candidatesUnder_append,
    fun part h => candidatesUnder_of_subset h, fun ht => candidatesUnder_false ht root extensions patterns⟩
  refine candidatesUnder_of_fits fun c => ?_
  simp only [fits, List.any_append, Bool.not_or, Bool.and_assoc]

/-- A file in a subdirectory is a candidate of the whole search only, and a bracket that is left open covers nothing. -/
theorem package_candidates_at_first_level :
    let candidates := candidatesUnder packageTree (.ofString "src") ["jsx"]
    Glob.read? "[" = none ∧ candidates ["[", "A*"] true = candidates ["A*"] true ∧
      candidates ["A*"] false = (candidates ["A*"] true).filter (fun c => '/' ∉ c.relative.toList) ∧
      ⟨.ofString "src/L.jsx", "L.jsx"⟩ ∈ candidates ["A*"] false ∧
      ⟨.ofString "src/lib/B.jsx", "lib/B.jsx"⟩ ∈ candidates ["A*"] true ∧
      ⟨.ofString "src/lib/B.jsx", "lib/B.jsx"⟩ ∉ candidates ["A*"] false := by
  intro candidates
  have hopen : Glob.read? "[" = none := by decide +kernel
  obtain ⟨_, hinvalid, _⟩ := candidates_of_combined_filters packageTree (.ofString "src") ["jsx"] [] [] ["A*"] true
  obtain ⟨_, _, _, _, hlevel⟩ := candidates_of_combined_filters packageTree (.ofString "src") ["jsx"] [] ["A*"] [] true
  have hfirst := hlevel packageTree_wellNamed
  refine ⟨hopen, hinvalid "[" hopen, hfirst, ?_, ?_, ?_⟩
  · exact (List.mergeSort_perm _ _).mem_iff.2 (by decide +kernel)
  · exact (List.mergeSort_perm _ _).mem_iff.2 (by decide +kernel)
  · intro hmem
    rw [show candidates ["A*"] false = _ from hfirst] at hmem
    exact absurd (List.mem_filter.1 hmem).2 (by decide +kernel)

end ReactCatalog
