import ReactCatalog.Command.Arguments
import ReactCatalog.Proofs.CandidateFilters
import ReactCatalog.Proofs.Trimming

/-!
# Lists of extensions

Blanks around an extension and dots before it do not count. A list of extensions is brought into one form: no entry is
empty, begins with a dot or ends in a blank, and each stands there once, in the order in which they first appear
(`FirstAppearances`). Such a list lets in the same candidates whether it is in a configuration or on a command line.

Blanks are taken off before dots are. An entry with a blank behind its dots keeps that blank, and exactly then the list
changes when it is brought into this form once more (`normalized_extensions`, `blank_behind_dot_kept`).
-/

namespace ReactCatalog

/-! ## One entry -/

/-- What an entry asks for: the text behind all blanks and dots, without blanks at its end. -/
def suffixOf (s : String) : String :=
  String.ofList (Text.trimEndList (s.toList.dropWhile fun c => Text.isBlank c || c == '.'))

/-- Between the dots of an entry and its text stands a blank. -/
def BlankBehindDots (s : String) : Prop :=
  ∃ blanks dots blank rest, s.toList = blanks ++ (dots ++ blank :: rest) ∧ (∀ c ∈ blanks, Text.isBlank c = true) ∧
    dots ≠ [] ∧ (∀ c ∈ dots, c = '.') ∧ Text.isBlank blank = true ∧ ∃ c ∈ rest, Text.isBlank c = false

def StartsBlank (s : String) : Prop := ∃ c, s.toList.head? = some c ∧ Text.isBlank c = true

instance (s : String) : Decidable (StartsBlank s) :=
  decidable_of_iff (s.toList.head?.any Text.isBlank = true) (by simp [StartsBlank, Option.any_eq_true])

def EndsBlank (s : String) : Prop := ∃ c, s.toList.getLast? = some c ∧ Text.isBlank c = true

def isDot (c : Char) : Bool := c == '.'

/-- What is behind the blanks of an entry and the dots that come next. -/
def behindDots (s : String) : List Char := (s.toList.dropWhile Text.isBlank).dropWhile isDot

theorem isDot_of_isBlank {c : Char} (h : Text.isBlank c = true) : isDot c = false := by
  rw [isDot, beq_eq_false_iff_ne]
  rintro rfl
  exact absurd h (by decide)

theorem isBlank_of_isDot {c : Char} (h : isDot c = true) : Text.isBlank c = false := by
  rw [eq_of_beq h]
  decide

/-- Dots are before the text and blanks behind it, so it does not matter which are taken off first. -/
theorem dropWhile_trimEndList (cs : List Char) :
    (Text.trimEndList cs).dropWhile isDot = Text.trimEndList (cs.dropWhile isDot) := by
  induction cs with
  | nil => rfl
  | cons c cs ih =>
    cases hc : isDot c with
    | true =>
      rw [trimEndList_cons (isBlank_of_isDot hc), List.dropWhile_cons_of_pos hc, List.dropWhile_cons_of_pos hc, ih]
    | false =>
      rw [List.dropWhile_cons_of_neg (by simp [hc])]
      cases hcs : Text.trimEndList (c :: cs) with
      | nil => rfl
      | cons d ds =>
        have hd : (c :: cs).head? = some d := head?_trimEndList (by rw [hcs, List.head?_cons])
        rw [List.head?_cons, Option.some.injEq] at hd
        rw [List.dropWhile_cons_of_neg (by simp [← hd, hc])]

theorem toList_normalizeExtension (s : String) :
    (normalizeExtension s).toList = Text.trimEndList (behindDots s) := by
  rw [normalizeExtension, String.toList_ofList]
  exact dropWhile_trimEndList _

theorem normalizeExtension_not_dot (s : String) : (normalizeExtension s).toList.head? ≠ some '.' := by
  intro h
  rw [toList_normalizeExtension] at h
  have hnot := List.head?_dropWhile_not isDot (s.toList.dropWhile Text.isBlank)
  rw [show (List.dropWhile isDot _).head? = some '.' from head?_trimEndList h] at hnot
  exact absurd hnot (by decide)

theorem not_endsBlank_normalizeExtension (s : String) : ¬ EndsBlank (normalizeExtension s) := by
  rintro ⟨c, hc, hblank⟩
  rw [toList_normalizeExtension] at hc
  rw [Text.getLast?_dropEndWhile hc] at hblank
  cases hblank

/-- Only a blank behind dots is left at the beginning. -/
theorem startsBlank_normalizeExtension_iff (s : String) : StartsBlank (normalizeExtension s) ↔ BlankBehindDots s := by
  unfold StartsBlank
  rw [toList_normalizeExtension]
  constructor
  · rintro ⟨b, hb, hblank⟩
    obtain ⟨rest, hrest⟩ := List.head?_eq_some_iff.1 (head?_trimEndList hb)
    have hsplit : s.toList.dropWhile Text.isBlank = (s.toList.dropWhile Text.isBlank).takeWhile isDot ++ b :: rest := by
      rw [← hrest, behindDots, List.takeWhile_append_dropWhile]
    have hfirst := List.head?_dropWhile_not Text.isBlank s.toList
    refine ⟨s.toList.takeWhile Text.isBlank, (s.toList.dropWhile Text.isBlank).takeWhile isDot, b, rest, ?_,
      fun c hc => List.mem_takeWhile_imp hc, ?_, fun c hc => eq_of_beq (List.mem_takeWhile_imp (p := isDot) hc),
      hblank, ?_⟩
    · rw [← hsplit, List.takeWhile_append_dropWhile]
    · intro hnone
      rw [hnone, List.nil_append] at hsplit
      rw [hsplit, List.head?_cons] at hfirst
      exact absurd hblank (by simpa using hfirst)
    · by_contra hall
      push Not at hall
      have hnil : Text.trimEndList (behindDots s) = [] := by
        rw [trimEndList_eq_nil_iff, hrest]
        simpa [hblank] using hall
      rw [hnil] at hb
      cases hb
  · rintro ⟨blanks, dots, b, rest, hs, hblanks, hne, hdots, hblank, hrest⟩
    have hbehind : behindDots s = b :: rest := by
      have hpos : ∀ c ∈ dots, isDot c = true := fun c hc => beq_iff_eq.2 (hdots c hc)
      obtain ⟨d, more, rfl⟩ := List.exists_cons_of_ne_nil hne
      rw [behindDots, hs, List.dropWhile_append_of_pos hblanks, List.cons_append, List.dropWhile_cons_of_neg,
        ← List.cons_append, List.dropWhile_append_of_pos hpos, List.dropWhile_cons_of_neg]
      · simp [isDot_of_isBlank hblank]
      · simp [isBlank_of_isDot (hpos d List.mem_cons_self)]
    obtain ⟨c, hc, hnot⟩ := hrest
    have hleft := trimEndList_ne_nil ⟨c, List.mem_cons_of_mem b hc, hnot⟩
    obtain ⟨d, ds, hd⟩ := List.exists_cons_of_ne_nil hleft
    have hhead : (b :: rest).head? = some d := head?_trimEndList (by rw [hd, List.head?_cons])
    rw [hbehind, hd]
    exact ⟨d, rfl, by rwa [← Option.some.inj hhead]⟩

/-- Where no blank is behind the dots, what is left of an entry is what it asks for. -/
theorem normalizeExtension_eq_suffixOf {s : String} (h : ¬ BlankBehindDots s) : normalizeExtension s = suffixOf s := by
  have hskip : ∀ (p : Char → Bool) (cs : List Char), (∀ c, p c = true → (Text.isBlank c || isDot c) = true) →
      cs.dropWhile (fun c => Text.isBlank c || isDot c) =
        (cs.dropWhile p).dropWhile fun c => Text.isBlank c || isDot c := by
    intro p cs hp
    conv_lhs => rw [← List.takeWhile_append_dropWhile (p := p) (l := cs)]
    exact List.dropWhile_append_of_pos fun c hc => hp c (List.mem_takeWhile_imp hc)
  have hsuffix : (suffixOf s).toList =
      Text.trimEndList ((behindDots s).dropWhile fun c => Text.isBlank c || isDot c) := by
    rw [suffixOf, String.toList_ofList]
    show Text.trimEndList (s.toList.dropWhile fun c => Text.isBlank c || isDot c) = _
    rw [hskip Text.isBlank s.toList fun c hc => by simp [hc], hskip isDot _ fun c hc => by simp [hc]]
    rfl
  rw [← String.toList_inj, hsuffix, toList_normalizeExtension]
  cases hleft : Text.trimEndList (behindDots s) with
  | nil =>
    have hblank := (trimEndList_eq_nil_iff _).1 hleft
    rw [List.dropWhile_eq_nil_iff.2 fun c hc => by simp [hblank c hc]]
    rfl
  | cons c cs =>
    have hfirst : (normalizeExtension s).toList.head? = some c := by
      rw [toList_normalizeExtension, hleft, List.head?_cons]
    have hblank : Text.isBlank c = false := by
      rw [← Bool.not_eq_true]
      exact fun hc => h ((startsBlank_normalizeExtension_iff s).1 ⟨c, hfirst, hc⟩)
    have hdot : isDot c = false := by
      rw [isDot, beq_eq_false_iff_ne]
      rintro rfl
      exact normalizeExtension_not_dot s hfirst
    obtain ⟨rest, hrest⟩ := List.head?_eq_some_iff.1 (head?_trimEndList (by rw [hleft, List.head?_cons]))
    rw [hrest, List.dropWhile_cons_of_neg (by simp [hblank, hdot]), ← hrest, hleft]

/-- An entry that has been shortened stays as it is, unless it begins with a blank. -/
theorem normalizeExtension_eq_self_iff {e : String} (hdot : e.toList.head? ≠ some '.') (hend : ¬ EndsBlank e) :
    normalizeExtension e = e ↔ ¬ StartsBlank e := by
  constructor
  · rintro heq ⟨c, hc, hblank⟩
    obtain ⟨rest, hrest⟩ := List.head?_eq_some_iff.1 hc
    have hle : (normalizeExtension e).toList.length ≤ rest.length := by
      rw [toList_normalizeExtension, behindDots, hrest, List.dropWhile_cons_of_pos hblank]
      exact (List.rdropWhile_prefix _ _).length_le.trans
        ((List.dropWhile_sublist _).length_le.trans (List.dropWhile_sublist _).length_le)
    rw [heq, hrest, List.length_cons] at hle
    omega
  · intro hstart
    have hbehind : behindDots e = e.toList := by
      unfold behindDots
      cases hcs : e.toList with
      | nil => rfl
      | cons c rest =>
        have hc : e.toList.head? = some c := by rw [hcs, List.head?_cons]
        have hblank : ¬ Text.isBlank c = true := fun hc' => hstart ⟨c, hc, hc'⟩
        have hnot : ¬ isDot c = true := fun hc' => hdot (by rw [hc, eq_of_beq hc'])
        rw [List.dropWhile_cons_of_neg hblank, List.dropWhile_cons_of_neg hnot]
    rw [← String.toList_inj, toList_normalizeExtension, hbehind]
    exact trimEndList_eq_self fun c hc => by simpa using fun hblank => hend ⟨c, hc, hblank⟩

/-! ## Lists -/

/-- The texts of a list that are not empty, each once, in the order in which they first appear there. -/
structure FirstAppearances (xs l : List String) : Prop where
  mem_iff : ∀ e, e ∈ l ↔ e ≠ "" ∧ e ∈ xs
  order : l.Pairwise fun a b => xs.idxOf a < xs.idxOf b

namespace FirstAppearances

variable {xs l : List String}

theorem nodup (h : FirstAppearances xs l) : l.Nodup :=
  h.order.imp fun hlt heq => absurd hlt (by rw [heq]; exact lt_irrefl _)

theorem order_concat (h : FirstAppearances xs l) (x : String) :
    l.Pairwise fun a b => (xs ++ [x]).idxOf a < (xs ++ [x]).idxOf b := by
  refine h.order.imp_of_mem fun ha hb hlt => ?_
  rwa [List.idxOf_append_of_mem ((h.mem_iff _).1 ha).2, List.idxOf_append_of_mem ((h.mem_iff _).1 hb).2]

/-- A text that is empty or has appeared changes nothing. -/
theorem concat_old (h : FirstAppearances xs l) {x : String} (hx : x = "" ∨ x ∈ l) : FirstAppearances (xs ++ [x]) l := by
  refine ⟨fun e => ?_, h.order_concat x⟩
  rw [h.mem_iff, List.mem_append, List.mem_singleton]
  constructor
  · exact fun ⟨hne, he⟩ => ⟨hne, .inl he⟩
  · rintro ⟨hne, he | rfl⟩
    · exact ⟨hne, he⟩
    · exact (h.mem_iff e).1 (hx.resolve_left hne)

/-- A text that appears for the first time comes last. -/
theorem concat_new (h : FirstAppearances xs l) {x : String} (hne : x ≠ "") (hx : x ∉ l) :
    FirstAppearances (xs ++ [x]) (l ++ [x]) := by
  have hnew : x ∉ xs := fun hmem => hx ((h.mem_iff x).2 ⟨hne, hmem⟩)
  refine ⟨fun e => ?_, List.pairwise_append.2 ⟨h.order_concat x, List.pairwise_singleton _ x, ?_⟩⟩
  · rw [List.mem_append, List.mem_append, List.mem_singleton, h.mem_iff]
    constructor
    · rintro (⟨he, hmem⟩ | rfl)
      · exact ⟨he, .inl hmem⟩
      · exact ⟨hne, .inr rfl⟩
    · rintro ⟨he, hmem | rfl⟩
      · exact .inl ⟨he, hmem⟩
      · exact .inr rfl
  · intro a ha b hb
    obtain rfl := List.mem_singleton.1 hb
    have hmem := ((h.mem_iff a).1 ha).2
    rw [List.idxOf_append_of_mem hmem, List.idxOf_append_of_notMem hnew]
    have hlt := List.idxOf_lt_length_of_mem hmem
    omega

end FirstAppearances

/-- The texts that are not empty, each where it first appears. -/
def keepFirst (xs : List String) : List String :=
  xs.foldl (fun acc e => if e.isEmpty || acc.contains e then acc else acc ++ [e]) []

theorem keepFirst_concat (xs : List String) (x : String) :
    keepFirst (xs ++ [x]) = if x = "" ∨ x ∈ keepFirst xs then keepFirst xs else keepFirst xs ++ [x] := by
  simp only [keepFirst, List.foldl_append, List.foldl_cons, List.foldl_nil, Bool.or_eq_true, String.isEmpty_iff,
    List.contains_eq_mem, decide_eq_true_eq]

theorem firstAppearances_keepFirst (xs : List String) : FirstAppearances xs (keepFirst xs) := by
  induction xs using List.reverseRecOn with
  | nil => exact ⟨by simp [keepFirst], List.Pairwise.nil⟩
  | append_singleton xs x ih =>
    rw [keepFirst_concat]
    split
    · next hx => exact ih.concat_old hx
    · next hx => exact ih.concat_new (not_or.1 hx).1 (not_or.1 hx).2

theorem keepFirst_sublist (xs : List String) : (keepFirst xs).Sublist xs := by
  induction xs using List.reverseRecOn with
  | nil => exact List.Sublist.refl _
  | append_singleton xs x ih =>
    rw [keepFirst_concat]
    split
    · exact ih.trans (List.sublist_append_left xs [x])
    · exact ih.append (List.Sublist.refl [x])

theorem keepFirst_eq_self {l : List String} (hn : l.Nodup) (hne : "" ∉ l) : keepFirst l = l := by
  induction l using List.reverseRecOn with
  | nil => rfl
  | append_singleton l x ih =>
    obtain ⟨hl, _, hx⟩ := List.nodup_append.1 hn
    have hself := ih hl fun hmem => hne (List.mem_append_left _ hmem)
    rw [keepFirst_concat, hself, if_neg]
    rintro (rfl | hmem)
    · exact hne (List.mem_append_right _ List.mem_cons_self)
    · exact hx x hmem x List.mem_cons_self rfl

theorem firstAppearances_normalizeExtensions (xs : List String) :
    FirstAppearances (xs.map normalizeExtension) (normalizeExtensions xs) := firstAppearances_keepFirst _

/-- No entry has a blank between its dots and its text. -/
def ClearEntries (xs : List String) : Prop := ∀ x ∈ xs, ¬ BlankBehindDots x

theorem not_startsBlank_iff (xs : List String) :
    (∀ e ∈ normalizeExtensions xs, ¬ StartsBlank e) ↔ ClearEntries xs := by
  have hmem := (firstAppearances_normalizeExtensions xs).mem_iff
  constructor
  · intro h x hx hblank
    have hstart := (startsBlank_normalizeExtension_iff x).2 hblank
    have hne : normalizeExtension x ≠ "" := by
      obtain ⟨c, hc, _⟩ := hstart
      intro hnil
      rw [hnil] at hc
      cases hc
    exact h _ ((hmem _).2 ⟨hne, List.mem_map_of_mem hx⟩) hstart
  · intro h e he hstart
    obtain ⟨x, hx, rfl⟩ := List.mem_map.1 ((hmem e).1 he).2
    exact h x hx ((startsBlank_normalizeExtension_iff x).1 hstart)

instance (xs : List String) : Decidable (ClearEntries xs) := decidable_of_iff _ (not_startsBlank_iff xs)

theorem normalizeExtensions_eq_self_iff (xs : List String) :
    normalizeExtensions (normalizeExtensions xs) = normalizeExtensions xs ↔ ClearEntries xs := by
  have hfirst := firstAppearances_normalizeExtensions xs
  have hentry : ∀ e ∈ normalizeExtensions xs, normalizeExtension e = e ↔ ¬ StartsBlank e := by
    intro e he
    obtain ⟨x, _, rfl⟩ := List.mem_map.1 ((hfirst.mem_iff e).1 he).2
    exact normalizeExtension_eq_self_iff (normalizeExtension_not_dot x) (not_endsBlank_normalizeExtension x)
  have hmap : (normalizeExtensions xs).map normalizeExtension = normalizeExtensions xs ↔
      ∀ e ∈ normalizeExtensions xs, ¬ StartsBlank e := by
    conv_lhs => rhs; rw [← List.map_id (normalizeExtensions xs)]
    rw [List.map_inj_left]
    exact forall₂_congr hentry
  rw [← not_startsBlank_iff, ← hmap]
  constructor
  · intro h
    -- nothing is dropped, so each entry is what is left of itself
    have hsub := keepFirst_sublist ((normalizeExtensions xs).map normalizeExtension)
    rw [show keepFirst _ = normalizeExtensions xs from h] at hsub
    exact (hsub.eq_of_length (List.length_map _).symm).symm
  · intro hmap
    show keepFirst ((normalizeExtensions xs).map normalizeExtension) = _
    rw [hmap]
    exact keepFirst_eq_self hfirst.nodup fun hnil => ((hfirst.mem_iff "").1 hnil).1 rfl

theorem ClearEntries.map_eq {xs : List String} (h : ClearEntries xs) :
    xs.map normalizeExtension = xs.map suffixOf :=
  List.map_congr_left fun x hx => normalizeExtension_eq_suffixOf (h x hx)

/-! ## Candidates -/

/-- Candidates are asked for by the set of extensions. -/
theorem candidatesUnder_congr {extensions extensions' : List String} (h : ∀ e, e ∈ extensions ↔ e ∈ extensions')
    (t : FileTree) (root : Path) (patterns : List String) (recursive : Bool) :
    candidatesUnder t root extensions patterns recursive = candidatesUnder t root extensions' patterns recursive := by
  rw [← List.filter_true (candidatesUnder t root extensions' patterns recursive)]
  refine candidatesUnder_of_fits fun c => ?_
  have hext : hasExtension extensions c.path = hasExtension extensions' c.path := by
    unfold hasExtension
    cases c.path.extensionText? with
    | none => rfl
    | some ext => simp [h]
  rw [fits, fits, hext, Bool.and_true]

/-- What the command line names in place of extensions of the configuration. -/
def Arguments.withExtensions (a : Arguments) (extensions : List String) : Arguments := { a with extensions }

/-- A configuration as it is loaded from a file with these extensions. -/
def Config.loadedWith (c : Config) (file : Path) (extensions : List String) : Config :=
  Config.settle file { c with extensions }

theorem candidatesFor_configured (t : FileTree) (a : Arguments) (c : Config) (file : Path) {xs ys : List String}
    (zs : List String) (hne : ys ≠ []) (h : ∀ e, e ∈ normalizeExtensions xs ↔ e ∈ normalizeExtensions ys) :
    candidatesFor t ((a.withExtensions []).options (c.loadedWith file xs)) =
      candidatesFor t ((a.withExtensions ys).options (c.loadedWith file zs)) := by
  have hgiven : ((a.withExtensions ys).options (c.loadedWith file zs)).extensions = normalizeExtensions ys :=
    if_neg (by simpa [Arguments.withExtensions] using hne)
  show candidatesUnder t a.inputDir (normalizeExtensions xs) _ _ = candidatesUnder t a.inputDir
    ((a.withExtensions ys).options (c.loadedWith file zs)).extensions _ _
  rw [hgiven]
  exact candidatesUnder_congr h t a.inputDir _ _

/-- What both lists ask for is the same, by what is left of their entries. -/
def SameSuffixes (suffix : String → String) (xs ys : List String) : Prop :=
  ∀ e, e ≠ "" → (e ∈ xs.map suffix ↔ e ∈ ys.map suffix)

instance (suffix : String → String) (xs ys : List String) : Decidable (SameSuffixes suffix xs ys) :=
  decidable_of_iff (∀ e ∈ xs.map suffix ++ ys.map suffix, e ≠ "" → (e ∈ xs.map suffix ↔ e ∈ ys.map suffix)) <| by
    constructor
    · intro h e hne
      by_cases he : e ∈ xs.map suffix ++ ys.map suffix
      · exact h e he hne
      · rw [List.mem_append, not_or] at he
        exact iff_of_false he.1 he.2
    · exact fun h e _ => h e

/-- The entries that are left are distinct and not empty, none begins with a dot or ends in a blank, and they stand in
the order in which they first appear. None begins with a blank, and to do it again changes nothing, exactly if no entry
has a blank behind its dots; then they are what the entries ask for. Lists that ask for the same let in the same
candidates, one in a configuration and one on the command line. -/
theorem normalized_extensions (xs : List String) :
    (normalizeExtensions xs).Nodup ∧
    (∀ e ∈ normalizeExtensions xs, e ≠ "" ∧ e.toList.head? ≠ some '.' ∧ ¬ EndsBlank e) ∧
    FirstAppearances (xs.map normalizeExtension) (normalizeExtensions xs) ∧
    ((∀ e ∈ normalizeExtensions xs, ¬ StartsBlank e) ↔ ClearEntries xs) ∧
    (normalizeExtensions (normalizeExtensions xs) = normalizeExtensions xs ↔ ClearEntries xs) ∧
    (ClearEntries xs → FirstAppearances (xs.map suffixOf) (normalizeExtensions xs)) ∧
    ∀ suffix ys, suffix = normalizeExtension ∨ suffix = suffixOf ∧ ClearEntries xs ∧ ClearEntries ys →
      ys ≠ [] → SameSuffixes suffix xs ys → ∀ (t : FileTree) (a : Arguments) (c : Config) (file : Path) zs,
        candidatesFor t ((a.withExtensions []).options (c.loadedWith file xs)) =
          candidatesFor t ((a.withExtensions ys).options (c.loadedWith file zs)) := by
  have hfirst := firstAppearances_normalizeExtensions xs
  refine ⟨hfirst.nodup, fun e he => ?_, hfirst, not_startsBlank_iff xs, normalizeExtensions_eq_self_iff xs,
    fun hclear => hclear.map_eq ▸ hfirst, ?_⟩
  · obtain ⟨hne, hmem⟩ := (hfirst.mem_iff e).1 he
    obtain ⟨x, _, rfl⟩ := List.mem_map.1 hmem
    exact ⟨hne, normalizeExtension_not_dot x, not_endsBlank_normalizeExtension x⟩
  · intro suffix ys hsuffix hne hsame t a c file zs
    have hsame' : SameSuffixes normalizeExtension xs ys := by
      rcases hsuffix with rfl | ⟨rfl, hxs, hys⟩
      · exact hsame
      · intro e he
        rw [hxs.map_eq, hys.map_eq]
        exact hsame e he
    refine candidatesFor_configured t a c file zs hne fun e => ?_
    rw [hfirst.mem_iff, (firstAppearances_normalizeExtensions ys).mem_iff]
    exact and_congr_right (hsame' e)

/-- Arguments for the candidates in the directory of sources. -/
def packageArguments : Arguments := { inputDir := .ofString "src", output := .ofString "out.json" }

/-- A configuration with these extensions, as it is loaded. -/
def packageConfig (extensions : List String) : Config := Config.loadedWith {} (.ofString "compdoc.toml") extensions

theorem package_extensions_normalized :
    let xs := [".js", " jsx ", "", "js"]
    let ys := ["..jsx", "js"]
    normalizeExtensions xs = ["js", "jsx"] ∧ ClearEntries xs ∧
      normalizeExtensions (normalizeExtensions xs) = ["js", "jsx"] ∧
      ClearEntries ys ∧ SameSuffixes suffixOf xs ys ∧
      candidatesFor packageTree ((packageArguments.withExtensions []).options (packageConfig xs)) =
        candidatesFor packageTree ((packageArguments.withExtensions ys).options (packageConfig [])) := by
  intro xs ys
  have hxs : ClearEntries xs := by decide +kernel
  have hys : ClearEntries ys := by decide +kernel
  have hsame : SameSuffixes suffixOf xs ys := by decide +kernel
  have hform : normalizeExtensions xs = ["js", "jsx"] := by decide +kernel
  obtain ⟨_, _, _, _, hagain, _, hcandidates⟩ := normalized_extensions xs
  refine ⟨hform, hxs, (hagain.2 hxs).trans hform, hys, hsame, ?_⟩
  exact hcandidates suffixOf ys (.inr ⟨rfl, hxs, hys⟩) (by decide) hsame packageTree packageArguments {} _ []

/-- A blank behind a dot stays, and goes when the list is brought into form again. The entry asks for what `jsx` asks
for, but lets in nothing. -/
theorem blank_behind_dot_kept :
    normalizeExtensions [". jsx"] = [" jsx"] ∧ StartsBlank " jsx" ∧
      normalizeExtensions (normalizeExtensions [". jsx"]) = ["jsx"] ∧ SameSuffixes suffixOf [". jsx"] ["jsx"] ∧
      candidatesFor packageTree ((packageArguments.withExtensions []).options (packageConfig [". jsx"])) = [] ∧
      ⟨.ofString "src/A.jsx", "A.jsx"⟩ ∈
        candidatesFor packageTree ((packageArguments.withExtensions ["jsx"]).options (packageConfig [])) := by
  refine ⟨by decide +kernel, by decide +kernel, by decide +kernel, by decide +kernel, by decide +kernel, ?_⟩
  exact (List.mergeSort_perm _ _).mem_iff.2 (by decide +kernel)

end ReactCatalog
