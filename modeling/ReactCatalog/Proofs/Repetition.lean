import ReactCatalog.Proofs.Batch
import ReactCatalog.Proofs.Passing

/-!
# Running again

What a run writes depends on the candidates, their bytes and their annotations alone (`SameSources.newText`). If no
path that it reads comes by the place where the catalog is put, a second run finds what the first one found, and writes
the same again; unless the path of the output itself leads through what the first run has replaced
(`generate_repeated`).
-/

namespace ReactCatalog

/-! ## What a run reads -/

/-- Two runs find the same: the same entries under the input directory, the same bytes in the files that are to be
documented, and the same annotations of their modules. -/
structure SameSources (t t' : FileTree) (registry registry' : Registry) (o : Options) : Prop where
  listing : (entriesUnder t o.recursive o.inputDir).1 = (entriesUnder t' o.recursive o.inputDir).1
  bytes : ∀ c, c ∈ candidatesFor t o ∨ c ∈ candidatesFor t' o →
    (t.file? c.path).map Prod.fst = (t'.file? c.path).map Prod.fst
  annotations : ∀ c ∈ candidatesFor t o, ∀ module, moduleOfPath? o.inputDir c.path = some module →
    registry.read module = registry'.read module

theorem FileTree.isFile_eq (t : FileTree) (p : Path) : t.isFile p = ((t.file? p).map Prod.fst).isSome := by
  unfold isFile file?
  split <;> simp_all

theorem FileTree.bytesAt_eq (t : FileTree) (p : Path) : t.bytesAt p = ((t.file? p).map Prod.fst).getD [] := by
  unfold bytesAt
  cases t.file? p <;> rfl

theorem mem_candidatesFor_of_candidate? {t : FileTree} {o : Options} {p : Path} {c : Candidate}
    (hp : p ∈ (entriesUnder t o.recursive o.inputDir).1) (hc : candidate? t o.filter o.inputDir p = some c) :
    c ∈ candidatesFor t o :=
  (perm_candidatesFor t o).mem_iff.2 (List.mem_filterMap.2 ⟨p, hp, hc⟩)

theorem path_of_candidate? {t : FileTree} {filter : CandidateFilter} {root p : Path} {c : Candidate}
    (h : candidate? t filter root p = some c) : c.path = p := by
  unfold candidate? at h
  split at h
  · split at h
    · split at h
      · cases h
      · cases h
        rfl
    · cases h
  · cases h

namespace SameSources

variable {t t' : FileTree} {registry registry' : Registry} {o : Options}

theorem candidatesFor (h : SameSources t t' registry registry' o) : candidatesFor t o = candidatesFor t' o := by
  have hcandidate : ∀ p ∈ (entriesUnder t o.recursive o.inputDir).1,
      candidate? t o.filter o.inputDir p = candidate? t' o.filter o.inputDir p := by
    intro p hp
    have hfile : t.isFile p = t'.isFile p ∨ candidate? t o.filter o.inputDir p = none ∧
        candidate? t' o.filter o.inputDir p = none := by
      cases hc : candidate? t o.filter o.inputDir p with
      | some c =>
        left
        have hb := h.bytes c (.inl (mem_candidatesFor_of_candidate? hp hc))
        rw [path_of_candidate? hc] at hb
        rw [FileTree.isFile_eq, FileTree.isFile_eq, hb]
      | none =>
        cases hc' : candidate? t' o.filter o.inputDir p with
        | some c =>
          left
          have hb := h.bytes c (.inr (mem_candidatesFor_of_candidate? (h.listing ▸ hp) hc'))
          rw [path_of_candidate? hc'] at hb
          rw [FileTree.isFile_eq, FileTree.isFile_eq, hb]
        | none => exact .inr ⟨rfl, rfl⟩
    rcases hfile with hfile | ⟨hnone, hnone'⟩
    · rw [candidate?, candidate?, hfile]
    · rw [hnone, hnone']
  have hlist : (entriesUnder t o.recursive o.inputDir).1.filterMap (candidate? t o.filter o.inputDir) =
      (entriesUnder t' o.recursive o.inputDir).1.filterMap (candidate? t' o.filter o.inputDir) := by
    rw [← h.listing]
    exact List.filterMap_congr hcandidate
  exact congrArg sortCandidates hlist

theorem outcomes (h : SameSources t t' registry registry' o) :
    outcomes t registry o (ReactCatalog.candidatesFor t o) =
      outcomes t' registry' o (ReactCatalog.candidatesFor t' o) := by
  rw [outcomes_eq, outcomes_eq, ← h.candidatesFor]
  apply List.map_congr_left
  intro c hc
  have hnote : (moduleOfPath? o.inputDir c.path).bind registry.read =
      (moduleOfPath? o.inputDir c.path).bind registry'.read := by
    cases hm : moduleOfPath? o.inputDir c.path with
    | none => rfl
    | some module => exact h.annotations c hc module hm
  rw [outcomeOf, outcomeOf, FileTree.bytesAt_eq, FileTree.bytesAt_eq, h.bytes c (.inl hc), hnote]

theorem newText (h : SameSources t t' registry registry' o) : newText t registry o = newText t' registry' o := by
  rw [ReactCatalog.newText, ReactCatalog.newText, h.outcomes]

end SameSources

/-! ## Two runs -/

/-- Once there is something to write, a run fails only in writing. -/
theorem generate_result {t : FileTree} {o : Options} (hd : t.isDirectory o.inputDir = true)
    (hc : candidatesFor t o ≠ [] ∨ o.allowEmpty = true) (registry : Registry) (faults : Faults) :
    (generate t registry o faults).result =
      if (t.write o.output (Text.utf8 (newText t registry o)) faults).1 = none then
        .ok (tally o (outcomes t registry o (candidatesFor t o))).finish
      else .error (.unwritable o.output) := by
  have hsome : ¬ (((collectCandidates t o.filter o.inputDir).1.isEmpty && !o.allowEmpty) = true) := by
    intro h
    rcases hc with hc | hc
    · exact hc (List.isEmpty_iff.1 (Bool.and_eq_true_iff.1 h).1)
    · simp [hc] at h
  unfold generate newText candidatesFor
  rw [← records_tally]
  simp only [hd, Bool.not_true, Bool.false_eq_true, if_false, hsome]
  split
  · next hw => simp [hw]
  · next hw => simp [hw]

/-- What a run reads is apart from the place where it writes: that is not below the input directory, and neither the
path of the input directory nor that of a candidate, before the run or after it, leads by it. -/
structure Apart (t t₁ : FileTree) (o : Options) (place : Trail) : Prop where
  below : ∀ dir, t.locate o.inputDir = .ok dir → ¬ dir <+: place
  input : t.passes place o.inputDir = false
  candidates : ∀ c, c ∈ candidatesFor t o ∨ c ∈ candidatesFor t₁ o → t.passes place c.path = false

section

variable {t : FileTree} {o : Options} {place : Trail}

/-- The input directory, with all that is in it, is the same after a write elsewhere. -/
theorem find_set_of_apart (ht : t.target? o.output = some place) (hn : t.isDirectoryAt place = false)
    (hbelow : ∀ dir, t.locate o.inputDir = .ok dir → ¬ dir <+: place) (hinput : t.passes place o.inputDir = false)
    (hd : t.isDirectory o.inputDir = true) (bytes : List UInt8) (m : Nat) :
    (t.set place (.file bytes m)).find o.inputDir = t.find o.inputDir := by
  have hsame := FileTree.sameBut_set ht hn bytes m
  obtain ⟨dir, hl, hdir⟩ : ∃ dir, t.locate o.inputDir = .ok dir ∧ t.isDirectoryAt dir = true := by
    unfold FileTree.isDirectory FileTree.find at hd
    cases hl : t.locate o.inputDir with
    | error e => simp [hl, bind, Except.bind] at hd
    | ok dir =>
      refine ⟨dir, rfl, ?_⟩
      unfold FileTree.isDirectoryAt
      cases hx : t.top.find? dir with
      | none => simp [hl, hx, bind, Except.bind, throw, throwThe, MonadExceptOf.throw] at hd
      | some e => cases e <;> simp_all [bind, Except.bind, pure, Except.pure]
  have hapart : ¬ place <+: dir := by
    rintro ⟨rest, rfl⟩
    cases rest with
    | nil => simp [hn] at hdir
    | cons n more =>
      obtain ⟨m', children, hx⟩ := FileTree.exists_of_isDirectoryAt hdir
      rw [FileTree.find?_below hn] at hx
      cases hx
  have htop : (t.set place (.file bytes m)).top.find? dir = t.top.find? dir :=
    Entry.find?_alter_of_apart _ _ hapart (hbelow dir hl)
  unfold FileTree.find
  rw [← hsame.locate hinput, hl]
  simp [bind, Except.bind, htop]

/-- After a write elsewhere a run finds the same. -/
theorem Apart.sameSources {bytes : List UInt8} {m : Nat} (h : Apart t (t.set place (.file bytes m)) o place)
    (ht : t.target? o.output = some place) (hn : t.isDirectoryAt place = false)
    (hd : t.isDirectory o.inputDir = true) (registry : Registry) :
    SameSources t (t.set place (.file bytes m)) registry registry o where
  listing := by rw [entriesUnder, entriesUnder, find_set_of_apart ht hn h.below h.input hd]
  bytes c hc := by
    have hplace : place ≠ [] := by
      obtain ⟨dir, last, rfl, _⟩ := FileTree.target?_eq_some ht
      simp
    rw [(FileTree.sameBut_set ht hn bytes m).file? hplace (h.candidates c hc)]
  annotations _ _ _ _ := rfl

/-- It is enough that nothing that is found under the input directory leads by the place. -/
theorem apart_of_entries (ht : t.target? o.output = some place) (hn : t.isDirectoryAt place = false)
    (hbelow : ∀ dir, t.locate o.inputDir = .ok dir → ¬ dir <+: place) (hinput : t.passes place o.inputDir = false)
    (hd : t.isDirectory o.inputDir = true)
    (hentries : ∀ p ∈ (entriesUnder t o.recursive o.inputDir).1, t.passes place p = false) (bytes : List UInt8)
    (m : Nat) : Apart t (t.set place (.file bytes m)) o place where
  below := hbelow
  input := hinput
  candidates c hc := by
    have hfind := find_set_of_apart ht hn hbelow hinput hd bytes m
    have hlisting : (entriesUnder (t.set place (.file bytes m)) o.recursive o.inputDir).1 =
        (entriesUnder t o.recursive o.inputDir).1 := by rw [entriesUnder, entriesUnder, hfind]
    rcases hc with hc | hc
    · obtain ⟨p, hp, hcp⟩ := List.mem_filterMap.1 ((perm_candidatesFor t o).mem_iff.1 hc)
      rw [path_of_candidate? hcp]
      exact hentries p hp
    · obtain ⟨p, hp, hcp⟩ := List.mem_filterMap.1 ((perm_candidatesFor _ o).mem_iff.1 hc)
      rw [path_of_candidate? hcp]
      exact hentries p (hlisting ▸ hp)

/-- The second of two runs, where what is read is apart from what is written. -/
theorem generate_repeated {registry : Registry} {faults : Faults} {report : Report}
    (h : (generate t registry o faults).result = .ok report) (ht : t.target? o.output = some place)
    (hapart : Apart t (generate t registry o faults).tree o place) :
    let t₁ := (generate t registry o faults).tree
    (generate t₁ registry o faults).tree = t₁ ∧
      (generate t₁ registry o faults).result =
        if t.passesBefore place o.output then .error (.unwritable o.output) else .ok report := by
  intro t₁
  have hok : (generate t registry o faults).result.isOk = true := by
    rw [h]
    rfl
  obtain ⟨hd, hc, hw⟩ := (generate_isOk_iff t registry o faults).1 hok
  obtain ⟨hfaults, _, _⟩ := FileTree.write_succeeds_iff.1 hw
  obtain ⟨e, he, _⟩ | ⟨place', ht', hn, hreport, htree⟩ := generate_cases t registry o faults
  · rw [he] at h
    cases h
  rw [ht, Option.some.injEq] at ht'
  subst ht'
  rw [hreport, Except.ok.injEq] at h
  have ht₁ : t₁ = t.set place (.file (Text.utf8 (newText t registry o)) (t.modeFor o.output)) := htree
  have hsources : SameSources t t₁ registry registry o := by
    rw [htree] at hapart
    rw [ht₁]
    exact hapart.sameSources ht hn hd registry
  have hsame : FileTree.SameBut place t t₁ := ht₁ ▸ FileTree.sameBut_set ht hn _ _
  have hd₁ : t₁.isDirectory o.inputDir = true := by
    rw [ht₁, FileTree.isDirectory, find_set_of_apart ht hn hapart.below hapart.input hd]
    exact hd
  have htarget : t₁.target? o.output = if t.passesBefore place o.output then none else some place :=
    ht₁ ▸ FileTree.target?_set ht hn _ _
  have hresult := generate_result hd₁ (hsources.candidatesFor ▸ hc) registry faults
  rw [← hsources.outcomes, h] at hresult
  cases hp : t.passesBefore place o.output with
  | true =>
    -- the target is gone, and the write fails
    rw [hp, if_pos rfl] at htarget
    rw [if_neg] at hresult
    · obtain ⟨e, _, htree₁⟩ | ⟨_, hx, _⟩ := generate_cases t₁ registry o faults
      · exact ⟨htree₁, hresult⟩
      · rw [htarget] at hx
        cases hx
    · intro hw₁
      obtain ⟨_, _, here, hx, _⟩ := FileTree.write_succeeds_iff.1 hw₁
      rw [htarget] at hx
      cases hx
  | false =>
    rw [hp, if_neg (by simp)] at htarget
    have hw₁ : (t₁.write o.output (Text.utf8 (newText t₁ registry o)) faults).1 = none := by
      refine FileTree.write_succeeds_iff.2 ⟨hfaults, ?_, place, htarget, hsame.right⟩
      obtain ⟨dir, last, rfl, hdir, _⟩ := FileTree.target?_eq_some htarget
      simp [Draft.create?, FileTree.locate_directoryOf htarget, hdir]
    rw [if_pos hw₁] at hresult
    refine ⟨?_, hresult⟩
    obtain ⟨e, he, _⟩ | ⟨place', hx, _, _, htree₁⟩ := generate_cases t₁ registry o faults
    · rw [he] at hresult
      cases hresult
    rw [htarget, Option.some.injEq] at hx
    subst hx
    have hmode : t₁.modeFor o.output = t.modeFor o.output := ht₁ ▸ FileTree.modeFor_set ht hn _ _ hp
    rw [htree₁, ← hsources.newText, hmode, ht₁, FileTree.set_set]

/-- A run that finds the same writes the same, or cannot write at all. -/
theorem SameSources.generate {t' : FileTree} {registry registry' : Registry} {faults : Faults} {report : Report}
    (hs : SameSources t t' registry registry' o) (h : (generate t registry o faults).result = .ok report)
    (hd : t'.isDirectory o.inputDir = true) (output : Path) (faults' : Faults) :
    let second := ReactCatalog.generate t' registry' { o with output := output } faults'
    second.result = .error (.unwritable output) ∧ second.tree = t' ∨
      second.result = .ok { report with output := output } ∧
        OnlyWritten t' second.tree output (ReactCatalog.newText t registry o) := by
  intro second
  have hok : (ReactCatalog.generate t registry o faults).result.isOk = true := by
    rw [h]
    rfl
  obtain ⟨_, hc, _⟩ := (generate_isOk_iff t registry o faults).1 hok
  obtain ⟨rfl, _⟩ := generate_ok h
  have hc' : ReactCatalog.candidatesFor t' { o with output := output } ≠ [] ∨ o.allowEmpty = true := by
    have hsame : ReactCatalog.candidatesFor t' { o with output := output } = ReactCatalog.candidatesFor t' o := rfl
    rw [hsame, ← hs.candidatesFor]
    exact hc
  have hresult := generate_result (o := { o with output := output }) hd hc' registry' faults'
  split at hresult
  · have hreport : second.result = .ok
        { (tally o (ReactCatalog.outcomes t registry o (ReactCatalog.candidatesFor t o))).finish with
          output := output } := by
      rw [hs.outcomes, finish_tally]
      rw [finish_tally] at hresult
      exact hresult
    refine .inr ⟨hreport, ?_⟩
    rw [hs.newText]
    exact (generate_ok hreport).2
  · refine .inl ⟨hresult, ?_⟩
    obtain ⟨e, _, htree⟩ | ⟨_, _, _, hx, _⟩ := generate_cases t' registry' { o with output := output } faults'
    · exact htree
    · rw [hresult] at hx
      cases hx

end

/-- If what is read is apart from what is written, a second run leaves the tree that the first one left and gives the
same report, except that it cannot write if the path of the output leads through what the first run has replaced. And
whatever else two trees hold, runs that find the same write the same and count the same. -/
theorem generate_again {t : FileTree} {registry : Registry} {o : Options} {faults : Faults} {report : Report}
    (h : (generate t registry o faults).result = .ok report) :
    let t₁ := (generate t registry o faults).tree
    (∀ place, t.target? o.output = some place → Apart t t₁ o place →
      (generate t₁ registry o faults).tree = t₁ ∧
        (generate t₁ registry o faults).result =
          if t.passesBefore place o.output then .error (.unwritable o.output) else .ok report) ∧
    OnlyWritten t t₁ o.output (newText t registry o) ∧
    ∀ t' registry' output faults', SameSources t t' registry registry' o → t'.isDirectory o.inputDir = true →
      let second := generate t' registry' { o with output := output } faults'
      second.result = .error (.unwritable output) ∧ second.tree = t' ∨
        second.result = .ok { report with output := output } ∧
          OnlyWritten t' second.tree output (newText t registry o) := by
  intro t₁
  refine ⟨?_, (generate_ok h).2, ?_⟩
  · intro place ht hapart
    exact generate_repeated h ht hapart
  · intro t' registry' output faults' hs hd
    exact hs.generate h hd output faults'

/-- A run with a candidate and a place to write succeeds, and is apart from the place if nothing that it looks at leads
by it. -/
theorem exists_apart_of_entries (registry : Registry) {t : FileTree} {o : Options} {dir place : Trail}
    (hd : t.isDirectory o.inputDir = true)
    (hc : (entriesUnder t o.recursive o.inputDir).1.filterMap (candidate? t o.filter o.inputDir) ≠ [])
    (ht : t.target? o.output = some place) (hn : t.isDirectoryAt place = false) (hl : t.locate o.inputDir = .ok dir)
    (hbelow : ¬ dir <+: place) (hinput : t.passes place o.inputDir = false)
    (hentries : ∀ p ∈ (entriesUnder t o.recursive o.inputDir).1, t.passes place p = false) :
    ∃ report, (generate t registry o).result = .ok report ∧ Apart t (generate t registry o).tree o place := by
  have hw : (t.write o.output (Text.utf8 (newText t registry o)) .none).1 = none := by
    refine FileTree.write_succeeds_iff.2 ⟨fun _ => rfl, ?_, place, ht, hn⟩
    obtain ⟨dir, last, rfl, hdir, _⟩ := FileTree.target?_eq_some ht
    simp [Draft.create?, FileTree.locate_directoryOf ht, hdir]
  have hsome : candidatesFor t o ≠ [] := fun h => hc (List.nil_perm.1 (h ▸ perm_candidatesFor t o))
  obtain ⟨report, hreport⟩ := exists_ok_of_isOk ((generate_isOk_iff t registry o .none).2 ⟨hd, .inl hsome, hw⟩)
  refine ⟨report, hreport, ?_⟩
  obtain ⟨e, he, _⟩ | ⟨place', ht', _, _, htree⟩ := generate_cases t registry o .none
  · rw [he] at hreport
    cases hreport
  rw [ht, Option.some.injEq] at ht'
  subst ht'
  rw [htree]
  refine apart_of_entries ht hn ?_ hinput hd hentries _ _
  intro dir' hdir'
  rw [hl, Except.ok.injEq] at hdir'
  exact hdir' ▸ hbelow

def linkedOptions : Options where
  inputDir := .ofString "components"
  output := .ofString "out"

/-- A catalog that has taken the place of a link stays as it is. -/
theorem linked_output_kept :
    ∃ report, (generate linkedTree ⟨[]⟩ linkedOptions).result = .ok report ∧
      (generate (generate linkedTree ⟨[]⟩ linkedOptions).tree ⟨[]⟩ linkedOptions).result = .ok report ∧
      (generate (generate linkedTree ⟨[]⟩ linkedOptions).tree ⟨[]⟩ linkedOptions).tree =
        (generate linkedTree ⟨[]⟩ linkedOptions).tree := by
  have ht : linkedTree.target? linkedOptions.output = some [Text.utf8 "out"] := by decide +kernel
  have hl : linkedTree.locate linkedOptions.inputDir = .ok [Text.utf8 "components"] := rfl
  obtain ⟨report, hreport, hapart⟩ := exists_apart_of_entries ⟨[]⟩ (by decide +kernel) (by decide +kernel) ht
    (by decide +kernel) hl (by decide) (by decide +kernel) (by decide +kernel)
  obtain ⟨htree, hresult⟩ := (generate_again hreport).1 _ ht hapart
  refine ⟨report, hreport, ?_, htree⟩
  rw [hresult, if_neg (by decide +kernel)]

/-- One module, and a link to a directory. -/
def crossedTree : FileTree where
  top := .directory directoryMode [
    (Text.utf8 "src", .directory directoryMode [(Text.utf8 "A.jsx", .file [] 0o644)]),
    (Text.utf8 "d", .directory directoryMode []),
    (Text.utf8 "x", .link (.ofString "d"))]

/-- The output is to replace the link `x`, through which its own path leads. -/
def crossedOptions : Options where
  inputDir := .ofString "src"
  output := .ofString "x/../x"

/-- Nothing that is read leads by the output, and yet the second run cannot write. -/
theorem crossed_output_unwritable :
    ∃ report, (generate crossedTree ⟨[]⟩ crossedOptions).result = .ok report ∧
      crossedTree.target? crossedOptions.output = some [Text.utf8 "x"] ∧
      Apart crossedTree (generate crossedTree ⟨[]⟩ crossedOptions).tree crossedOptions [Text.utf8 "x"] ∧
      (generate (generate crossedTree ⟨[]⟩ crossedOptions).tree ⟨[]⟩ crossedOptions).result =
        .error (.unwritable crossedOptions.output) := by
  have ht : crossedTree.target? crossedOptions.output = some [Text.utf8 "x"] := by decide +kernel
  have hl : crossedTree.locate crossedOptions.inputDir = .ok [Text.utf8 "src"] := rfl
  obtain ⟨report, hreport, hapart⟩ := exists_apart_of_entries ⟨[]⟩ (by decide +kernel) (by decide +kernel) ht
    (by decide +kernel) hl (by decide) (by decide +kernel) (by decide +kernel)
  refine ⟨report, hreport, ht, hapart, ?_⟩
  rw [(generate_repeated hreport ht hapart).2, if_pos (by decide +kernel)]

end ReactCatalog
