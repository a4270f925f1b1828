import ReactCatalog.Proofs.Shape

/-!
# A catalog has one record for each file

Every candidate gives an outcome by itself: from its path, the bytes of its file and the annotation of its module
(`outcomeOf`). The catalog holds the records of these outcomes in the order of the candidates, and the report counts
them. So what a file holds matters for its own record only.
-/

namespace ReactCatalog

/-! ## Candidates -/

theorem candidate?_eq_some {t : FileTree} {filter : CandidateFilter} {root p : Path} {c : Candidate}
    (h : candidate? t filter root p = some c) : t.isFile c.path = true ∧ relativeName root c.path = some c.relative := by
  unfold candidate? at h
  split at h
  · next hf =>
    split at h
    · next relative hr =>
      split at h
      · cases h
      · cases h
        exact ⟨(Bool.and_eq_true_iff.1 hf).1, hr⟩
    · cases h
  · cases h

theorem mem_candidatesFor {t : FileTree} {o : Options} {c : Candidate} (h : c ∈ candidatesFor t o) :
    t.isFile c.path = true ∧ relativeName o.inputDir c.path = some c.relative := by
  unfold candidatesFor collectCandidates sortCandidates at h
  obtain ⟨p, _, hp⟩ := List.mem_filterMap.1 (List.mem_mergeSort.1 h)
  exact candidate?_eq_some hp

/-! ## Outcomes -/

/-- The text that bytes spell. -/
def textOf (bytes : List UInt8) : Except ReadError String :=
  match Text.decode? bytes with
  | some s => .ok s
  | none => .error .notText

/-- What comes of a candidate whose file holds these bytes and whose module has this annotation. -/
def outcomeFrom (root : Path) (c : Candidate) (bytes : List UInt8) (note : Option (Dictionary Json)) :
    FileOutcome where
  file := c.relative
  extracted := extract (fun _ => textOf bytes) c.path
  annotated := if (moduleOfPath? root c.path).isSome then .ok note else .error (moduleOfPathError c.path)

/-- The bytes of the file that a path leads to. -/
def FileTree.bytesAt (t : FileTree) (p : Path) : List UInt8 := (t.file? p).elim [] Prod.fst

/-- What comes of a candidate by itself. -/
def outcomeOf (t : FileTree) (registry : Registry) (o : Options) (c : Candidate) : FileOutcome :=
  outcomeFrom o.inputDir c (t.bytesAt c.path) ((moduleOfPath? o.inputDir c.path).bind registry.read)

theorem FileTree.readText_of_isFile {t : FileTree} {p : Path} (h : t.isFile p = true) :
    t.readText p = textOf (t.bytesAt p) := by
  unfold isFile at h
  split at h
  · next bytes m hf =>
    simp only [readText, bytesAt, file?, hf, textOf, bind, Except.bind, Option.elim_some]
    cases Text.decode? bytes <;> rfl
  · cases h

theorem processFile_eq_outcomeOf {t : FileTree} {o : Options} {c : Candidate} (registry : Registry)
    (hc : t.isFile c.path = true) : processFile t registry o.inputDir c = outcomeOf t registry o c := by
  simp only [processFile, outcomeOf, outcomeFrom, annotationFor, extract, FileTree.readText_of_isFile hc]
  cases moduleOfPath? o.inputDir c.path <;> rfl

theorem outcomes_eq (t : FileTree) (registry : Registry) (o : Options) :
    outcomes t registry o (candidatesFor t o) = (candidatesFor t o).map (outcomeOf t registry o) := by
  apply List.map_congr_left
  intro c hc
  exact processFile_eq_outcomeOf registry (mem_candidatesFor hc).1

/-- The candidates that have a record: all of them, or those that did not fail if failed ones are dropped. -/
def keptFor (t : FileTree) (registry : Registry) (o : Options) : List Candidate :=
  (candidatesFor t o).filter fun c => !(o.dropFailed && (outcomeOf t registry o c).status == .failed)

theorem keptRecords_eq (t : FileTree) (registry : Registry) (o : Options) :
    keptRecords o.dropFailed (outcomes t registry o (candidatesFor t o)) =
      (keptFor t registry o).map fun c => (outcomeOf t registry o c).record := by
  rw [outcomes_eq, keptRecords, List.filter_map, List.map_map]
  rfl

/-- Other bytes in another file make no difference to a candidate. -/
theorem outcomeOf_withBytes {t : FileTree} {c : Candidate} {place : Trail} (hne : t.locate c.path ≠ .ok place)
    (bytes : List UInt8) (registry : Registry) (o : Options) :
    outcomeOf (t.withBytes place bytes) registry o c = outcomeOf t registry o c := by
  unfold outcomeOf FileTree.bytesAt
  rw [FileTree.file?_withBytes hne]

/-! ## Reports -/

/-- How many files came out this way. -/
def Report.count (r : Report) : FileStatus → Nat
  | .complete => r.complete
  | .incomplete => r.incomplete
  | .failed => r.failed

theorem count_finish (o : Options) (os : List FileOutcome) (s : FileStatus) :
    (tally o os).finish.count s = os.countP fun x => x.status == s := by
  rw [finish_tally]
  cases s <;> rfl

theorem sum_countStatus (os : List FileOutcome) :
    countStatus .complete os + countStatus .incomplete os + countStatus .failed os = os.length := by
  induction os with
  | nil => rfl
  | cons x rest ih =>
    unfold countStatus at ih ⊢
    simp only [List.countP_cons, List.length_cons]
    cases x.status <;> simp <;> omega

theorem length_keptRecords (dropFailed : Bool) (os : List FileOutcome) :
    (keptRecords dropFailed os).length + (if dropFailed then countStatus .failed os else 0) = os.length := by
  unfold keptRecords isKept countStatus
  rw [List.length_map]
  cases dropFailed with
  | false => simp
  | true =>
    simp only [Bool.true_and, if_true]
    have h := List.length_eq_countP_add_countP (l := os) fun x => x.status == .failed
    simp only [Bool.not_eq_true, Bool.decide_eq_false] at h
    rw [← List.countP_eq_length_filter]
    omega

/-! ## Runs -/

theorem generate_isOk_iff (t : FileTree) (registry : Registry) (o : Options) (faults : Faults) :
    (generate t registry o faults).result.isOk = true ↔
      t.isDirectory o.inputDir = true ∧ (candidatesFor t o ≠ [] ∨ o.allowEmpty = true) ∧
        (t.write o.output (Text.utf8 (newText t registry o)) faults).1 = none := by
  unfold generate
  cases hd : t.isDirectory o.inputDir with
  | false => simp [Except.isOk, Except.toBool]
  | true =>
    simp only [Bool.not_true, Bool.false_eq_true, if_false, true_and]
    split
    · next he =>
      have hc : candidatesFor t o = [] ∧ o.allowEmpty = false := by simpa [candidatesFor] using he
      simp [Except.isOk, Except.toBool, hc]
    · next he =>
      have hc : candidatesFor t o ≠ [] ∨ o.allowEmpty = true := by
        cases ha : o.allowEmpty with
        | true => exact .inr rfl
        | false => exact .inl (by simpa [candidatesFor, ha] using he)
      rw [and_iff_right hc]
      simp only [newText, candidatesFor, ← records_tally]
      split
      · next hw => simp [hw, Except.isOk, Except.toBool]
      · next hw => simp [hw, Except.isOk, Except.toBool]

theorem FileTree.SameShape.candidatesFor {t t' : FileTree} (h : SameShape t t') (o : Options) :
    candidatesFor t o = candidatesFor t' o := by
  unfold ReactCatalog.candidatesFor
  rw [h.collectCandidates]

/-- Whether there is a catalog depends on the shape of the tree alone. -/
theorem FileTree.SameShape.generate_isOk {t t' : FileTree} (h : SameShape t t') (registry : Registry) (o : Options)
    (faults : Faults) :
    (generate t registry o faults).result.isOk = (generate t' registry o faults).result.isOk := by
  rw [Bool.eq_iff_iff, generate_isOk_iff, generate_isOk_iff, h.isDirectory, h.candidatesFor,
    h.write o.output _ (Text.utf8 (newText t' registry o))]

/-- What a successful run reports and leaves. -/
theorem generate_ok {t : FileTree} {registry : Registry} {o : Options} {faults : Faults} {report : Report}
    (h : (generate t registry o faults).result = .ok report) :
    report = (tally o (outcomes t registry o (candidatesFor t o))).finish ∧
      OnlyWritten t (generate t registry o faults).tree o.output (newText t registry o) := by
  rcases generate_cases t registry o faults with ⟨e, he, _⟩ | ⟨here, ht, hn, hok, htree⟩
  · rw [he] at h
    cases h
  · rw [hok, Except.ok.injEq] at h
    rw [htree]
    exact ⟨h.symm, onlyWritten_set ht hn _⟩

theorem exists_ok_of_isOk {ε α : Type} {x : Except ε α} (h : x.isOk = true) : ∃ a, x = .ok a := by
  cases x with
  | error e => cases h
  | ok a => exact ⟨a, rfl⟩

/-- The catalog has the records of all candidates that are kept, in their order, each made from its own file; the
report counts them; and other bytes in a file change nothing but what comes of that file. -/
theorem catalog_of_single_outcomes {t : FileTree} {registry : Registry} {o : Options} {faults : Faults}
    {report : Report} (h : (generate t registry o faults).result = .ok report) :
    let kept := keptFor t registry o
    let records := kept.map fun c => (outcomeOf t registry o c).record
    OnlyWritten t (generate t registry o faults).tree o.output (Json.array (records.map Record.toJson)).pretty ∧
    (∀ s, report.count s = (candidatesFor t o).countP fun c => (outcomeOf t registry o c).status == s) ∧
    report.complete + report.incomplete + report.failed = (candidatesFor t o).length ∧
    report.dropped = (if o.dropFailed then report.failed else 0) ∧
    report.written = records.length ∧ records.length + report.dropped = (candidatesFor t o).length ∧
    records.map Record.file = kept.map Candidate.relative ∧
    ∀ place bytes,
      (∃ report', (generate (t.withBytes place bytes) registry o faults).result = .ok report') ∧
      candidatesFor (t.withBytes place bytes) o = candidatesFor t o ∧
      ∀ c ∈ candidatesFor t o, t.locate c.path ≠ .ok place →
        outcomeOf (t.withBytes place bytes) registry o c = outcomeOf t registry o c := by
  intro kept records
  obtain ⟨rfl, hw⟩ := generate_ok h
  have hr : keptRecords o.dropFailed (outcomes t registry o (candidatesFor t o)) = records :=
    keptRecords_eq t registry o
  have hlen : (outcomes t registry o (candidatesFor t o)).length = (candidatesFor t o).length := by
    simp [outcomes]
  refine ⟨?_, ?_, ?_, ?_, ?_, ?_, ?_, ?_⟩
  · rw [newText, hr] at hw
    exact hw
  · intro s
    rw [count_finish, outcomes_eq, List.countP_map]
    rfl
  · rw [finish_tally, ← hlen]
    exact sum_countStatus _
  · rw [finish_tally]
  · rw [finish_tally]
    exact congrArg List.length hr
  · rw [finish_tally, ← hlen, ← hr]
    exact length_keptRecords o.dropFailed _
  · simp only [records, List.map_map]
    rfl
  · intro place bytes
    have hs := t.sameShape_withBytes place bytes
    refine ⟨?_, (hs.candidatesFor o).symm, ?_⟩
    · apply exists_ok_of_isOk
      rw [← hs.generate_isOk registry o faults, h]
      rfl
    · intro c _ hne
      exact outcomeOf_withBytes hne bytes registry o

/-- Two files that are no text; the module of one has an annotation. -/
def brokenTree : FileTree where
  top := .directory directoryMode [
    (Text.utf8 "src", .directory directoryMode [
      (Text.utf8 "Bad.jsx", .file [0xff] 0o644),
      (Text.utf8 "Known.jsx", .file [0xff] 0o644)])]

def brokenRegistry : Registry := ⟨[("Known.jsx", [])]⟩

def brokenOptions : Options where
  inputDir := .ofString "src"
  output := .ofString "out.json"
  dropFailed := true

/-- The candidates before they are sorted. -/
theorem perm_candidatesFor (t : FileTree) (o : Options) :
    (candidatesFor t o).Perm
      ((entriesUnder t o.recursive o.inputDir).1.filterMap (candidate? t o.filter o.inputDir)) :=
  List.mergeSort_perm _ _

theorem broken_file_dropped :
    ∃ report, (generate brokenTree brokenRegistry brokenOptions).result = .ok report ∧
      report.incomplete = 1 ∧ report.failed = 1 ∧ report.dropped = 1 ∧ report.written = 1 := by
  have hp := perm_candidatesFor brokenTree brokenOptions
  have hlen : (candidatesFor brokenTree brokenOptions).length = 2 := by
    rw [hp.length_eq]
    decide +kernel
  have hok : (generate brokenTree brokenRegistry brokenOptions).result.isOk = true := by
    rw [generate_isOk_iff, FileTree.write_succeeds_iff]
    refine ⟨by decide +kernel, .inl ?_, fun _ => rfl, by decide +kernel, [Text.utf8 "out.json"], ?_⟩
    · apply List.ne_nil_of_length_pos
      omega
    · decide +kernel
  obtain ⟨report, h⟩ := exists_ok_of_isOk hok
  obtain ⟨_, hcount, _, hdropped, hwritten, hsum, _⟩ := catalog_of_single_outcomes h
  have hi : report.incomplete = 1 := by
    rw [show report.incomplete = report.count .incomplete from rfl, hcount, hp.countP_eq]
    decide +kernel
  have hf : report.failed = 1 := by
    rw [show report.failed = report.count .failed from rfl, hcount, hp.countP_eq]
    decide +kernel
  have hd : report.dropped = 1 := by
    rw [hdropped, hf]
    rfl
  exact ⟨report, h, hi, hf, hd, by omega⟩

end ReactCatalog
