import ReactCatalog.Proofs.Batch
import ReactCatalog.Proofs.Dictionary

/-!
# What a record says

A record is made from two sources: the documentation extracted from a file, and data attached to its component. Under
each key the component's name goes before the attached data, and these go before the documentation; the key of the
file is for the file alone (`Sources.field?`). Only a record made from neither source is bare, and so a catalog has
bare records for the files that failed, or none if those are dropped (`record_of_sources`).
-/

namespace ReactCatalog

/-! ## Sources -/

/-- Data that can be attached to a component: each key stands once. -/
abbrev AttachedData := { data : Dictionary Json // Dictionary.Sorted data }

/-- What is known of a file before it has a record. -/
structure Sources where
  file : String
  extracted : Except ExtractError ComponentDoc
  /-- A component with the data attached to it, if there are any, or why they could not be read. -/
  attached : Except String (Option (ComponentRef × AttachedData))

namespace Sources

def doc? (s : Sources) : Option ComponentDoc := s.extracted.toOption

def attachment? (s : Sources) : Option (ComponentRef × AttachedData) := s.attached.toOption.bind id

/-- What comes of the file. -/
def outcome (s : Sources) : FileOutcome :=
  ⟨s.file, s.extracted, s.attached.map (Option.map fun a => annotationOf a.1 a.2.1)⟩

end Sources

/-- What the documentation has under a key. -/
def ComponentDoc.field? (d : ComponentDoc) (key : String) : Option Json :=
  if key = "description" then some (.string d.description)
  else if key = "displayName" then d.displayName.map .string
  else if key = "methods" then
    if d.methods = [] then none else some (Json.array (d.methods.map MethodDoc.toJson)).sorted
  else if key = "properties" then some (Json.object (d.properties.map fun p => (p.1, p.2.toJson))).sorted
  else if key = "composes" then if d.composes = [] then none else some (.array (d.composes.map .string))
  else none

/-- What an attachment has under a key: under `name` the name of the component. -/
def attachedField? (a : ComponentRef × AttachedData) (key : String) : Option Json :=
  if key = "name" then some (.string a.1.derivedName) else Dictionary.find? a.2.1 key

/-- What the sources have under a key, the attachment before the documentation. -/
def Sources.field? (s : Sources) (key : String) : Option Json :=
  (s.attachment?.bind (attachedField? · key)).or (s.doc?.bind (·.field? key))

/-- The record of a file says what its sources say, each thing once. -/
structure Record.Merges (r : Record) (s : Sources) : Prop where
  file : r.file = s.file
  once : Dictionary.Sorted r.fields
  no_file : Dictionary.find? r.fields "file" = none
  field : ∀ key ≠ "file", Dictionary.find? r.fields key = s.field? key

/-! ## Documentation -/

theorem Json.sortedItems_strings (texts : List String) :
    Json.sortedItems (texts.map .string) = texts.map .string := by
  rw [Json.sortedItems_eq, List.map_map]
  rfl

theorem Json.find?_sortedMembers (ms : List (String × Json)) (key : String) :
    Dictionary.find? (Json.sortedMembers ms) key = (List.lookup key ms).map Json.sorted := by
  unfold Dictionary.find?
  induction ms with
  | nil => rfl
  | cons m rest ih =>
    obtain ⟨k, v⟩ := m
    rw [Json.sortedMembers, lookup_cons_ite, lookup_cons_ite, ih]
    split <;> rfl

theorem Json.keys_sortedMembers (ms : List (String × Json)) :
    Dictionary.keys (Json.sortedMembers ms) = ms.map Prod.fst := by
  rw [Json.sortedMembers_eq, Dictionary.keys, List.map_map]
  rfl

/-- A member of a sorted object is the sorted member. -/
theorem Json.find?_members_sorted {ms : List (String × Json)} (h : (ms.map Prod.fst).Nodup) (key : String) :
    Dictionary.find? (Json.object ms).sorted.members key = (List.lookup key ms).map Json.sorted := by
  have hkeys : (Dictionary.keys (Json.sortedMembers ms)).Nodup := by rwa [Json.keys_sortedMembers]
  show Dictionary.find? (Dictionary.overlay [] (Json.sortedMembers ms)) key = _
  rw [Dictionary.find?_overlay hkeys, Json.find?_sortedMembers]
  exact Option.or_none

theorem ComponentDoc.sorted_fields (d : ComponentDoc) : Dictionary.Sorted d.fields :=
  Dictionary.sorted_ofList _

theorem lookup_optional {α : Type} (key k : String) (v : Option α) :
    List.lookup key (v.map fun x => (k, x)).toList = if key = k then v else none := by
  cases v with
  | none => simp
  | some x => simp [lookup_cons_ite]

theorem lookup_unless {α : Type} (b : Bool) (key k : String) (v : α) :
    List.lookup key (if b then [] else [(k, v)]) = if key = k then (if b then none else some v) else none := by
  cases b <;> simp [lookup_cons_ite]

theorem ComponentDoc.find?_fields (d : ComponentDoc) (key : String) :
    Dictionary.find? d.fields key = d.field? key := by
  have hdistinct : (d.toJson.members.map Prod.fst).Nodup := by
    unfold ComponentDoc.toJson
    cases d.displayName <;> cases d.methods <;> cases d.composes <;> simp [Json.members]
  have hname : d.displayName.map (fun n => ("displayName", Json.string n)) =
      (d.displayName.map Json.string).map fun v => ("displayName", v) := by
    rw [Option.map_map]
    rfl
  have hlookup : Dictionary.find? d.fields key = (List.lookup key d.toJson.members).map Json.sorted :=
    Json.find?_members_sorted hdistinct key
  simp only [hlookup, ComponentDoc.toJson, Json.members, List.lookup_append, hname, lookup_optional, lookup_unless,
    lookup_cons_ite, List.lookup_nil]
  -- at most one of the parts has the key
  unfold ComponentDoc.field?
  by_cases hdescription : key = "description"
  · simp [hdescription, Json.sorted]
  by_cases hdisplay : key = "displayName"
  · cases hd : d.displayName <;> simp [hdisplay, Json.sorted]
  by_cases hmethods : key = "methods"
  · cases hm : d.methods <;> simp [hmethods]
  by_cases hproperties : key = "properties"
  · simp [hproperties]
  by_cases hcomposes : key = "composes"
  · cases hc : d.composes <;> simp [hcomposes, Json.sorted, Json.sortedItems, Json.sortedItems_strings]
  simp [hdescription, hdisplay, hmethods, hproperties, hcomposes]

/-! ## Records -/

theorem find?_annotationOf (c : ComponentRef) (data : AttachedData) (key : String) :
    Dictionary.find? (annotationOf c data.1) key = attachedField? (c, data) key := by
  unfold annotationOf attachedField?
  by_cases hkey : key = "name"
  · subst hkey
    exact Dictionary.find?_insert_self _ _ _
  · rw [if_neg hkey]
    exact Dictionary.find?_insert_of_ne hkey _ _

theorem sorted_annotationOf (c : ComponentRef) (data : AttachedData) :
    Dictionary.Sorted (annotationOf c data.1) :=
  data.2.insert _ _

namespace Sources

theorem outcome_annotated (s : Sources) :
    s.outcome.annotated.toOption.bind id = s.attachment?.map fun a => annotationOf a.1 a.2.1 := by
  unfold outcome attachment?
  cases s.attached with
  | error e => rfl
  | ok a => cases a <;> rfl

/-- The fields of the record: the documentation, overlaid with the attachment, without the key of the file. -/
theorem fields_record (s : Sources) :
    s.outcome.record.fields = Dictionary.erase "file"
      (Dictionary.overlay ((s.doc?.map ComponentDoc.fields).getD [])
        ((s.attachment?.map fun a => annotationOf a.1 a.2.1).getD [])) := by
  rw [← outcome_annotated]
  rfl

theorem record_merges (s : Sources) : s.outcome.record.Merges s := by
  have hbase : Dictionary.Sorted ((s.doc?.map ComponentDoc.fields).getD []) := by
    cases s.doc? with
    | none => exact List.Pairwise.nil
    | some d => exact d.sorted_fields
  have hentries : Dictionary.Sorted ((s.attachment?.map fun a => annotationOf a.1 a.2.1).getD []) := by
    cases s.attachment? with
    | none => exact List.Pairwise.nil
    | some a => exact sorted_annotationOf a.1 a.2
  refine ⟨rfl, ?_, ?_, ?_⟩
  · rw [fields_record]
    exact (hbase.overlay _).erase _
  · rw [fields_record]
    exact Dictionary.find?_erase_self _ _
  · intro key hkey
    rw [fields_record, Dictionary.find?_erase_of_ne hkey, Dictionary.find?_overlay hentries.nodup_keys]
    unfold field?
    congr 1
    · cases s.attachment? with
      | none => rfl
      | some a => exact find?_annotationOf a.1 a.2 key
    · cases s.doc? with
      | none => rfl
      | some d => exact d.find?_fields key

theorem status_eq_failed_iff (s : Sources) :
    s.outcome.status = .failed ↔ s.doc? = none ∧ s.attachment? = none := by
  unfold doc? attachment? outcome FileOutcome.status
  rcases s with ⟨file, extracted, attached⟩
  cases extracted with
  | ok d => cases attached <;> simp [Except.map, Except.toOption]
  | error e =>
    cases attached with
    | error e => simp [Except.map, Except.toOption]
    | ok a => cases a <;> simp [Except.map, Except.toOption]

/-- Documentation has a description and an attachment a name, so only a record without sources is bare. -/
theorem record_eq_bare_iff (s : Sources) : s.outcome.record = .bare s.file ↔ s.outcome.status = .failed := by
  have hm := s.record_merges
  rw [status_eq_failed_iff]
  constructor
  · intro hbare
    have hnone : ∀ key ≠ "file", s.field? key = none := by
      intro key hkey
      rw [← hm.field key hkey, hbare]
      rfl
    constructor
    · cases hd : s.doc? with
      | none => rfl
      | some d =>
        have h := hnone "description" (by decide)
        simp [field?, hd, ComponentDoc.field?] at h
    · cases ha : s.attachment? with
      | none => rfl
      | some a =>
        have h := hnone "name" (by decide)
        simp [field?, ha, attachedField?] at h
  · rintro ⟨hd, ha⟩
    have hfields : s.outcome.record.fields = [] := by
      rw [fields_record, hd, ha]
      rfl
    rw [Record.bare, ← hfields, ← hm.file]

end Sources

/-! ## Catalogs -/

/-- All annotations are data attached to components. -/
inductive Registry.Filled : Registry → Prop
  | empty : Filled .empty
  | attach {r : Registry} (data : AttachedData) (c : ComponentRef) : Filled r → Filled (r.attach data.1 c)

/-- What a registry has of a module was attached to a component. -/
theorem Registry.Filled.exists_of_read {r : Registry} (h : r.Filled) {module : String} {note : Dictionary Json}
    (hr : r.read module = some note) : ∃ (c : ComponentRef) (data : AttachedData), note = annotationOf c data.1 := by
  induction h with
  | empty => cases hr
  | attach data c _ ih =>
    unfold Registry.attach Registry.read at hr
    by_cases hm : module = c.module
    · rw [hm, Dictionary.find?_insert_self, Option.some.injEq] at hr
      exact ⟨c, data, hr.symm⟩
    · rw [Dictionary.find?_insert_of_ne hm] at hr
      exact ih hr

theorem Registry.Filled.exists_sources {r : Registry} (h : r.Filled) (t : FileTree) (root : Path) (c : Candidate) :
    ∃ s : Sources, s.outcome = processFile t r root c := by
  unfold processFile annotationFor
  cases moduleOfPath? root c.path with
  | none => exact ⟨⟨c.relative, extract t.readText c.path, .error (moduleOfPathError c.path)⟩, rfl⟩
  | some module =>
    cases hr : r.read module with
    | none => exact ⟨⟨c.relative, extract t.readText c.path, .ok none⟩, by simp [Sources.outcome, Except.map, hr]⟩
    | some note =>
      obtain ⟨component, data, rfl⟩ := h.exists_of_read hr
      exact ⟨⟨c.relative, extract t.readText c.path, .ok (some (component, data))⟩,
        by simp [Sources.outcome, Except.map, hr]⟩

theorem Registry.Filled.exists_outcomes {r : Registry} (h : r.Filled) (t : FileTree) (o : Options)
    (cs : List Candidate) : ∃ sources : List Sources, sources.map Sources.outcome = outcomes t r o cs := by
  unfold outcomes
  induction cs with
  | nil => exact ⟨[], rfl⟩
  | cons c rest ih =>
    obtain ⟨s, hs⟩ := h.exists_sources t o.inputDir c
    obtain ⟨sources, hrest⟩ := ih
    exact ⟨s :: sources, by rw [List.map_cons, List.map_cons, hs, hrest]⟩

theorem not_bare_of_mem_keptRecords {sources : List Sources} {r : Record}
    (h : r ∈ keptRecords true (sources.map Sources.outcome)) (file : String) : r ≠ .bare file := by
  unfold keptRecords isKept at h
  obtain ⟨o, ho, rfl⟩ := List.mem_map.1 h
  obtain ⟨hmem, hkept⟩ := List.mem_filter.1 ho
  obtain ⟨s, _, rfl⟩ := List.mem_map.1 hmem
  intro hbare
  have hfile : s.file = file := congrArg Record.file hbare
  have hfailed : s.outcome.status = .failed := s.record_eq_bare_iff.1 (hfile ▸ hbare)
  simp [hfailed] at hkept

/-- A record says under each key what its sources say, and is bare if they have failed. So a catalog from which failed
files are dropped has no bare record, and one that has all files has bare records for those that failed. -/
theorem record_of_sources :
    (∀ s : Sources, s.outcome.record.Merges s ∧ (s.outcome.record = .bare s.file ↔ s.outcome.status = .failed)) ∧
    ∀ (t : FileTree) (registry : Registry) (o : Options) (faults : Faults) (report : Report),
      registry.Filled → (generate t registry o faults).result = .ok report →
      ∃ (sources : List Sources) (records : List Record),
        sources.map Sources.outcome = outcomes t registry o (candidatesFor t o) ∧
        OnlyWritten t (generate t registry o faults).tree o.output (catalogText records) ∧
        (o.dropFailed = true → (∀ r ∈ records, ∀ file, r ≠ .bare file) ∧
          records = (sources.filter fun s => s.outcome.status != .failed).map fun s => s.outcome.record) ∧
        (o.dropFailed = false → records = sources.map fun s => s.outcome.record) := by
  refine ⟨fun s => ⟨s.record_merges, s.record_eq_bare_iff⟩, ?_⟩
  intro t registry o faults report hfilled hok
  obtain ⟨sources, hs⟩ := hfilled.exists_outcomes t o (candidatesFor t o)
  obtain ⟨_, hw⟩ := generate_ok hok
  refine ⟨sources, keptRecords o.dropFailed (sources.map Sources.outcome), hs, hs ▸ hw, ?_, ?_⟩
  · intro hdrop
    rw [hdrop]
    refine ⟨fun r hr => not_bare_of_mem_keptRecords hr, ?_⟩
    unfold keptRecords isKept
    rw [List.filter_map, List.map_map]
    rfl
  · intro hdrop
    rw [hdrop]
    unfold keptRecords isKept
    simp

/-- One of the two broken files has data attached to it, under the keys of the file and of the name too. -/
def knownData : AttachedData :=
  ⟨[("file", .string "x"), ("kind", .string "input"), ("name", .string "y")], by decide⟩

def knownComponent : ComponentRef := ⟨"Known.jsx", none, some "Known"⟩

def knownRegistry : Registry := Registry.empty.attach knownData.1 knownComponent

def knownSources : Sources :=
  ⟨"Known.jsx", .error (.unreadable .notText), .ok (some (knownComponent, knownData))⟩

theorem known_file_kept :
    (knownSources.outcome.record.file = "Known.jsx" ∧
      Dictionary.find? knownSources.outcome.record.fields "file" = none ∧
      Dictionary.find? knownSources.outcome.record.fields "name" = some (.string "Known") ∧
      Dictionary.find? knownSources.outcome.record.fields "kind" = some (.string "input")) ∧
    ∃ records : List Record, (∀ r ∈ records, ∀ file, r ≠ .bare file) ∧
      OnlyWritten brokenTree (generate brokenTree knownRegistry brokenOptions).tree brokenOptions.output
        (catalogText records) := by
  obtain ⟨hrecord, hcatalog⟩ := record_of_sources
  constructor
  · have hm := (hrecord knownSources).1
    exact ⟨hm.file, hm.no_file, (hm.field "name" (by decide)).trans rfl, (hm.field "kind" (by decide)).trans rfl⟩
  · have hok : (generate brokenTree knownRegistry brokenOptions).result.isOk = true := by
      rw [generate_isOk_iff, FileTree.write_succeeds_iff]
      refine ⟨by decide +kernel, .inl ?_, fun _ => rfl, by decide +kernel, [Text.utf8 "out.json"], ?_⟩
      · apply List.ne_nil_of_length_pos
        rw [(perm_candidatesFor brokenTree brokenOptions).length_eq]
        decide +kernel
      · decide +kernel
    obtain ⟨report, h⟩ := exists_ok_of_isOk hok
    obtain ⟨_, records, _, hw, hdropped, _⟩ := hcatalog _ _ _ _ _ (.attach knownData knownComponent .empty) h
    exact ⟨records, (hdropped rfl).1, hw⟩

end ReactCatalog
