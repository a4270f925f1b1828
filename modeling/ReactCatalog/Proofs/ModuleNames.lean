import ReactCatalog.Proofs.Records
import ReactCatalog.Proofs.Registration
import ReactCatalog.Proofs.RelativeNames

/-!
# Modules of candidates

Data are attached under a text, in which backslashes count as slashes, and looked up by the path of a candidate, in
which they do not. A candidate whose names are text is looked up under its relative name. So data attached under that
name come into its record, and into no other, if there is no backslash in it; otherwise they come into the record of
the candidate whose name has slashes in their place and no `./` at its start, if there is one
(`annotation_of_candidate`).
-/

namespace ReactCatalog

/-! ## Looking up by path -/

/-- The names that lead to the candidate from a directory are text. -/
def Candidate.IsText (root : Path) (c : Candidate) : Prop :=
  ∃ texts : List String, Path.partsBelow? root c.path = some (texts.map fun s => .name (Text.utf8 s))

theorem partText?_eq_some_iff {part : Path.Part} {s : String} :
    partText? part = some s ↔ part = .name (Text.utf8 s) := by
  cases part with
  | name n => rw [partText?, Text.decode?_eq_some_iff, Path.Part.name.injEq]
  | root => simp [partText?]
  | here => simp [partText?]
  | up => simp [partText?]

theorem mapM_partText?_eq_some_iff {parts : List Path.Part} {texts : List String} :
    parts.mapM partText? = some texts ↔ parts = texts.map fun s => .name (Text.utf8 s) := by
  induction parts generalizing texts with
  | nil => cases texts <;> simp
  | cons part rest ih =>
    rw [List.mapM_cons]
    simp only [Option.bind_eq_bind, Option.bind_eq_some_iff, partText?_eq_some_iff, ih]
    constructor
    · rintro ⟨s, rfl, ss, rfl, htexts⟩
      cases htexts
      rfl
    · intro h
      cases texts with
      | nil => cases h
      | cons s ss =>
        cases h
        exact ⟨s, rfl, ss, rfl, rfl⟩

/-- A path has a module if its parts are those of the directory and then names that are text. -/
theorem moduleOfPath?_eq_some {root p : Path} {module : String} :
    moduleOfPath? root p = some module ↔ ∃ texts : List String, texts ≠ [] ∧
      p.parts = root.parts ++ texts.map (fun s => .name (Text.utf8 s)) ∧ module = "/".intercalate texts := by
  unfold moduleOfPath?
  simp only [Option.bind_eq_bind, Option.bind_eq_some_iff, Path.partsBelow?_eq_some_iff, mapM_partText?_eq_some_iff,
    Option.ite_none_left_eq_some, List.isEmpty_iff, Option.some.injEq]
  constructor
  · rintro ⟨_, hparts, texts, rfl, hne, rfl⟩
    exact ⟨texts, hne, hparts, rfl⟩
  · rintro ⟨texts, hne, hparts, rfl⟩
    exact ⟨_, hparts, texts, rfl, hne, rfl⟩

section

variable {root : Path} {names : Trail}

/-- An entry is looked up under its names, if they are text, with slashes between them. -/
theorem moduleOfPath?_descend (hr : root.bytes ≠ []) (hn : ∀ n ∈ names, Path.IsName n) (hne : names ≠ [])
    {module : String} :
    moduleOfPath? root (root.descend names) = some module ↔
      ∃ texts : List String, names = texts.map Text.utf8 ∧ module = "/".intercalate texts := by
  have hname : Function.Injective Path.Part.name := fun _ _ h => Path.Part.name.inj h
  rw [moduleOfPath?_eq_some, Path.parts_descend hr hn]
  constructor
  · rintro ⟨texts, _, hparts, rfl⟩
    refine ⟨texts, List.map_injective_iff.2 hname ?_, rfl⟩
    rw [List.append_cancel_left hparts, List.map_map]
    rfl
  · rintro ⟨texts, rfl, rfl⟩
    refine ⟨texts, by simpa using hne, ?_, rfl⟩
    rw [List.map_map]
    rfl

theorem isText_candidateAt (hr : root.bytes ≠ []) (hn : ∀ n ∈ names, Path.IsName n) :
    (candidateAt root names).IsText root ↔ ∃ texts : List String, names = texts.map Text.utf8 := by
  unfold Candidate.IsText candidateAt
  rw [Path.partsBelow?_descend hr hn]
  have hname : Function.Injective Path.Part.name := fun _ _ h => Path.Part.name.inj h
  constructor
  · rintro ⟨texts, h⟩
    refine ⟨texts, List.map_injective_iff.2 hname ?_⟩
    rw [Option.some.inj h, List.map_map]
    rfl
  · rintro ⟨texts, rfl⟩
    exact ⟨texts, by rw [List.map_map]; rfl⟩

theorem relativeText_utf8 (texts : List String) : relativeText (texts.map Text.utf8) = "/".intercalate texts := by
  rw [relativeText, shown_utf8]

end

section

variable {t : FileTree} {o : Options} {c d : Candidate}

theorem exists_names (ht : t.top.WellNamed) (hc : c ∈ candidatesFor t o) :
    ∃ names, c = candidateAt o.inputDir names ∧ o.Selects t names ∧ o.inputDir.bytes ≠ [] ∧
      ∀ n ∈ names, Path.IsName n := by
  obtain ⟨entries, hentries, _, hselects, _⟩ := exists_entries ht o
  rw [hentries] at hc
  obtain ⟨names, hmem, rfl⟩ := List.mem_map.1 hc
  have hs := (hselects names).1 hmem
  exact ⟨names, rfl, hs, names_of_selected ht hs⟩

/-- A candidate is looked up under its relative name if its names are text, else not at all. -/
theorem moduleOfPath?_eq_some_iff (ht : t.top.WellNamed) (hc : c ∈ candidatesFor t o) {module : String} :
    moduleOfPath? o.inputDir c.path = some module ↔ c.IsText o.inputDir ∧ module = c.relative := by
  obtain ⟨names, rfl, hs, hroot, hn⟩ := exists_names ht hc
  rw [isText_candidateAt hroot hn]
  show moduleOfPath? o.inputDir (o.inputDir.descend names) = _ ↔ _
  rw [moduleOfPath?_descend hroot hn (ne_nil_of_selects hs)]
  constructor
  · rintro ⟨texts, rfl, rfl⟩
    exact ⟨⟨texts, rfl⟩, (relativeText_utf8 texts).symm⟩
  · rintro ⟨⟨texts, rfl⟩, rfl⟩
    exact ⟨texts, rfl, relativeText_utf8 texts⟩

/-- Candidates whose names are text are told apart by their relative names. -/
theorem eq_of_relative_eq (ht : t.top.WellNamed) (hc : c ∈ candidatesFor t o) (hd : d ∈ candidatesFor t o)
    (htext : c.IsText o.inputDir) (htext' : d.IsText o.inputDir) (h : d.relative = c.relative) : d = c := by
  obtain ⟨names, rfl, hs, hroot, hn⟩ := exists_names ht hc
  obtain ⟨names', rfl, hs', _, hn'⟩ := exists_names ht hd
  have hshown := (relativeText_eq_iff (ne_nil_of_selects hs') (ne_nil_of_selects hs) hn' hn).1 h
  obtain ⟨texts, rfl⟩ := (isText_candidateAt hroot hn).1 htext
  obtain ⟨texts', rfl⟩ := (isText_candidateAt hroot hn').1 htext'
  rw [shown_utf8, shown_utf8] at hshown
  rw [hshown]

/-! ## Texts for modules -/

theorem prefix_intercalate {α : Type} (sep x : List α) (xs : List (List α)) : x <+: sep.intercalate (x :: xs) := by
  cases xs with
  | nil => rw [List.intercalate_singleton]
  | cons y ys =>
    rw [List.intercalate_cons_cons, List.append_assoc]
    exact List.prefix_append _ _

theorem mem_intercalate {α : Type} {a : α} {x : List α} {xs : List (List α)} (hx : x ∈ xs) (ha : a ∈ x)
    (sep : List α) : a ∈ sep.intercalate xs := by
  induction xs with
  | nil => cases hx
  | cons y ys ih =>
    rcases List.mem_cons.1 hx with rfl | hx
    · exact (prefix_intercalate sep x ys).subset ha
    · rw [List.intercalate_cons_of_ne_nil (List.ne_nil_of_mem hx)]
      exact List.mem_append_right _ (ih hx)

/-- The relative name of a candidate does not begin with `./`. -/
theorem dropLeading?_relative (ht : t.top.WellNamed) (hc : c ∈ candidatesFor t o) :
    Text.dropLeading? ['.', '/'] c.relative.toList = none := by
  obtain ⟨names, rfl, hs, _, hn⟩ := exists_names ht hc
  obtain ⟨n, more, rfl⟩ := List.exists_cons_of_ne_nil (ne_nil_of_selects hs)
  have hname := hn n List.mem_cons_self
  have hfirst : (Text.decodeLossy n).toList <+: (candidateAt o.inputDir (n :: more)).relative.toList := by
    rw [candidateAt, relativeText, String.toList_intercalate]
    exact prefix_intercalate _ _ _
  cases hdrop : Text.dropLeading? ['.', '/'] (candidateAt o.inputDir (n :: more)).relative.toList with
  | none => rfl
  | some rest =>
    exfalso
    rw [Text.dropLeading?_eq_some_iff.1 hdrop] at hfirst
    have hslash := Text.slash_not_mem_decodeLossy hname.no_slash
    -- so the first name is shown as nothing or as a dot
    have hshown : Text.decodeLossy n = "" ∨ Text.decodeLossy n = "." := by
      rw [← String.toList_inj, ← String.toList_inj]
      cases hcs : (Text.decodeLossy n).toList with
      | nil => exact .inl rfl
      | cons a cs =>
        rw [hcs] at hfirst hslash
        obtain ⟨ha, hcs'⟩ := List.cons_prefix_cons.1 hfirst
        cases cs with
        | nil => exact .inr (by rw [ha]; rfl)
        | cons b cs =>
          obtain ⟨hb, _⟩ := List.cons_prefix_cons.1 hcs'
          exact absurd (by simp [hb]) hslash
    rcases hshown with hshown | hshown
    · exact hname.ne_nil ((Text.decodeLossy_eq_iff (by decide)).1 hshown)
    · exact hname.ne_dot ((Text.decodeLossy_eq_iff (by decide)).1 hshown)

theorem backslash_not_mem_moduleOfText (s : String) : '\\' ∉ (moduleOfText s).toList := by
  have hmap : '\\' ∉ s.toList.map fun c => if c = '\\' then '/' else c := by
    rw [List.mem_map]
    rintro ⟨c, _, hc⟩
    split at hc
    · cases hc
    · next hne => exact hne hc
  unfold moduleOfText
  rw [String.toList_ofList]
  cases hdrop : Text.dropLeading? ['.', '/'] (s.toList.map fun c => if c = '\\' then '/' else c) with
  | none => exact hmap
  | some rest =>
    intro hmem
    apply hmap
    rw [Text.dropLeading?_eq_some_iff.1 hdrop]
    exact List.mem_append_right _ hmem

/-- A relative name stands for itself if it has no backslash. -/
theorem moduleOfText_relative (ht : t.top.WellNamed) (hc : c ∈ candidatesFor t o) :
    moduleOfText c.relative = c.relative ↔ '\\' ∉ c.relative.toList := by
  constructor
  · intro h
    rw [← h]
    exact backslash_not_mem_moduleOfText _
  · intro h
    have hmap : (c.relative.toList.map fun c => if c = '\\' then '/' else c) = c.relative.toList := by
      refine (List.map_congr_left fun a ha => ?_).trans (List.map_id _)
      have hne : a ≠ '\\' := fun hab => h (hab ▸ ha)
      exact if_neg hne
    unfold moduleOfText
    simp only [hmap, dropLeading?_relative ht hc]
    exact String.ofList_toList

/-- The relative name of a candidate whose names are text is never blank, for it has a dot in it. -/
theorem dot_mem_relative (ht : t.top.WellNamed) (hc : c ∈ candidatesFor t o) (htext : c.IsText o.inputDir) :
    '.' ∈ c.relative.toList := by
  obtain ⟨names, rfl, hs, hroot, hn⟩ := exists_names ht hc
  obtain ⟨texts, rfl⟩ := (isText_candidateAt hroot hn).1 htext
  obtain ⟨name, ext, hlast, _, front, _, rfl, _⟩ := hs.extension
  obtain ⟨s, hmem, hname⟩ := List.mem_map.1 (List.mem_of_getLast? hlast)
  have hdot : '.' ∈ s.toList := by
    refine Text.mem_of_mem_utf8 (b := Path.dot) ?_ (by decide)
    rw [hname]
    simp
  show '.' ∈ (relativeText (texts.map Text.utf8)).toList
  rw [relativeText_utf8, String.toList_intercalate]
  exact mem_intercalate (List.mem_map.2 ⟨s, hmem, rfl⟩) hdot _

end

/-! ## Attaching data to a candidate -/

/-- Data are attached under a text by the call `k` and not replaced later on: by calls, or by a manifest that has the
text for a module. -/
inductive Registered (text : String) (before : List Call) (k : Call) (after : List Call) : Registry → Prop
  | called : Dictionary.Sorted k.data → k.module = moduleOfText text → (∀ l ∈ after, l.module ≠ k.module) →
      Registered text before k after (register (before ++ k :: after)).2
  | loaded {t : FileTree} {p : Path} {content : String} {entries entries' : List ManifestEntry} {e : ManifestEntry}
      {r : Registry} : t.readText p = .ok content → Manifest.ofText? p content = some (entries ++ e :: entries') →
      (Manifest.load t p).1 = .ok r → e.component.module = text → before = entries.map ManifestEntry.call →
      k = e.call → after = entries'.map ManifestEntry.call → (∀ l ∈ after, l.module ≠ k.module) →
      Registered text before k after r

/-- The record has the data of the call, except under the key of the file, and the name of its component. -/
structure Record.Carries (r : Record) (k : Call) : Prop where
  name : ∃ n, k.component.IsCalled n ∧ Dictionary.find? r.fields "name" = some (.string n)
  data : ∀ key value, key ≠ "file" → key ≠ "name" → Dictionary.find? k.data key = some value →
    Dictionary.find? r.fields key = some value

section

variable {t : FileTree} {o : Options} {c d : Candidate} {text : String} {before after : List Call} {k : Call}
  {registry : Registry}

theorem Registered.module_eq (h : Registered text before k after registry) : k.module = moduleOfText text := by
  cases h with
  | called _ hk _ => exact hk
  | loaded _ _ _ hmodule _ hk _ _ =>
    subst hk
    exact congrArg moduleOfText hmodule

theorem Registered.sorted (h : Registered text before k after registry) : Dictionary.Sorted k.data := by
  cases h with
  | called hsorted _ _ => exact hsorted
  | loaded _ hparsed _ _ _ hk _ _ =>
    subst hk
    exact Manifest.sorted_of_ofText? hparsed (by simp)

/-- The registry is that of a run in which the call is the last for its module. -/
theorem Registered.eq (h : Registered text before k after registry) :
    (∀ l ∈ after, l.module ≠ k.module) ∧ registry = Registry.empty.afterAll (before ++ k :: after) := by
  cases h with
  | called _ _ hlast => exact ⟨hlast, by rw [register_eq]⟩
  | @loaded t p content entries entries' e r hread hparsed hload hmodule hbefore hk hafter hlast =>
    subst hk hbefore hafter
    refine ⟨hlast, ?_⟩
    have hall := registerAll_eq (entries ++ e :: entries') .empty []
    rw [Manifest.load, hread] at hload
    simp only [hparsed] at hload
    by_cases hblank : ∃ x ∈ entries ++ e :: entries', x.IsBlank
    · rw [hall.2 hblank] at hload
      cases hload
    · rw [hall.1 fun x hx hb => hblank ⟨x, hx, hb⟩, Except.ok.injEq] at hload
      rw [← hload, List.map_append, List.map_cons]

theorem Registered.read (h : Registered text before k after registry) (module : String) :
    registry.read module = if module = k.module then some k.note else (register (before ++ after)).2.read module := by
  obtain ⟨hlast, rfl⟩ := h.eq
  rw [register_eq]
  split
  · next hm =>
    rw [hm]
    exact read_afterAll_of_last hlast _
  · next hm => exact read_afterAll_without hm _

/-- The record of a candidate that is looked up under the module of a call. -/
theorem carries_of_read (hd : Dictionary.Sorted k.data) {module : String}
    (hm : moduleOfPath? o.inputDir c.path = some module) (hr : registry.read module = some k.note) :
    (outcomeOf t registry o c).record.Carries k ∧ (outcomeOf t registry o c).status ≠ .failed := by
  let s : Sources := ⟨c.relative, extract (fun _ => textOf (t.bytesAt c.path)) c.path,
    .ok (some (k.component, ⟨k.data, hd⟩))⟩
  have hs : outcomeOf t registry o c = s.outcome := by
    simp only [outcomeOf, outcomeFrom, hm, Option.isSome_some, if_true, Option.bind_some, hr]
    rfl
  have hfield := s.record_merges.field
  have hattached : ∀ key, s.field? key = (attachedField? (k.component, ⟨k.data, hd⟩) key).or
      (s.doc?.bind (·.field? key)) := fun key => rfl
  rw [hs]
  refine ⟨⟨⟨k.component.derivedName, k.component.isCalled_derivedName.1, ?_⟩, ?_⟩, ?_⟩
  · rw [hfield "name" (by decide), hattached]
    rfl
  · intro key value hfile hname hvalue
    rw [hfield key hfile, hattached, attachedField?, if_neg hname, hvalue]
    rfl
  · rw [ne_eq, s.status_eq_failed_iff]
    rintro ⟨_, hnone⟩
    cases hnone

/-- The call comes into the record of the candidate that is looked up under its module. -/
theorem Registered.hit (h : Registered text before k after registry) (ht : t.top.WellNamed)
    (hd : d ∈ candidatesFor t o) (htext : d.IsText o.inputDir) (hm : d.relative = k.module) :
    d ∈ keptFor t registry o ∧ (outcomeOf t registry o d).record.Carries k := by
  have hread : registry.read d.relative = some k.note := by rw [h.read, if_pos hm]
  obtain ⟨hcarries, hstatus⟩ := carries_of_read (t := t) h.sorted ((moduleOfPath?_eq_some_iff ht hd).2 ⟨htext, rfl⟩) hread
  refine ⟨List.mem_filter.2 ⟨hd, ?_⟩, hcarries⟩
  have hne : ((outcomeOf t registry o d).status == .failed) = false := beq_eq_false_iff_ne.2 hstatus
  rw [hne, Bool.and_false, Bool.not_false]

/-- Nothing comes of it for any other candidate. -/
theorem Registered.miss (h : Registered text before k after registry) (ht : t.top.WellNamed)
    (hd : d ∈ candidatesFor t o) (hm : ¬(d.IsText o.inputDir ∧ d.relative = k.module)) :
    outcomeOf t registry o d = outcomeOf t (register (before ++ after)).2 o d := by
  have hlookup : (moduleOfPath? o.inputDir d.path).bind registry.read =
      (moduleOfPath? o.inputDir d.path).bind (register (before ++ after)).2.read := by
    cases hmodule : moduleOfPath? o.inputDir d.path with
    | none => rfl
    | some module =>
      obtain ⟨htext, rfl⟩ := (moduleOfPath?_eq_some_iff ht hd).1 hmodule
      rw [Option.bind_some, Option.bind_some, h.read, if_neg fun hk => hm ⟨htext, hk⟩]
  rw [outcomeOf, hlookup, outcomeOf]

/-- A candidate whose names are text is looked up under its relative name. Data attached under that name come into its
record and into no other, if there is no backslash in the name. Otherwise they come, as the catalog has it, into the
record of the candidate that has slashes in place of the backslashes, less a `./` that this makes at the start, and the
candidate itself goes without them. -/
theorem annotation_of_candidate (ht : t.top.WellNamed) (hc : c ∈ candidatesFor t o) (htext : c.IsText o.inputDir)
    (h : Registered c.relative before k after registry) :
    moduleOfPath? o.inputDir c.path = some c.relative ∧
    (k.module = c.relative ↔ '\\' ∉ c.relative.toList) ∧
    (∀ e : ManifestEntry, e.component.module = c.relative → ¬e.IsBlank) ∧
    (∀ faults report, (generate t registry o faults).result = .ok report →
      OnlyWritten t (generate t registry o faults).tree o.output
        (catalogText ((keptFor t registry o).map fun d => (outcomeOf t registry o d).record))) ∧
    ('\\' ∉ c.relative.toList →
      c ∈ keptFor t registry o ∧ (outcomeOf t registry o c).record.Carries k ∧
      ∀ d ∈ candidatesFor t o, d ≠ c → outcomeOf t registry o d = outcomeOf t (register (before ++ after)).2 o d) ∧
    ('\\' ∈ c.relative.toList →
      outcomeOf t registry o c = outcomeOf t (register (before ++ after)).2 o c ∧
      ∀ d ∈ candidatesFor t o,
        (d.IsText o.inputDir ∧ d.relative = k.module →
          d ∈ keptFor t registry o ∧ (outcomeOf t registry o d).record.Carries k) ∧
        (¬(d.IsText o.inputDir ∧ d.relative = k.module) →
          outcomeOf t registry o d = outcomeOf t (register (before ++ after)).2 o d)) := by
  have hmodule : k.module = c.relative ↔ '\\' ∉ c.relative.toList := by
    rw [h.module_eq]
    exact moduleOfText_relative ht hc
  refine ⟨(moduleOfPath?_eq_some_iff ht hc).2 ⟨htext, rfl⟩, hmodule, ?_, ?_, ?_, ?_⟩
  · intro e he hblank
    have hdot : '.' ∈ e.component.module.toList := he ▸ dot_mem_relative ht hc htext
    exact absurd (hblank '.' hdot) (by decide)
  · intro faults report hok
    rw [← keptRecords_eq]
    exact (generate_ok hok).2
  · intro hplain
    have hk := hmodule.2 hplain
    obtain ⟨hkept, hcarries⟩ := h.hit ht hc htext hk.symm
    refine ⟨hkept, hcarries, fun d hd hne => h.miss ht hd ?_⟩
    rintro ⟨htext', hrelative⟩
    exact hne (eq_of_relative_eq ht hc hd htext htext' (hrelative.trans hk))
  · intro hslash
    refine ⟨h.miss ht hc ?_, fun d hd => ⟨fun ⟨htext', hrelative⟩ => h.hit ht hd htext' hrelative, h.miss ht hd⟩⟩
    rintro ⟨_, hrelative⟩
    exact hmodule.1 hrelative.symm hslash

end

/-- A decorated component, its module as somebody spells it. -/
def tierCall (module : String) : Call := .decorated [("tier", .int 1)] ⟨moduleOfText module, none, some "A"⟩

def candidateIn (dir file : String) : Candidate := ⟨(Path.ofString dir).join (.ofString file), file⟩

theorem tier_attached :
    let registry := (register [tierCall "./A.jsx"]).2
    (outcomeOf (flatTree mixedFiles) registry flatOptions (candidateIn "." "A.jsx")).record.Carries (tierCall "A.jsx") ∧
    ∀ d ∈ candidatesFor (flatTree mixedFiles) flatOptions, d ≠ candidateIn "." "A.jsx" →
      outcomeOf (flatTree mixedFiles) registry flatOptions d =
        outcomeOf (flatTree mixedFiles) Registry.empty flatOptions d := by
  have ht : (flatTree mixedFiles).top.WellNamed :=
    wellNamed_flatTree (by decide +kernel) (by decide +kernel) (by simp [mixedFiles])
  have hc : candidateIn "." "A.jsx" ∈ candidatesFor (flatTree mixedFiles) flatOptions :=
    (perm_candidatesFor _ _).mem_iff.2 (by decide +kernel)
  have htext : (candidateIn "." "A.jsx").IsText flatOptions.inputDir := ⟨["A.jsx"], by decide +kernel⟩
  have hregistered : Registered "A.jsx" [] (tierCall "A.jsx") [] (register [tierCall "./A.jsx"]).2 :=
    .called (List.pairwise_singleton _ _) (by decide +kernel) (by simp)
  obtain ⟨_, _, _, _, hplain, _⟩ := annotation_of_candidate ht hc htext hregistered
  obtain ⟨_, hcarries, hothers⟩ := hplain (by decide +kernel)
  exact ⟨hcarries, hothers⟩

def brokenFile : Entry := .file [0xff] 0o644

/-- A file with a backslash in its name beside one in a directory. -/
def slashTree : FileTree where
  top := .directory directoryMode
    [(Text.utf8 "a\\b.jsx", brokenFile), (Text.utf8 "a", .directory directoryMode [(Text.utf8 "b.jsx", brokenFile)])]

def slashOptions : Options := { flatOptions with recursive := true }

theorem tier_misplaced :
    let registry := (register [tierCall "a\\b.jsx"]).2
    let tierOf (c : Candidate) :=
      (Dictionary.find? (outcomeOf slashTree registry slashOptions c).record.fields "tier").isSome
    candidateIn "." "a\\b.jsx" ∈ candidatesFor slashTree slashOptions ∧
    candidateIn "." "a/b.jsx" ∈ candidatesFor slashTree slashOptions ∧
    (candidateIn "." "a\\b.jsx").IsText slashOptions.inputDir ∧
    Registered "a\\b.jsx" [] (tierCall "a\\b.jsx") [] registry ∧
    tierOf (candidateIn "." "a\\b.jsx") = false ∧ tierOf (candidateIn "." "a/b.jsx") = true := by
  refine ⟨(perm_candidatesFor _ _).mem_iff.2 (by decide +kernel), (perm_candidatesFor _ _).mem_iff.2 (by decide +kernel),
    ⟨["a\\b.jsx"], by decide +kernel⟩, .called (List.pairwise_singleton _ _) (by decide +kernel) (by simp),
    by decide +kernel, by decide +kernel⟩

end ReactCatalog
