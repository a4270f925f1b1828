import Mathlib.Data.Finset.Card
import ReactCatalog.Catalog.Manifest
import ReactCatalog.Proofs.Decoding
import ReactCatalog.Proofs.Trimming
import ReactCatalog.Proofs.Utf8

/-!
# Runs of registrations

Data are attached to components one after the other, at once or by a decorator that is used again and again (`Call`).
After a run that starts with nothing a registry has of each module what the last call for it says (`LastOf`), and of no
other module anything; calls for different modules may change places. A manifest is such a run over all its entries, or
no run at all if one of them has a blank module (`registry_of_calls`).
-/

namespace ReactCatalog

/-! ## Calls -/

/-- Data attached to a component, at once or by a decorator with these data. -/
inductive Call where
  | attached (data : Dictionary Json) (c : ComponentRef)
  | decorated (data : Dictionary Json) (c : ComponentRef)

namespace Call

def data : Call → Dictionary Json
  | attached data _ | decorated data _ => data

def component : Call → ComponentRef
  | attached _ c | decorated _ c => c

def module (k : Call) : String := k.component.module

def perform : Call → StateM Registry ComponentRef
  | attached data c => Registry.withDoc data c
  | decorated data c => Registry.doc data c

end Call

/-- What calls hand back, and the registry that they make from nothing. -/
def register (calls : List Call) : List ComponentRef × Registry := (calls.mapM Call.perform).run .empty

/-- How a component is called: the first of its names that is not empty. -/
inductive ComponentRef.IsCalled (c : ComponentRef) : String → Prop
  | displayed {n : String} : c.displayName = some n → n ≠ "" → IsCalled c n
  | defined {n : String} : c.displayName.getD "" = "" → c.name = some n → n ≠ "" → IsCalled c n
  | unnamed : c.displayName.getD "" = "" → c.name.getD "" = "" → IsCalled c "UnnamedComponent"

/-- What a registry holds for a call: the name of the component, and the data under all other keys. -/
structure Call.Says (k : Call) (note : Dictionary Json) : Prop where
  name : ∃ n, k.component.IsCalled n ∧ n ≠ "" ∧ Dictionary.find? note "name" = some (.string n)
  other : ∀ key ≠ "name", Dictionary.find? note key = Dictionary.find? k.data key
  once : Dictionary.Sorted k.data → Dictionary.Sorted note

/-- What there is of a module after calls: what the last call for it says, or nothing if there is none. -/
inductive LastOf (calls : List Call) (module : String) : Option (Dictionary Json) → Prop
  | nothing : (∀ k ∈ calls, k.module ≠ module) → LastOf calls module none
  | said {before after : List Call} {k : Call} {note : Dictionary Json} : calls = before ++ k :: after →
      k.module = module → (∀ l ∈ after, l.module ≠ module) → k.Says note → LastOf calls module (some note)

/-! ## Names -/

theorem filter_nonempty_eq_none_iff (x : Option String) :
    (x.filter fun n => !n.isEmpty) = none ↔ x.getD "" = "" := by
  cases x with
  | none => simp
  | some n => simp [Option.filter]

theorem filter_nonempty_eq_some_iff (x : Option String) (n : String) :
    (x.filter fun n => !n.isEmpty) = some n ↔ x = some n ∧ n ≠ "" := by
  simp [Option.filter_eq_some_iff]

/-- A component is called by its derived name, which is never empty. -/
theorem ComponentRef.isCalled_derivedName (c : ComponentRef) : c.IsCalled c.derivedName ∧ c.derivedName ≠ "" := by
  unfold derivedName
  cases hd : c.displayName.filter fun n => !n.isEmpty with
  | some n =>
    obtain ⟨hn, hne⟩ := (filter_nonempty_eq_some_iff _ _).1 hd
    exact ⟨.displayed hn hne, hne⟩
  | none =>
    have hempty := (filter_nonempty_eq_none_iff _).1 hd
    cases hc : c.name.filter fun n => !n.isEmpty with
    | some n =>
      obtain ⟨hn, hne⟩ := (filter_nonempty_eq_some_iff _ _).1 hc
      exact ⟨.defined hempty hn hne, hne⟩
    | none => exact ⟨.unnamed hempty ((filter_nonempty_eq_none_iff _).1 hc), by decide⟩

/-- What is put into a registry by a call. -/
def Call.note (k : Call) : Dictionary Json := annotationOf k.component k.data

theorem Call.says_note (k : Call) : k.Says k.note where
  name := by
    obtain ⟨hcalled, hne⟩ := k.component.isCalled_derivedName
    exact ⟨_, hcalled, hne, Dictionary.find?_insert_self _ _ _⟩
  other _ hkey := Dictionary.find?_insert_of_ne hkey _ _
  once h := h.insert _ _

/-! ## One call -/

/-- The registry after a call. -/
def Registry.after (r : Registry) (k : Call) : Registry := r.attach k.data k.component

theorem run_perform (k : Call) (r : Registry) : k.perform.run r = (k.component, r.after k) := by
  cases k <;> rfl

theorem read_after (r : Registry) (k : Call) (module : String) :
    (r.after k).read module = if module = k.module then some k.note else r.read module :=
  Dictionary.find?_insert _ _ _ _

theorem sorted_after {r : Registry} (h : Dictionary.Sorted r.annotations) (k : Call) :
    Dictionary.Sorted (r.after k).annotations :=
  h.insert _ _

theorem after_comm {r : Registry} (h : Dictionary.Sorted r.annotations) {k l : Call} (hne : k.module ≠ l.module) :
    (r.after k).after l = (r.after l).after k :=
  congrArg Registry.mk (h.insert_comm (Ne.symm hne) l.note k.note)

/-! ## A run of calls -/

/-- The registry after calls, one after the other. -/
def Registry.afterAll (r : Registry) (calls : List Call) : Registry := calls.foldl after r

theorem run_mapM_perform (calls : List Call) (r : Registry) :
    (calls.mapM Call.perform).run r = (calls.map Call.component, r.afterAll calls) := by
  induction calls generalizing r with
  | nil => rfl
  | cons k rest ih =>
    rw [List.mapM_cons, StateT.run_bind, run_perform]
    simp only [StateT.run_bind, ih]
    rfl

theorem register_eq (calls : List Call) :
    register calls = (calls.map Call.component, Registry.empty.afterAll calls) :=
  run_mapM_perform calls .empty

theorem read_afterAll_of_absent {calls : List Call} {module : String} (h : ∀ k ∈ calls, k.module ≠ module)
    (r : Registry) : (r.afterAll calls).read module = r.read module := by
  induction calls generalizing r with
  | nil => rfl
  | cons k rest ih =>
    obtain ⟨hk, hrest⟩ := List.forall_mem_cons.1 h
    show ((r.after k).afterAll rest).read module = r.read module
    rw [ih hrest, read_after, if_neg (Ne.symm hk)]

/-- The last call for a module counts. -/
theorem read_afterAll_of_last {before after : List Call} {k : Call} (h : ∀ l ∈ after, l.module ≠ k.module)
    (r : Registry) : (r.afterAll (before ++ k :: after)).read k.module = some k.note := by
  have hsplit : r.afterAll (before ++ k :: after) = ((r.afterAll before).after k).afterAll after := by
    simp [Registry.afterAll]
  rw [hsplit, read_afterAll_of_absent h, read_after, if_pos rfl]

theorem read_afterAll_congr {r r' : Registry} {module : String} (h : r.read module = r'.read module)
    (calls : List Call) : (r.afterAll calls).read module = (r'.afterAll calls).read module := by
  induction calls generalizing r r' with
  | nil => exact h
  | cons k rest ih =>
    refine ih ?_
    rw [read_after, read_after, h]

/-- A call makes no difference to other modules. -/
theorem read_afterAll_without {before after : List Call} {k : Call} {module : String} (hne : module ≠ k.module)
    (r : Registry) : (r.afterAll (before ++ k :: after)).read module = (r.afterAll (before ++ after)).read module := by
  unfold Registry.afterAll
  rw [List.foldl_append, List.foldl_append, List.foldl_cons]
  refine read_afterAll_congr ?_ after
  rw [read_after, if_neg hne]

/-- If there is a call for a module, there is a last one. -/
theorem exists_last {calls : List Call} {module : String} (h : ∃ k ∈ calls, k.module = module) :
    ∃ before k after, calls = before ++ k :: after ∧ k.module = module ∧ ∀ l ∈ after, l.module ≠ module := by
  induction calls with
  | nil => simp at h
  | cons k rest ih =>
    by_cases hrest : ∃ l ∈ rest, l.module = module
    · obtain ⟨before, l, after, rfl, hl, hafter⟩ := ih hrest
      exact ⟨k :: before, l, after, rfl, hl, hafter⟩
    · have hk : k.module = module := by
        obtain ⟨l, hl, hlm⟩ := h
        rcases List.mem_cons.1 hl with rfl | hl
        · exact hlm
        · exact absurd ⟨l, hl, hlm⟩ hrest
      exact ⟨[], k, rest, rfl, hk, fun l hl hlm => hrest ⟨l, hl, hlm⟩⟩

theorem lastOf_read (calls : List Call) (module : String) :
    LastOf calls module ((Registry.empty.afterAll calls).read module) := by
  by_cases h : ∃ k ∈ calls, k.module = module
  · obtain ⟨before, k, after, rfl, rfl, hafter⟩ := exists_last h
    rw [read_afterAll_of_last hafter]
    exact .said rfl rfl hafter k.says_note
  · have habsent : ∀ k ∈ calls, k.module ≠ module := fun k hk hkm => h ⟨k, hk, hkm⟩
    rw [read_afterAll_of_absent habsent]
    exact .nothing habsent

theorem sorted_afterAll {r : Registry} (h : Dictionary.Sorted r.annotations) (calls : List Call) :
    Dictionary.Sorted (r.afterAll calls).annotations := by
  induction calls generalizing r with
  | nil => exact h
  | cons k rest ih => exact ih (sorted_after h k)

theorem sorted_empty : Dictionary.Sorted Registry.empty.annotations := List.Pairwise.nil

/-- The modules of a registry are those of the calls. -/
theorem mem_keys_afterAll (calls : List Call) (module : String) :
    module ∈ Dictionary.keys (Registry.empty.afterAll calls).annotations ↔ module ∈ calls.map Call.module := by
  rw [← not_iff_not, ← Dictionary.find?_eq_none_iff, List.mem_map]
  show (Registry.empty.afterAll calls).read module = none ↔ _
  constructor
  · rintro hnone ⟨k, hk, hkm⟩
    obtain ⟨before, l, after, rfl, rfl, hafter⟩ := exists_last ⟨k, hk, hkm⟩
    rw [read_afterAll_of_last hafter] at hnone
    cases hnone
  · intro h
    rw [read_afterAll_of_absent fun k hk hkm => h ⟨k, hk, hkm⟩]
    rfl

theorem size_afterAll (calls : List Call) :
    (Registry.empty.afterAll calls).size = (calls.map Call.module).toFinset.card := by
  have hkeys : (Dictionary.keys (Registry.empty.afterAll calls).annotations).toFinset =
      (calls.map Call.module).toFinset := by
    ext module
    rw [List.mem_toFinset, List.mem_toFinset, mem_keys_afterAll]
  rw [← hkeys, List.toFinset_card_of_nodup (sorted_afterAll sorted_empty calls).nodup_keys, Registry.size,
    Dictionary.keys, List.length_map]

theorem afterAll_swap (before after : List Call) {k l : Call} (hne : k.module ≠ l.module) :
    Registry.empty.afterAll (before ++ k :: l :: after) = Registry.empty.afterAll (before ++ l :: k :: after) := by
  have hsplit : ∀ a b, Registry.empty.afterAll (before ++ a :: b :: after) =
      (((Registry.empty.afterAll before).after a).after b).afterAll after := by
    intro a b
    simp [Registry.afterAll]
  rw [hsplit, hsplit, after_comm (sorted_afterAll sorted_empty before) hne]

/-! ## Manifests -/

namespace ManifestEntry

/-- The call that an entry of a manifest stands for. -/
def call (e : ManifestEntry) : Call :=
  .attached e.data { e.component with module := moduleOfText e.component.module }

/-- Nothing but blanks stands for the module. -/
def IsBlank (e : ManifestEntry) : Prop := ∀ c ∈ e.component.module.toList, Text.isBlank c = true

end ManifestEntry

namespace Manifest

theorem sorted_of_entry {surplus : Decoder.Surplus} {n : Nat} {v : Written} {e : ManifestEntry}
    (h : entry surplus n v = some e) : Dictionary.Sorted e.data := by
  unfold entry at h
  split at h
  · cases h
  · obtain ⟨slots, _, h⟩ := Option.bind_eq_some_iff.1 h
    split at h
    · obtain ⟨module, _, h⟩ := Option.bind_eq_some_iff.1 h
      obtain ⟨displayName, _, h⟩ := Option.bind_eq_some_iff.1 h
      obtain ⟨name, _, h⟩ := Option.bind_eq_some_iff.1 h
      obtain ⟨data, hdata, h⟩ := Option.bind_eq_some_iff.1 h
      cases h
      unfold Decoder.Slot.withDefault at hdata
      split at hdata
      · exact sorted_of_dictionary hdata
      · cases hdata
        exact List.Pairwise.nil
    · cases h

theorem exists_of_mem_entries {surplus : Decoder.Surplus} {n : Nat} {v : Written} {found : List ManifestEntry}
    (h : entries surplus n v = some found) {e : ManifestEntry} (he : e ∈ found) :
    ∃ m w, entry surplus m w = some e := by
  unfold entries at h
  split at h
  · cases h
  · obtain ⟨slots, _, h⟩ := Option.bind_eq_some_iff.1 h
    split at h
    · unfold Decoder.Slot.withDefault at h
      split at h
      · unfold Decoder.list at h
        split at h
        · obtain ⟨w, _, hw⟩ := exists_of_mem_mapM h he
          exact ⟨_, w, hw⟩
        · cases h
      · cases h
        cases he
    · cases h

/-- The data of an entry are a dictionary, whichever way the manifest is written. -/
theorem sorted_of_ofText? {p : Path} {text : String} {found : List ManifestEntry}
    (h : ofText? p text = some found) {e : ManifestEntry} (he : e ∈ found) : Dictionary.Sorted e.data := by
  have hentries : ∃ surplus n v, entries surplus n v = some found := by
    unfold ofText? at h
    split at h
    all_goals
      obtain ⟨v, _, hv⟩ := Option.bind_eq_some_iff.1 h
      exact ⟨_, _, v, hv⟩
  obtain ⟨surplus, n, v, hv⟩ := hentries
  obtain ⟨m, w, hw⟩ := exists_of_mem_entries hv he
  exact sorted_of_entry hw

end Manifest

/-- Either all entries are registered, or nothing is. -/
theorem registerAll_eq (entries : List ManifestEntry) (r : Registry) (events : List Event) :
    ((∀ e ∈ entries, ¬e.IsBlank) →
      (Manifest.registerAll entries r events).1 = .ok (r.afterAll (entries.map ManifestEntry.call))) ∧
    ((∃ e ∈ entries, e.IsBlank) → (Manifest.registerAll entries r events).1 = .error .emptyModule) := by
  induction entries generalizing r events with
  | nil => exact ⟨fun _ => rfl, fun ⟨_, hmem, _⟩ => absurd hmem List.not_mem_nil⟩
  | cons e rest ih =>
    rw [Manifest.registerAll]
    by_cases hblank : (Text.trim e.component.module).isEmpty = true
    · have he : e.IsBlank := (trim_isEmpty_iff _).1 hblank
      rw [if_pos hblank]
      exact ⟨fun h => absurd he (h e List.mem_cons_self), fun _ => rfl⟩
    · have he : ¬e.IsBlank := fun h => hblank ((trim_isEmpty_iff _).2 h)
      rw [if_neg hblank]
      obtain ⟨hall, hsome⟩ := ih (r.after e.call)
        (events ++ [.annotationRegistered e.call.module e.call.component.derivedName])
      constructor
      · intro h
        exact hall fun x hx => h x (List.mem_cons_of_mem _ hx)
      · rintro ⟨x, hx, hxblank⟩
        rcases List.mem_cons.1 hx with rfl | hx
        · exact absurd hxblank he
        · exact hsome ⟨x, hx, hxblank⟩

/-- After calls a registry has what the last call for each module says; every call hands back its component, and calls
for different modules may change places. A manifest is read as the calls for its entries, if no module is blank. -/
theorem registry_of_calls :
    (∀ calls : List Call, (register calls).1 = calls.map Call.component ∧
      (∀ module, LastOf calls module ((register calls).2.read module)) ∧
      (register calls).2.size = (calls.map Call.module).toFinset.card) ∧
    (∀ (before after : List Call) (k l : Call), k.module ≠ l.module →
      (register (before ++ k :: l :: after)).2 = (register (before ++ l :: k :: after)).2) ∧
    ∀ (t : FileTree) (p : Path) (text : String) (entries : List ManifestEntry),
      t.readText p = .ok text → Manifest.ofText? p text = some entries →
      ((∀ e ∈ entries, ¬e.IsBlank) →
        (Manifest.load t p).1 = .ok (register (entries.map ManifestEntry.call)).2) ∧
      ((∃ e ∈ entries, e.IsBlank) → (Manifest.load t p).1 = .error .emptyModule) := by
  simp only [register_eq]
  refine ⟨fun calls => ⟨trivial, lastOf_read calls, size_afterAll calls⟩,
    fun before after k l hne => afterAll_swap before after hne, ?_⟩
  intro t p text entries htext hentries
  rw [Manifest.load, htext]
  simp only [hentries]
  exact registerAll_eq entries .empty []

/-- One decorator for two components, and other data for the first of them, whose module is spelled differently. -/
def buttonCalls : List Call :=
  [.decorated [("name", .string "Old"), ("tier", .int 1)] ⟨"Button.jsx", some "", some "Button"⟩,
    .decorated [("name", .string "Old"), ("tier", .int 1)] ⟨"Card.jsx", some "Card", none⟩,
    .attached [("kind", .string "input")] ⟨moduleOfText ".\\Button.jsx", none, none⟩]

/-- A manifest with a blank module after one that is not. -/
def blankManifest : String := "\x7b\"component\": [\x7b\"module\": \"A.jsx\"\x7d, \x7b\"module\": \" \"\x7d]\x7d"

def blankTree : FileTree where
  top := .directory directoryMode [(Text.utf8 "m.json", .file (Text.utf8 blankManifest) 0o644)]

theorem button_registered :
    (register buttonCalls).1 = buttonCalls.map Call.component ∧
    LastOf buttonCalls "Button.jsx" ((register buttonCalls).2.read "Button.jsx") ∧
    (register buttonCalls).2.size = 2 ∧
    (register (buttonCalls.take 2)).2 = (register (buttonCalls.take 2).reverse).2 ∧
    (Manifest.load blankTree (.ofString "m.json")).1 = .error .emptyModule := by
  obtain ⟨hcalls, hswap, hload⟩ := registry_of_calls
  obtain ⟨hreturned, hlast, hsize⟩ := hcalls buttonCalls
  refine ⟨hreturned, hlast _, hsize.trans (by decide +kernel), hswap [] [] _ _ (by decide +kernel), ?_⟩
  have hread : blankTree.readText (.ofString "m.json") = .ok blankManifest := by
    have hdecoded : Text.decode? (Text.utf8 blankManifest) = some blankManifest := Text.decode?_eq_some_iff.2 rfl
    unfold FileTree.readText
    rw [show blankTree.find (.ofString "m.json") = .ok (.file (Text.utf8 blankManifest) 0o644) from rfl]
    simp only [bind, Except.bind, hdecoded]
    rfl
  have hparsed : (Manifest.ofText? (.ofString "m.json") blankManifest).map (List.map fun e => e.component.module) =
      some ["A.jsx", " "] := by
    decide +kernel
  obtain ⟨entries, hentries, hmodules⟩ := Option.map_eq_some_iff.1 hparsed
  refine (hload _ _ _ _ hread hentries).2 ?_
  have hblank : " " ∈ entries.map fun e => e.component.module := by
    rw [hmodules]
    simp
  obtain ⟨e, he, hmodule⟩ := List.mem_map.1 hblank
  refine ⟨e, he, ?_⟩
  unfold ManifestEntry.IsBlank
  rw [hmodule]
  exact List.forall_mem_singleton.2 rfl

end ReactCatalog
