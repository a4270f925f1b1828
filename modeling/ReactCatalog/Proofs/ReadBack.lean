import ReactCatalog.Catalog.Record
import ReactCatalog.Component.Decode
import ReactCatalog.Proofs.Decoding

/-!
# Documentation read back from its text

Documentation and records are written as JSON, compactly or over lines, with what is absent left out. Reading gives back
what was written: nothing that is left out stands for anything else, as long as no type has null for a value, which would
be taken for no value (`TypeDoc.Definite`). Numbers have to be whole and the text must not nest too deep. What was read
from a text is therefore read again from its own, and different data have no text in common (`documents_read_back`).
-/

namespace ReactCatalog

open Decoder

/-! ## Types -/

namespace TypeDoc

/-- Every value is sorted and none is null, at any depth of elements. -/
inductive Definite : TypeDoc → Prop
  | mk {name : String} {value : Option Json} {raw : Option String} {elements : Option (List TypeDoc)} :
      (∀ v, value = some v → v.Ordered ∧ v ≠ .null) → (∀ es, elements = some es → ∀ e ∈ es, Definite e) →
      Definite (.mk name value raw elements)

/-- The parts under their keys, present or not. -/
def parts : TypeDoc → List (String × Option Json)
  | .mk name value raw elements =>
    [("name", some (.string name)), ("value", value.map id), ("raw", raw.map .string),
      ("elements", elements.map fun es => .array (es.map toJson))]

theorem toJsons_eq (es : List TypeDoc) : toJsons es = es.map toJson := by
  induction es with
  | nil => rfl
  | cons e rest ih => rw [toJsons, ih, List.map_cons]

theorem toJson_eq (t : TypeDoc) : t.toJson = .object (Json.presentMembers t.parts) := by
  obtain ⟨name, value, raw, elements⟩ := t
  cases elements with
  | none => cases value <;> cases raw <;> rfl
  | some es => simp [toJson, parts, toJsons_eq]

theorem toJson_ne_null (t : TypeDoc) : t.toJson ≠ .null := by
  rw [toJson_eq]
  nofun

/-- A type made of its fields. -/
def ofSlots (n : Nat) : List Slot → Option TypeDoc
  | [name, value, raw, elements] => do
    pure (.mk (← name.required (string n)) (← value.optional (optional Decoder.value n))
      (← raw.optional (optional string n)) (← elements.optional (optional (list decode) n)))
  | _ => none

/-- A type is a record, with a list of types in one of its fields. -/
theorem decode_eq : decode = record ["name", "value", "raw", "elements"] ofSlots := by
  funext n w
  cases n with
  | zero => rfl
  | succ n =>
    rw [decode, record]
    refine congrArg (Option.bind _) (funext fun slots => ?_)
    rcases slots with _ | ⟨name, _ | ⟨value, _ | ⟨raw, _ | ⟨elements, _ | ⟨other, more⟩⟩⟩⟩⟩
    case cons.cons.cons.cons.nil =>
      -- the two sides read the elements in the same way, which shows once these are known
      cases elements with
      | present v => cases v <;> cases n <;> rfl
      | absent => rfl
      | cut => rfl
    all_goals rfl

theorem inverts_decode (n : Nat) : Inverts decode toJson Definite n := by
  induction n using Nat.strongRecOn with
  | _ n ih =>
    have helements : ∀ m, n = m + 1 →
        Inverts (list decode) (fun es => .array (es.map toJson)) (fun es => ∀ e ∈ es, Definite e) m :=
      fun m hm => .list fun k hk => ih k (by omega)
    rw [decode_eq]
    refine .record (by decide) (fun ⟨_, _, _, _⟩ => rfl) toJson_eq ?_ ?_
    · intro m t hm ht hdepth
      cases ht with
      | @mk name value raw elements hvalue hes =>
        simp only [parts, List.forall_mem_cons] at hdepth
        obtain ⟨_, hvdepth, hrdepth, hedepth, _⟩ := hdepth
        have hv := (inverts_value m).optional_ofPart hvalue hvdepth
        have hr := (inverts_string m).optional_ofPart (fun s _ => ⟨trivial, nofun⟩) hrdepth
        have he := (helements m hm).optional_ofPart (fun es h => ⟨hes es h, nofun⟩) hedepth
        simp only [parts, List.map_cons, List.map_nil, ofSlots, hv, hr, he]
        rfl
    · intro m slots t hm hslots hmake
      unfold ofSlots at hmake
      split at hmake
      · simp only [List.forall_mem_cons] at hslots
        obtain ⟨_, hvalue, hraw, helems, _⟩ := hslots
        obtain ⟨name, _, hmake⟩ := Option.bind_eq_some_iff.1 hmake
        obtain ⟨value, hv, hmake⟩ := Option.bind_eq_some_iff.1 hmake
        obtain ⟨raw, hr, hmake⟩ := Option.bind_eq_some_iff.1 hmake
        obtain ⟨elements, he, hmake⟩ := Option.bind_eq_some_iff.1 hmake
        cases hmake
        obtain ⟨hvok, hvfits⟩ := (inverts_value m).optional hvalue hv
        obtain ⟨_, hrfits⟩ := (inverts_string m).optional hraw hr
        obtain ⟨heok, hefits⟩ := (helements m hm).optional helems he
        refine ⟨.mk hvok fun es hes => (heok es hes).1, ?_⟩
        simp only [parts, List.forall_mem_cons]
        exact ⟨(Json.fits_string m _).some, hvfits, hrfits, hefits, nofun⟩
      · cases hmake

end TypeDoc

/-! ## Properties and methods -/

namespace DefaultValue

def parts (d : DefaultValue) : List (String × Option Json) :=
  [("value", some (.string d.value)), ("computed", some (.bool d.computed))]

theorem toJson_eq (d : DefaultValue) : d.toJson = .object (Json.presentMembers d.parts) := rfl

theorem inverts_decode (n : Nat) : Inverts decode toJson (fun _ => True) n := by
  refine .record (by decide) (fun _ => rfl) toJson_eq ?_ ?_
  · rintro m d rfl _ _
    rfl
  · rintro m slots d rfl _ _
    refine ⟨trivial, ?_⟩
    simp only [parts, List.forall_mem_cons]
    exact ⟨(Json.fits_string m _).some, (Json.fits_bool m _).some, nofun⟩

end DefaultValue

namespace PropDoc

/-- The types are definite. -/
structure Definite (p : PropDoc) : Prop where
  type : ∀ t, p.type = some t → t.Definite
  tsType : ∀ t, p.tsType = some t → t.Definite

def parts (p : PropDoc) : List (String × Option Json) :=
  [("type", p.type.map TypeDoc.toJson), ("tsType", p.tsType.map TypeDoc.toJson), ("required", some (.bool p.required)),
    ("defaultValue", p.defaultValue.map DefaultValue.toJson), ("description", some (.string p.description))]

theorem toJson_eq (p : PropDoc) : p.toJson = .object (Json.presentMembers p.parts) := by
  unfold toJson parts
  cases p.type <;> cases p.tsType <;> cases p.defaultValue <;> rfl

theorem inverts_decode (n : Nat) : Inverts decode toJson Definite n := by
  refine .record (by decide) (fun _ => rfl) toJson_eq ?_ ?_
  · rintro m p rfl hp hdepth
    simp only [parts, List.forall_mem_cons] at hdepth
    obtain ⟨htype, htsType, _, hdefault, _⟩ := hdepth
    have ht := (TypeDoc.inverts_decode m).optional_ofPart (fun t h => ⟨hp.type t h, t.toJson_ne_null⟩) htype
    have hts := (TypeDoc.inverts_decode m).optional_ofPart (fun t h => ⟨hp.tsType t h, t.toJson_ne_null⟩) htsType
    have hd := (DefaultValue.inverts_decode m).optional_ofPart (fun d _ => ⟨trivial, nofun⟩) hdefault
    simp only [parts, List.map_cons, List.map_nil, ht, hts, hd]
    rfl
  · rintro m slots p rfl hslots hmake
    split at hmake
    · simp only [List.forall_mem_cons] at hslots
      obtain ⟨htype, htsType, _, hdefault, _⟩ := hslots
      obtain ⟨type, ht, hmake⟩ := Option.bind_eq_some_iff.1 hmake
      obtain ⟨tsType, hts, hmake⟩ := Option.bind_eq_some_iff.1 hmake
      obtain ⟨required, _, hmake⟩ := Option.bind_eq_some_iff.1 hmake
      obtain ⟨defaultValue, hd, hmake⟩ := Option.bind_eq_some_iff.1 hmake
      obtain ⟨description, _, hmake⟩ := Option.bind_eq_some_iff.1 hmake
      cases hmake
      obtain ⟨htok, htfits⟩ := (TypeDoc.inverts_decode m).optional htype ht
      obtain ⟨htsok, htsfits⟩ := (TypeDoc.inverts_decode m).optional htsType hts
      obtain ⟨_, hdfits⟩ := (DefaultValue.inverts_decode m).optional hdefault hd
      refine ⟨⟨fun t h => (htok t h).1, fun t h => (htsok t h).1⟩, ?_⟩
      simp only [parts, List.forall_mem_cons]
      exact ⟨htfits, htsfits, (Json.fits_bool m _).some, hdfits, (Json.fits_string m _).some, nofun⟩
    · cases hmake

end PropDoc

namespace ParameterDoc

def parts (p : ParameterDoc) : List (String × Option Json) :=
  [("name", some (.string p.name)), ("optional", if p.optional then some (.bool true) else none)]

theorem toJson_eq (p : ParameterDoc) : p.toJson = .object (Json.presentMembers p.parts) := by
  unfold toJson parts
  cases p.optional <;> rfl

theorem inverts_decode (n : Nat) : Inverts decode toJson (fun _ => True) n := by
  refine .record (by decide) (fun _ => rfl) toJson_eq ?_ ?_
  · rintro m ⟨name, optional⟩ rfl _ _
    cases optional <;> rfl
  · rintro m slots p rfl _ _
    refine ⟨trivial, ?_⟩
    simp only [parts, List.forall_mem_cons]
    refine ⟨(Json.fits_string m _).some, ?_, nofun⟩
    cases p.optional with
    | true => exact (Json.fits_bool m _).some
    | false => exact nofun

end ParameterDoc

namespace MethodDoc

def parts (p : MethodDoc) : List (String × Option Json) :=
  [("name", some (.string p.name)), ("description", p.description.map .string),
    ("modifiers", some (.array (p.modifiers.map .string))), ("params", some (.array (p.params.map ParameterDoc.toJson)))]

theorem toJson_eq (p : MethodDoc) : p.toJson = .object (Json.presentMembers p.parts) := by
  unfold toJson parts
  cases p.description <;> rfl

theorem inverts_decode (n : Nat) : Inverts decode toJson (fun _ => True) n := by
  have hmodifiers := fun m => Inverts.list (n := m) fun k _ => inverts_string k
  have hparams := fun m => Inverts.list (n := m) fun k _ => ParameterDoc.inverts_decode k
  refine .record (by decide) (fun _ => rfl) toJson_eq ?_ ?_
  · rintro m p rfl _ hdepth
    simp only [parts, List.forall_mem_cons] at hdepth
    obtain ⟨_, hddepth, hmdepth, hpdepth, _⟩ := hdepth
    have hd := (inverts_string m).optional_ofPart (fun s _ => ⟨trivial, nofun⟩) hddepth
    have hm := (hmodifiers m).required_ofPart (fun _ _ => trivial) hmdepth
    have hp := (hparams m).required_ofPart (fun _ _ => trivial) hpdepth
    simp only [parts, List.map_cons, List.map_nil, hd, hm, hp]
    rfl
  · rintro m slots p rfl hslots hmake
    split at hmake
    · simp only [List.forall_mem_cons] at hslots
      obtain ⟨_, hdescription, hmodifier, hparam, _⟩ := hslots
      obtain ⟨name, _, hmake⟩ := Option.bind_eq_some_iff.1 hmake
      obtain ⟨description, hd, hmake⟩ := Option.bind_eq_some_iff.1 hmake
      obtain ⟨modifiers, hm, hmake⟩ := Option.bind_eq_some_iff.1 hmake
      obtain ⟨params, hp, hmake⟩ := Option.bind_eq_some_iff.1 hmake
      cases hmake
      obtain ⟨_, hdfits⟩ := (inverts_string m).optional hdescription hd
      obtain ⟨_, hmfits⟩ := (hmodifiers m).required hmodifier hm
      obtain ⟨_, hpfits⟩ := (hparams m).required hparam hp
      refine ⟨trivial, ?_⟩
      simp only [parts, List.forall_mem_cons]
      exact ⟨(Json.fits_string m _).some, hdfits, hmfits.some, hpfits.some, nofun⟩
    · cases hmake

end MethodDoc

/-! ## Documentation -/

namespace ComponentDoc

/-- Each property stands once, and its types are definite. -/
structure Definite (d : ComponentDoc) : Prop where
  sorted : Dictionary.Sorted d.properties
  properties : ∀ m ∈ d.properties, m.2.Definite

def parts (d : ComponentDoc) : List (String × Option Json) :=
  [("description", some (.string d.description)), ("displayName", d.displayName.map .string),
    ("methods", if d.methods.isEmpty then none else some (.array (d.methods.map MethodDoc.toJson))),
    ("properties", some (.object (d.properties.map fun p => (p.1, p.2.toJson)))),
    ("composes", if d.composes.isEmpty then none else some (.array (d.composes.map .string)))]

theorem toJson_eq (d : ComponentDoc) : d.toJson = .object (Json.presentMembers d.parts) := by
  unfold toJson parts
  cases d.displayName <;> cases d.methods <;> cases d.composes <;> rfl

/-- Documentation takes up two levels, also where it is read from an object without properties. -/
theorem inverts_decode (n : Nat) : Inverts decode toJson Definite (n + 2) := by
  have hmethods := fun m => Inverts.list (n := m) fun k _ => MethodDoc.inverts_decode k
  have hproperties := fun m => Inverts.dictionary (n := m) fun k _ => PropDoc.inverts_decode k
  have hcomposes := fun m => Inverts.list (n := m) fun k _ => inverts_string k
  refine .record (by decide) (fun _ => rfl) toJson_eq ?_ ?_
  · intro m d _ hd hdepth
    simp only [parts, List.forall_mem_cons] at hdepth
    obtain ⟨_, hndepth, hmdepth, hpdepth, hcdepth, _⟩ := hdepth
    have hn := (inverts_string m).optional_ofPart (fun s _ => ⟨trivial, nofun⟩) hndepth
    have hm := withDefault_ofPart (hmethods m) (fun _ _ => trivial) hmdepth
    have hp := (hproperties m).reads ⟨hd.sorted, hd.properties⟩ (hpdepth _ rfl)
    have hc := withDefault_ofPart (hcomposes m) (fun _ _ => trivial) hcdepth
    simp only [parts, List.map_cons, List.map_nil, hn, hm, hc]
    show (dictionary PropDoc.decode m _).bind _ = _
    rw [hp]
    rfl
  · intro m slots d hlevel hslots hmake
    split at hmake
    · simp only [List.forall_mem_cons] at hslots
      obtain ⟨_, hname, hmethod, hproperty, hcompose, _⟩ := hslots
      obtain ⟨description, _, hmake⟩ := Option.bind_eq_some_iff.1 hmake
      obtain ⟨displayName, hn, hmake⟩ := Option.bind_eq_some_iff.1 hmake
      obtain ⟨methods, hm, hmake⟩ := Option.bind_eq_some_iff.1 hmake
      obtain ⟨properties, hp, hmake⟩ := Option.bind_eq_some_iff.1 hmake
      obtain ⟨composes, hc, hmake⟩ := Option.bind_eq_some_iff.1 hmake
      cases hmake
      obtain ⟨_, hnfits⟩ := (inverts_string m).optional hname hn
      have hmfits := fits_of_withDefault (hmethods m) hmethod hm
      have hcfits := fits_of_withDefault (hcomposes m) hcompose hc
      have hpok : (Dictionary.Sorted properties ∧ ∀ p ∈ properties, p.2.Definite) ∧
          (Json.object (properties.map fun p => (p.1, p.2.toJson))).Fits m := by
        rcases (hproperties m).withDefault hproperty hp with rfl | h
        · obtain rfl : m = n + 1 := by omega
          exact ⟨⟨.nil, nofun⟩, Json.fits_object nofun⟩
        · exact h
      obtain ⟨⟨hsorted, hdefinite⟩, hpfits⟩ := hpok
      refine ⟨⟨hsorted, hdefinite⟩, ?_⟩
      simp only [parts, List.forall_mem_cons]
      exact ⟨(Json.fits_string m _).some, hnfits, hmfits, hpfits.some, hcfits, nofun⟩
    · cases hmake

end ComponentDoc

/-! ## Records -/

namespace Record

/-- Each field stands once, none in place of the file, and every value is sorted. -/
structure Definite (r : Record) : Prop where
  sorted : Dictionary.Sorted r.fields
  no_file : ∀ m ∈ r.fields, m.1 ≠ fileKey
  ordered : ∀ m ∈ r.fields, m.2.Ordered

theorem filter_file {fields : Dictionary Json} (h : ∀ m ∈ fields, m.1 ≠ fileKey) (file : String) :
    (Written.ofMembers ((fileKey, .string file) :: fields)).filter (fun m => m.1 == fileKey) =
        [(fileKey, .string file)] ∧
      (Written.ofMembers ((fileKey, .string file) :: fields)).filter (fun m => m.1 != fileKey) =
        Written.ofMembers fields := by
  have hfields : ∀ m ∈ Written.ofMembers fields, m.1 ≠ fileKey := by
    rw [Written.ofMembers_eq, List.forall_mem_map]
    exact h
  rw [Written.ofMembers, List.filter_cons_of_pos (by simp), List.filter_cons_of_neg (by simp)]
  constructor
  · rw [List.filter_eq_nil_iff.2 fun m hm => by simpa using hfields m hm]
    rfl
  · exact List.filter_eq_self.2 fun m hm => by simpa using hfields m hm

theorem inverts_decode (n : Nat) : Inverts decode toJson Definite n where
  reads := by
    rintro ⟨file, fields⟩ ⟨hsorted, hfile, hordered⟩ hdepth
    cases n with
    | zero => exact absurd hdepth (Nat.not_succ_le_zero _)
    | succ n =>
      have hfields := (Inverts.dictionary (n := n + 1) fun k _ => inverts_value k).reads ⟨hsorted, hordered⟩ (by
        rw [Json.depth_object_le_iff, List.forall_mem_map]
        exact fun m hm => Json.depth_object_le_iff.1 hdepth m (List.mem_cons_of_mem _ hm))
      have hmap : (fields.map fun m => (m.1, id m.2)) = fields := List.map_id _
      rw [hmap, Written.ofJson] at hfields
      obtain ⟨hthis, hothers⟩ := filter_file hfile file
      rw [toJson, Written.ofJson, decode, hthis, hothers]
      show (dictionary value (n + 1) (.object (Written.ofMembers fields))).bind _ = _
      rw [hfields]
      rfl
  writes := by
    intro w r hw hr
    unfold decode at hr
    split at hr
    · next n members =>
      split at hr
      · obtain ⟨file, _, hr⟩ := Option.bind_eq_some_iff.1 hr
        obtain ⟨fields, hfields, hr⟩ := Option.bind_eq_some_iff.1 hr
        cases hr
        cases hw with
        | object hmembers =>
          have hrest : (Written.object (members.filter fun m => m.1 != fileKey)).Whole :=
            .object fun m hm => hmembers m (List.mem_filter.1 hm).1
          obtain ⟨⟨hsorted, hordered⟩, hfits⟩ :=
            (Inverts.dictionary (n := n + 1) fun k _ => inverts_value k).writes hrest hfields
          have hmap : (fields.map fun m => (m.1, id m.2)) = fields := List.map_id _
          rw [hmap] at hfits
          have hnofile : ∀ m ∈ fields, m.1 ≠ fileKey := by
            intro m hm
            obtain ⟨x, hx, hxm⟩ := key_of_mem_dictionary hfields hm
            rw [← hxm]
            simpa using (List.mem_filter.1 hx).2
          refine ⟨⟨hsorted, hnofile, hordered⟩, Json.fits_object ?_⟩
          exact List.forall_mem_cons.2 ⟨Json.fits_string n file, Json.fits_members hfits⟩
      · cases hr
    · cases hr
  null := nofun

/-- A record made by merging objects. -/
inductive Merged : Record → Prop
  | mk (file : String) {extracted annotated : Option (Dictionary Json)} :
      (∀ fields, extracted = some fields → (Json.object fields).Ordered) →
      (∀ fields, annotated = some fields → (Json.object fields).Ordered) → Merged (merge file extracted annotated)

theorem Merged.definite {r : Record} (h : r.Merged) : r.Definite := by
  have hgetD : ∀ {source : Option (Dictionary Json)},
      (∀ fields, source = some fields → (Json.object fields).Ordered) → (Json.object (source.getD [])).Ordered := by
    intro source hsource
    cases source with
    | none => exact .object .nil nofun
    | some fields => exact hsource fields rfl
  cases h with
  | @mk file extracted annotated hextracted hannotated =>
    cases hgetD hextracted with
    | object hsorted hordered =>
      cases hgetD hannotated with
      | object _ hordered' =>
        refine ⟨(hsorted.overlay _).erase _, fun m hm => ?_, fun m hm => ?_⟩
        · simpa using (List.mem_filter.1 hm).2
        · exact (Dictionary.mem_of_mem_overlay (List.mem_filter.1 hm).1).elim (hordered' m) (hordered m)

end Record

/-- Sorting leaves nothing unsorted. -/
theorem Json.ordered_sorted (v : Json) : v.sorted.Ordered := by
  induction v using Json.induct with
  | null => exact .null
  | bool b => exact .bool b
  | int n => exact .int n
  | float x => exact .float x
  | string s => exact .string s
  | array items ih =>
    rw [Json.sorted, Json.sortedItems_eq]
    exact .array (List.forall_mem_map.2 ih)
  | object members ih =>
    refine .object (Dictionary.sorted_ofList _) fun m hm => ?_
    have hmem := Dictionary.mem_of_mem_ofList hm
    rw [Json.sortedMembers_eq] at hmem
    obtain ⟨n, hn, rfl⟩ := List.mem_map.1 hmem
    exact ih n hn

/-! ## Texts -/

/-- A value in both layouts. -/
def Json.texts (v : Json) : List String := [v.compact, v.pretty]

/-- The data that a text stands for. -/
def Decoder.ofText? {α : Type} (f : Decoder α) (text : String) : Option α :=
  (Json.readWritten? text).bind (f Json.depthLimit)

/-- Data and texts go over into each other, as far as a text with whole numbers may nest. -/
structure Decoder.ReadsBack {α : Type} (f : Decoder α) (write : α → Json) (Ok : α → Prop) : Prop where
  /-- Data are read back from both their texts. -/
  reads : ∀ a, Ok a → (write a).Fits Json.depthLimit → ∀ text ∈ (write a).texts, f.ofText? text = some a
  /-- Different data have no text in common. -/
  injective : ∀ a b, Ok a → Ok b → (write a).Fits Json.depthLimit → (write b).Fits Json.depthLimit →
    ∀ text, text ∈ (write a).texts → text ∈ (write b).texts → a = b
  /-- What was read from any text is read again from its own, and so has the same texts the next time. -/
  again : ∀ text w a, Json.readWritten? text = some w → w.Whole → f.ofText? text = some a →
    ∀ own ∈ (write a).texts, f.ofText? own = some a

theorem Json.readWritten?_texts {v : Json} (h : v.Whole) {text : String} (ht : text ∈ v.texts) :
    Json.readWritten? text = some (.ofJson v) := by
  rcases List.mem_cons.1 ht with rfl | ht
  · exact Json.readWritten?_compact h
  · rw [List.mem_singleton.1 ht]
    exact Json.readWritten?_pretty h

theorem Decoder.Inverts.readsBack {α : Type} {f : Decoder α} {write : α → Json} {Ok Ok' : α → Prop}
    (h : Inverts f write Ok Json.depthLimit) (hok : ∀ a, Ok' a → Ok a) : ReadsBack f write Ok' := by
  have hreads : ∀ a, Ok a → (write a).Fits Json.depthLimit → ∀ text ∈ (write a).texts, f.ofText? text = some a := by
    intro a ha hfits text ht
    rw [ofText?, Json.readWritten?_texts hfits.whole ht]
    exact h.reads ha hfits.depth_le
  refine ⟨fun a ha => hreads a (hok a ha), ?_, ?_⟩
  · intro a b ha hb hfa hfb text hta htb
    have hread := hreads a (hok a ha) hfa text hta
    rw [hreads b (hok b hb) hfb text htb] at hread
    exact (Option.some.inj hread).symm
  · intro text w a hread hw ha
    rw [ofText?, hread] at ha
    obtain ⟨hoka, hfits⟩ := h.writes hw ha
    exact hreads a hoka hfits

/-- Documentation whose types have no null for a value, and records made by merging, are read back from their texts; the
parts of documentation may be merged as they are. The text of a record has the file first, and only there. -/
theorem documents_read_back :
    ReadsBack ComponentDoc.decode ComponentDoc.toJson ComponentDoc.Definite ∧
    ReadsBack Record.decode Record.toJson Record.Merged ∧
    (∀ d : ComponentDoc, (Json.object d.fields).Ordered) ∧
    ∀ r : Record, r.Merged → r.toJson.Whole → ∀ text ∈ r.toJson.texts,
      ∃ members, Json.readWritten? text = some (.object ((fileKey, .string r.file) :: members)) ∧
        ∀ m ∈ members, m.1 ≠ fileKey := by
  refine ⟨(ComponentDoc.inverts_decode 125).readsBack fun _ h => h,
    (Record.inverts_decode _).readsBack fun _ h => h.definite, fun d => d.toJson.ordered_sorted, ?_⟩
  intro r hr hwhole text ht
  refine ⟨Written.ofMembers r.fields, Json.readWritten?_texts hwhole ht, ?_⟩
  rw [Written.ofMembers_eq, List.forall_mem_map]
  exact hr.definite.no_file

/-- A type with a value, elements, and an empty list of them further down. -/
def boxType : TypeDoc :=
  .mk "enum" (some (.array [.int (-3), .object [("a", .null), ("b", .int 18446744073709551615)]])) none
    (some [.mk "number" none (some "") (some [])])

def boxDoc : ComponentDoc where
  description := "A \"box\"\n\u0001"
  displayName := some "Box"
  methods := [⟨"open", none, ["async"], [⟨"to", true⟩]⟩]
  properties := [("size", { type := some boxType })]

/-- A record for which somebody tried to name the file. -/
def boxRecord : Record := .merge "Box.jsx" none (some [("file", .null), ("tier", .int 1)])

theorem box_read_back :
    ofText? ComponentDoc.decode boxDoc.toJson.pretty = some boxDoc ∧
    ofText? Record.decode boxRecord.toJson.compact = some ⟨"Box.jsx", [("tier", .int 1)]⟩ := by
  obtain ⟨hdoc, hrecord, _⟩ := documents_read_back
  constructor
  · have hwhole : boxDoc.toJson.Whole := by
      repeat' first
        | exact .string _
        | exact .bool _
        | exact .null
        | exact .int (by decide) (by decide)
        | refine .object ?_
        | refine .array ?_
        | refine List.forall_mem_cons.2 ⟨?_, ?_⟩
        | exact List.forall_mem_nil _
    have htype : boxType.Definite := by
      refine .mk ?_ ?_
      · rintro _ ⟨⟩
        refine ⟨.array ?_, nofun⟩
        simp only [List.forall_mem_cons]
        refine ⟨.int _, .object (by decide) ?_, nofun⟩
        simp only [List.forall_mem_cons]
        exact ⟨.null, .int _, nofun⟩
      · rintro _ ⟨⟩
        simp only [List.forall_mem_cons]
        exact ⟨.mk nofun (by rintro _ ⟨⟩; exact nofun), nofun⟩
    refine hdoc.reads boxDoc ⟨List.pairwise_singleton _ _, ?_⟩ ⟨hwhole, by decide⟩ _ (by simp [Json.texts])
    refine List.forall_mem_cons.2 ⟨⟨?_, nofun⟩, List.forall_mem_nil _⟩
    rintro _ ⟨⟩
    exact htype
  · have hmerged : boxRecord.Merged := by
      refine .mk "Box.jsx" nofun ?_
      rintro _ ⟨⟩
      refine .object (by decide) ?_
      simp only [List.forall_mem_cons]
      exact ⟨.null, .int 1, nofun⟩
    have hwhole : boxRecord.toJson.Whole := by
      refine .object ?_
      show ∀ m ∈ [("file", Json.string "Box.jsx"), ("tier", Json.int 1)], m.2.Whole
      simp only [List.forall_mem_cons]
      exact ⟨.string _, .int (by decide) (by decide), nofun⟩
    exact hrecord.reads boxRecord hmerged ⟨hwhole, by decide⟩ _ (by simp [Json.texts])

end ReactCatalog
