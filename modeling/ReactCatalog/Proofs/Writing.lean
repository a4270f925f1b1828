import ReactCatalog.Command.Run
import ReactCatalog.Proofs.FileTree

/-!
# Writing changes one entry or nothing

A write goes through a draft, a file that for a while lies in the tree beside everything else. The draft has a name
that nothing mentions, so no walk meets it (`Draft.In.alike`), and taking it away gives back the tree that was there
before (`Draft.In.discard`). Hence a write that fails at any step leaves the tree as it was, and one that succeeds
changes the entry at its target only.
-/

namespace ReactCatalog

/-! ## Names that nothing mentions -/

theorem length_le_of_mem_segments {n bytes : List UInt8} (h : n ∈ Path.segments bytes) :
    n.length ≤ bytes.length := by
  induction bytes generalizing n with
  | nil =>
    have hn : n = [] := by simpa [Path.segments] using h
    simp [hn]
  | cons b rest ih =>
    unfold Path.segments at h
    split at h
    · rcases List.mem_cons.1 h with rfl | h
      · simp
      · have := ih h
        simp only [List.length_cons]
        omega
    · split at h
      · have hn : n = [b] := by simpa using h
        simp [hn]
      · next s more hs =>
        rw [hs] at ih
        rcases List.mem_cons.1 h with rfl | h
        · have := ih (n := s) (by simp)
          simp only [List.length_cons]
          omega
        · have := ih (n := n) (by simp [h])
          simp only [List.length_cons]
          omega

namespace Entry

theorem longest_lookup {n : Name} {e : Entry} {children : List (Name × Entry)}
    (h : List.lookup n children = some e) :
    n.length ≤ longestBelow children ∧ e.longest ≤ longestBelow children := by
  induction children with
  | nil => simp at h
  | cons c rest ih =>
    obtain ⟨k, x⟩ := c
    rw [lookup_cons_ite] at h
    unfold longestBelow
    split at h
    · next hk =>
      cases h
      subst hk
      omega
    · have := ih h
      omega

theorem longest_find? {e x : Entry} {trail : Trail} (h : e.find? trail = some x) :
    (∀ n ∈ trail, n.length ≤ e.longest) ∧ x.longest ≤ e.longest := by
  induction trail generalizing e with
  | nil =>
    cases h
    simp
  | cons n rest ih =>
    cases e with
    | file bytes m => cases h
    | link target => cases h
    | directory m children =>
      obtain ⟨y, hy, hx⟩ := Option.bind_eq_some_iff.1 h
      have hl := longest_lookup hy
      obtain ⟨hr, hx⟩ := ih hx
      have hd : (Entry.directory m children).longest = longestBelow children := by simp [longest]
      rw [hd]
      refine ⟨?_, by omega⟩
      intro k hk
      rcases List.mem_cons.1 hk with rfl | hk
      · exact hl.1
      · have := hr k hk
        omega

end Entry

namespace FileTree

/-! ## Putting a file at a location -/

theorem entryAt?_set_self {t : FileTree} {here : Trail} (hd : t.isDirectoryAt here = true) (n : Name) (e : Entry) :
    (t.set (here ++ [n]) e).entryAt? (here ++ [n]) = some e.alone := by
  obtain ⟨m, children, hf⟩ := exists_of_isDirectoryAt hd
  simp [entryAt?, set, Entry.find?_alter_self _ hf]

/-- Nothing is below what is not a directory. -/
theorem find?_below {t : FileTree} {here : Trail} (h : t.isDirectoryAt here = false) (n : Name) (rest : Trail) :
    t.top.find? (here ++ n :: rest) = none := by
  rw [Entry.find?_append]
  unfold isDirectoryAt at h
  cases hf : t.top.find? here with
  | none => rfl
  | some e =>
    cases e with
    | directory m children => simp [hf] at h
    | file bytes m => rfl
    | link target => rfl

/-- A file put in the place of anything but a directory changes no other entry. -/
theorem entryAt?_set_of_ne {t : FileTree} {here trail : Trail} {n : Name} (hd : t.isDirectoryAt here = true)
    (hn : t.isDirectoryAt (here ++ [n]) = false) (bytes : List UInt8) (m : Nat) (hne : trail ≠ here ++ [n]) :
    (t.set (here ++ [n]) (.file bytes m)).entryAt? trail = t.entryAt? trail := by
  by_cases hp : here ++ [n] <+: trail
  · obtain ⟨below, rfl⟩ := hp
    cases below with
    | nil => simp at hne
    | cons k rest =>
      obtain ⟨m', children, hf⟩ := exists_of_isDirectoryAt hd
      have hs : (t.set (here ++ [n]) (.file bytes m)).isDirectoryAt (here ++ [n]) = false := by
        simp [isDirectoryAt, set, Entry.find?_alter_self _ hf]
      unfold entryAt?
      rw [find?_below hs, find?_below hn]
  · exact Entry.alone_find?_alter _ _ hp

/-- The target of a path is in a directory, to which a walk along all but the last piece leads. -/
theorem target?_eq_some {t : FileTree} {p : Path} {here : Trail} (h : t.target? p = some here) :
    ∃ dir last, here = dir ++ [last] ∧ t.isDirectoryAt dir = true ∧
      (Path.segments p.bytes).getLast? = some last ∧
      ¬ (last = [] ∨ last = [Path.dot] ∨ last = [Path.dot, Path.dot]) ∧
      t.walk linkLimit (t.start p) (Path.segments p.bytes).dropLast = .ok dir := by
  obtain ⟨last, hl, h⟩ := Option.bind_eq_some_iff.1 h
  split at h
  · cases h
  · next hlast =>
    split at h
    · next dir hw =>
      split at h
      · next hd =>
        cases h
        exact ⟨dir, last, rfl, hd, hl, hlast, hw⟩
      · cases h
    · cases h

end FileTree

namespace Draft

open FileTree

/-! ## Drafts -/

theorem length_freshName (t : FileTree) (p : Path) :
    (freshName t p).length = 4 + (t.top.longest + p.bytes.length + t.workingDirectory.flatten.length) := by
  have h : (Text.utf8 ".tmp").length = 4 := by decide
  simp [freshName, h]

/-- The draft is a file that lies in the tree `t` in addition to what was there. -/
def In (d : Draft) (t : FileTree) (p : Path) (bytes : List UInt8) (m : Nat) : Prop :=
  ∃ here, t.isDirectoryAt here = true ∧ d.place = here ++ [freshName t p] ∧ d.tree = t.set d.place (.file bytes m)

theorem in_of_create? {t : FileTree} {p : Path} {d : Draft} (h : create? t p = some d) :
    d.In t p [] initialMode := by
  unfold create? at h
  split at h
  · cases h
  · next here _ =>
    split at h
    · next hd =>
      cases h
      exact ⟨here, hd, rfl, rfl⟩
    · cases h

namespace In

variable {d : Draft} {t : FileTree} {p : Path} {bytes : List UInt8} {m : Nat}

/-- Nothing was at the place of the draft. -/
theorem absent (h : d.In t p bytes m) : t.top.find? d.place = none := by
  obtain ⟨here, _, hp, _⟩ := h
  cases hf : t.top.find? d.place with
  | none => rfl
  | some x =>
    have hl := (Entry.longest_find? hf).1 (freshName t p) (by simp [hp])
    rw [length_freshName] at hl
    omega

theorem modify (h : d.In t p bytes m) (f : Entry → Entry) {bytes' : List UInt8} {m' : Nat}
    (hf : f (.file bytes m) = .file bytes' m') : (d.modify f).In t p bytes' m' := by
  obtain ⟨here, hd, hp, ht⟩ := h
  refine ⟨here, hd, hp, ?_⟩
  simp [Draft.modify, ht, FileTree.set, Entry.alter_alter_some, hf]

theorem fill (h : d.In t p bytes m) (bytes' : List UInt8) : (d.fill bytes').In t p bytes' m :=
  h.modify _ rfl

theorem setMode (h : d.In t p bytes m) (m' : Nat) : (d.setMode m').In t p bytes m' :=
  h.modify _ rfl

/-- Without the draft the tree is the one that was there before. -/
theorem discard (h : d.In t p bytes m) : d.discard = t := by
  have ha := h.absent
  obtain ⟨here, _, _, ht⟩ := h
  simp [Draft.discard, unset, ht, FileTree.set, Entry.alter_alter_some, Entry.alter_none_of_absent ha]

/-- Names as short as those that the tree and the path mention. -/
def Mentioned (t : FileTree) (p : Path) (n : Name) : Prop := n.length < (freshName t p).length

theorem not_prefix_of_mentioned (h : d.In t p bytes m) {trail : Trail} (ht : ∀ n ∈ trail, Mentioned t p n) :
    ¬ d.place <+: trail := by
  obtain ⟨here, _, hp, _⟩ := h
  intro hx
  have hm : freshName t p ∈ trail := hx.subset (by simp [hp])
  exact Nat.lt_irrefl _ (ht _ hm)

theorem entryAt? (h : d.In t p bytes m) {trail : Trail} (ht : ∀ n ∈ trail, Mentioned t p n) :
    d.tree.entryAt? trail = t.entryAt? trail := by
  have hx := h.not_prefix_of_mentioned ht
  obtain ⟨here, _, _, he⟩ := h
  rw [he]
  exact Entry.alone_find?_alter _ _ hx

theorem mentioned_segments (t : FileTree) (p : Path) : ∀ n ∈ Path.segments p.bytes, Mentioned t p n := by
  intro n hn
  have := length_le_of_mem_segments hn
  unfold Mentioned
  rw [length_freshName]
  omega

/-- No walk meets the draft. -/
theorem alike (h : d.In t p bytes m) : Alike (Mentioned t p) t d.tree where
  outline here hh := by
    rw [outlineAt?_eq_entryAt?, outlineAt?_eq_entryAt?, h.entryAt? hh]
  link here target hl n hn := by
    unfold outlineAt? at hl
    cases hf : t.top.find? here with
    | none => simp [hf] at hl
    | some e =>
      cases e with
      | file bytes m => simp [hf, Entry.outline] at hl
      | directory m children => simp [hf, Entry.outline] at hl
      | link target' =>
        simp only [hf, Option.map_some, Entry.outline, Option.some.injEq, Entry.link.injEq] at hl
        subst hl
        have h₁ := (Entry.longest_find? hf).2
        have h₂ := length_le_of_mem_segments hn
        simp only [Entry.longest] at h₁
        unfold Mentioned
        rw [length_freshName]
        omega
  start_eq := by
    obtain ⟨_, _, _, ht⟩ := h
    rw [ht]
    rfl
  start_ok n hn := by
    have := (List.sublist_flatten_of_mem hn).length_le
    unfold Mentioned
    rw [length_freshName]
    omega

theorem target? (h : d.In t p bytes m) : d.tree.target? p = t.target? p :=
  (h.alike.target? (mentioned_segments t p)).1.symm

theorem modeFor (h : d.In t p bytes m) : d.tree.modeFor p = t.modeFor p := by
  obtain ⟨hl, ho⟩ := h.alike.locate (mentioned_segments t p)
  unfold FileTree.modeFor FileTree.find
  rw [← hl]
  cases hr : t.locate p with
  | error e => rfl
  | ok here =>
    have he := h.entryAt? (ho here hr)
    unfold FileTree.entryAt? at he
    cases hx : t.top.find? here with
    | none =>
      cases hy : d.tree.top.find? here with
      | none => simp [bind, Except.bind, hx, hy]
      | some y => simp [hx, hy] at he
    | some x =>
      cases hy : d.tree.top.find? here with
      | none => simp [hx, hy] at he
      | some y =>
        cases x <;> cases y <;> simp_all [Entry.alone, Entry.mode, bind, Except.bind, pure, Except.pure]

/-- The target of a draft is no directory with the draft in place exactly if it was none before. -/
theorem isDirectoryAt_target (h : d.In t p bytes m) {here : Trail} (ht : t.target? p = some here) :
    d.tree.isDirectoryAt here = t.isDirectoryAt here := by
  have ho := (h.alike.target? (mentioned_segments t p)).2 here ht
  exact (isDirectoryAt_congr (h.alike.outline here ho)).symm

/-- Publishing a draft is putting the file there. -/
theorem publish? (h : d.In t p bytes m) :
    d.publish? p =
      (t.target? p).bind fun here => if t.isDirectoryAt here then none else some (t.set here (.file bytes m)) := by
  have hf : d.tree.top.find? d.place = some (.file bytes m) := by
    obtain ⟨here, hd, hp, ht⟩ := h
    obtain ⟨m', children, hx⟩ := exists_of_isDirectoryAt hd
    rw [ht, hp]
    simp [FileTree.set, Entry.find?_alter_self _ hx]
  unfold Draft.publish?
  rw [h.target?, hf, h.discard]
  cases ht : t.target? p with
  | none => rfl
  | some here => simp [h.isDirectoryAt_target ht, pure]

end In

variable {t : FileTree} {p : Path} {bytes : List UInt8} {d : Draft} {faults : Faults}

theorem after_eq (d : Draft) (step : WriteStep) :
    d.after step faults = if faults step then .error (step, d) else .ok d := rfl

/-- The steps one after the other: from the second on the draft is full and has its mode. -/
theorem complete_eq (d : Draft) :
    d.complete p bytes faults =
      let filled := d.fill bytes
      let ready := filled.setMode (filled.tree.modeFor p)
      if faults .fill then .error (.fill, filled)
      else if faults .setMode then .error (.setMode, ready)
      else if faults .flush then .error (.flush, ready)
      else if faults .publish then .error (.publish, ready)
      else
        match ready.publish? p with
        | some t => .ok t
        | none => .error (.publish, ready) := by
  simp only [complete, after_eq, bind, Except.bind]
  cases faults .fill with
  | true => rfl
  | false =>
    cases faults .setMode with
    | true => rfl
    | false =>
      cases faults .flush with
      | true => rfl
      | false => cases faults .publish <;> rfl

/-- Whatever step fails, the draft is still in the tree and nothing else is different. -/
theorem complete_error {b : List UInt8} {m : Nat} (h : d.In t p b m) {step : WriteStep} {d' : Draft}
    (he : d.complete p bytes faults = .error (step, d')) : ∃ b' m', d'.In t p b' m' := by
  have h₁ := h.fill bytes
  have h₂ := h₁.setMode ((d.fill bytes).tree.modeFor p)
  rw [complete_eq] at he
  dsimp only at he
  split at he
  · cases he
    exact ⟨_, _, h₁⟩
  split at he
  · cases he
    exact ⟨_, _, h₂⟩
  split at he
  · cases he
    exact ⟨_, _, h₂⟩
  split at he
  · cases he
    exact ⟨_, _, h₂⟩
  split at he
  · cases he
  · cases he
    exact ⟨_, _, h₂⟩

/-- A draft is completed exactly if no step fails and its target is no directory. -/
theorem complete_ok_iff {b : List UInt8} {m : Nat} (h : d.In t p b m) {t' : FileTree} :
    d.complete p bytes faults = .ok t' ↔
      (faults .fill = false ∧ faults .setMode = false ∧ faults .flush = false ∧ faults .publish = false) ∧
        ∃ here, t.target? p = some here ∧ t.isDirectoryAt here = false ∧
          t' = t.set here (.file bytes (t.modeFor p)) := by
  have h₁ := h.fill bytes
  have h₂ := h₁.setMode ((d.fill bytes).tree.modeFor p)
  have hp := h₂.publish?
  rw [h₁.modeFor] at hp
  rw [complete_eq]
  dsimp only
  rw [h₁.modeFor, hp]
  cases hf : faults .fill <;> cases hm : faults .setMode <;> cases hl : faults .flush <;>
    cases hb : faults .publish <;> try simp
  -- no step fails: what is left is whether there is a target that can be replaced
  cases ht : t.target? p with
  | none => simp
  | some here =>
    cases hd : t.isDirectoryAt here with
    | true => simp [hd]
    | false =>
      simp only [Option.bind_some, hd, Bool.false_eq_true, if_false, Except.ok.injEq]
      constructor
      · rintro rfl
        exact ⟨here, rfl, hd, rfl⟩
      · rintro ⟨here', hh, _, rfl⟩
        cases hh
        rfl

end Draft

namespace FileTree

/-! ## Writes -/

variable {t : FileTree} {p : Path} {bytes : List UInt8} {faults : Faults}

/-- A write that fails leaves the tree; one that succeeds puts the file at its target. -/
theorem write_cases (t : FileTree) (p : Path) (bytes : List UInt8) (faults : Faults) :
    (∃ step, t.write p bytes faults = (some step, t)) ∨
      ∃ here, t.target? p = some here ∧ t.isDirectoryAt here = false ∧
        t.write p bytes faults = (none, t.set here (.file bytes (t.modeFor p))) := by
  unfold write
  split
  · exact .inl ⟨_, rfl⟩
  cases hc : Draft.create? t p with
  | none => exact .inl ⟨_, rfl⟩
  | some d =>
    have hi := Draft.in_of_create? hc
    cases hr : d.complete p bytes faults with
    | error x =>
      obtain ⟨step, d'⟩ := x
      obtain ⟨b, m, hd⟩ := Draft.complete_error hi hr
      exact .inl ⟨step, by simp [hr, hd.discard]⟩
    | ok t' =>
      obtain ⟨_, here, ht, hn, rfl⟩ := (Draft.complete_ok_iff hi).1 hr
      exact .inr ⟨here, ht, hn, by simp [hr]⟩

theorem write_succeeds_iff :
    (t.write p bytes faults).1 = none ↔
      (∀ step, faults step = false) ∧ (Draft.create? t p).isSome ∧
        ∃ here, t.target? p = some here ∧ t.isDirectoryAt here = false := by
  have hall : (∀ step, faults step = false) ↔ faults .create = false ∧
      (faults .fill = false ∧ faults .setMode = false ∧ faults .flush = false ∧ faults .publish = false) := by
    constructor
    · intro h
      exact ⟨h _, h _, h _, h _, h _⟩
    · rintro ⟨h₁, h₂, h₃, h₄, h₅⟩ step
      cases step <;> assumption
  rw [hall]
  unfold write
  cases hf : faults .create with
  | true => simp
  | false =>
    cases hc : Draft.create? t p with
    | none => simp
    | some d =>
      have hi := Draft.in_of_create? hc
      cases hr : d.complete p bytes faults with
      | error x =>
        have hno : ∀ t', d.complete p bytes faults ≠ .ok t' := by
          intro t' ht'
          rw [hr] at ht'
          cases ht'
        simp only [hr, Bool.false_eq_true, if_false, reduceCtorEq, false_iff]
        rintro ⟨⟨_, hs⟩, _, here, ht, hd⟩
        exact hno _ ((Draft.complete_ok_iff hi).2 ⟨hs, here, ht, hd, rfl⟩)
      | ok t' =>
        obtain ⟨hs, here, ht, hn, _⟩ := (Draft.complete_ok_iff hi).1 hr
        simp [hr, hs, ht, hn]

/-- In `t'` the file is at the location, and all other entries are those of `t`. -/
structure Replaced (t t' : FileTree) (here : Trail) (bytes : List UInt8) (m : Nat) : Prop where
  file : t'.entryAt? here = some (.file bytes m)
  others : ∀ trail, trail ≠ here → t'.entryAt? trail = t.entryAt? trail
  start : t'.workingDirectory = t.workingDirectory

theorem replaced_set {here : Trail} (ht : t.target? p = some here) (hn : t.isDirectoryAt here = false)
    (bytes : List UInt8) (m : Nat) : Replaced t (t.set here (.file bytes m)) here bytes m := by
  obtain ⟨dir, last, rfl, hd, _⟩ := target?_eq_some ht
  exact ⟨entryAt?_set_self hd last _, fun trail hne => entryAt?_set_of_ne hd hn bytes m hne, rfl⟩

/-! ## Reading back what was written -/

section

variable {dir : Trail} {last : Name}

theorem outlineAt?_set_of_ne (hd : t.isDirectoryAt dir = true) (hn : t.isDirectoryAt (dir ++ [last]) = false)
    (bytes : List UInt8) (m : Nat) {trail : Trail} (hne : trail ≠ dir ++ [last]) :
    (t.set (dir ++ [last]) (.file bytes m)).outlineAt? trail = t.outlineAt? trail := by
  rw [outlineAt?_eq_entryAt?, outlineAt?_eq_entryAt?, entryAt?_set_of_ne hd hn bytes m hne]

theorem isDirectoryAt_set (hd : t.isDirectoryAt dir = true) (hn : t.isDirectoryAt (dir ++ [last]) = false)
    (bytes : List UInt8) (m : Nat) (trail : Trail) :
    (t.set (dir ++ [last]) (.file bytes m)).isDirectoryAt trail = t.isDirectoryAt trail := by
  by_cases hne : trail = dir ++ [last]
  · subst hne
    obtain ⟨m', children, hx⟩ := exists_of_isDirectoryAt hd
    rw [hn]
    simp [isDirectoryAt, FileTree.set, Entry.find?_alter_self _ hx]
  · exact isDirectoryAt_congr (outlineAt?_set_of_ne hd hn bytes m hne)

/-- The last move of a walk, to the file that was put there. -/
theorem move_set_self (hd : t.isDirectoryAt dir = true) (hn : t.isDirectoryAt (dir ++ [last]) = false)
    (bytes : List UInt8) (m : Nat)
    (hlast : ¬ (last = [] ∨ last = [Path.dot] ∨ last = [Path.dot, Path.dot])) :
    (t.set (dir ++ [last]) (.file bytes m)).move dir last = .arrive (dir ++ [last]) := by
  obtain ⟨m', children, hx⟩ := exists_of_isDirectoryAt hd
  simp only [not_or] at hlast
  simp only [move, isDirectoryAt_set hd hn, hd, hlast]
  simp [FileTree.set, Entry.find?_alter_self _ hx]

/-- No walk goes on from what is not a directory. -/
theorem walkWith_of_not_directory {here : Trail} (h : t.isDirectoryAt here = false)
    (follow : Trail → List Name → Except ReadError Trail) {pieces : List Name} (hp : pieces ≠ []) :
    t.walkWith follow here pieces = .error .notDirectory := by
  cases pieces with
  | nil => exact absurd rfl hp
  | cons n rest => simp [FileTree.walkWith, move_of_not_directory h]

/-- A walk that goes through a location, but ends above it, meets a link there. -/
theorem link_of_walkWith (hn : t.isDirectoryAt (dir ++ [last]) = false)
    (hlast : ¬ (last = [] ∨ last = [Path.dot] ∨ last = [Path.dot, Path.dot]))
    {follow : Trail → List Name → Except ReadError Trail} {rest : List Name}
    (hw : t.walkWith follow dir (last :: rest) = .ok dir) :
    ∃ target, t.outlineAt? (dir ++ [last]) = some (.link target) := by
  simp only [not_or] at hlast
  simp only [FileTree.walkWith, move, hlast, outlineAt?] at hw ⊢
  have hstop : t.walkWith follow (dir ++ [last]) rest ≠ .ok dir := by
    cases rest with
    | nil => simp [FileTree.walkWith]
    | cons k more => simp [walkWith_of_not_directory hn]
  cases hx : t.top.find? (dir ++ [last]) with
  | none => cases hd : t.isDirectoryAt dir <;> simp [hd, hx] at hw
  | some e =>
    cases e with
    | link target => exact ⟨target, rfl⟩
    | file bytes m => cases hd : t.isDirectoryAt dir <;> simp [hd, hx, hstop] at hw
    | directory m children => cases hd : t.isDirectoryAt dir <;> simp [hd, hx, hstop] at hw

/-- The end of a walk to what was put at a location: it is there, unless a link was at the location and the walk went
through that link on its way. -/
def Regained (t : FileTree) (here : Trail) (walked : Except ReadError Trail) : Prop :=
  walked = .ok here ∨ (∃ target, t.outlineAt? here = some (.link target)) ∧ walked = .error .notDirectory

theorem regained_walkWith (hd : t.isDirectoryAt dir = true) (hn : t.isDirectoryAt (dir ++ [last]) = false)
    (hlast : ¬ (last = [] ∨ last = [Path.dot] ∨ last = [Path.dot, Path.dot])) (m : Nat)
    {follow follow' : Trail → List Name → Except ReadError Trail}
    (hf : ∀ here pieces, follow here pieces = .ok dir →
      t.Regained (dir ++ [last]) (follow' here (pieces ++ [last])))
    {here : Trail} {pieces : List Name} (hw : t.walkWith follow here pieces = .ok dir) :
    t.Regained (dir ++ [last])
      ((t.set (dir ++ [last]) (.file bytes m)).walkWith follow' here (pieces ++ [last])) := by
  have hs := isDirectoryAt_set hd hn bytes m
  induction pieces generalizing here with
  | nil =>
    cases hw
    left
    simp [FileTree.walkWith, move_set_self hd hn bytes m hlast]
  | cons n rest ih =>
    by_cases hne : here ++ [n] = dir ++ [last]
    · -- the walk stood before the location already, so it left it through a link
      obtain ⟨rfl, hl⟩ := List.append_inj' hne rfl
      cases hl
      refine .inr ⟨link_of_walkWith hn hlast hw, ?_⟩
      simp only [FileTree.walkWith, List.cons_append, move_set_self hd hn bytes m hlast]
      exact walkWith_of_not_directory (by rw [hs, hn]) _ (by simp)
    · simp only [FileTree.walkWith, List.cons_append,
        move_congr (hs here) (outlineAt?_set_of_ne hd hn bytes m hne)] at hw ⊢
      cases hv : t.move here n with
      | lost cause => simp [hv] at hw
      | arrive next =>
        rw [hv] at hw
        exact ih hw
      | follow next more =>
        rw [hv] at hw
        simpa using hf next (more ++ rest) hw

theorem regained_walk (hd : t.isDirectoryAt dir = true) (hn : t.isDirectoryAt (dir ++ [last]) = false)
    (hlast : ¬ (last = [] ∨ last = [Path.dot] ∨ last = [Path.dot, Path.dot])) (m : Nat) {links : Nat}
    {here : Trail} {pieces : List Name} (hw : t.walk links here pieces = .ok dir) :
    t.Regained (dir ++ [last]) ((t.set (dir ++ [last]) (.file bytes m)).walk links here (pieces ++ [last])) := by
  induction links generalizing here pieces with
  | zero =>
    refine regained_walkWith hd hn hlast m ?_ hw
    intro here pieces h
    cases h
  | succ links ih => exact regained_walkWith hd hn hlast m (fun here pieces h => ih h) hw

end

/-- The path to a written file leads to it, unless it goes through a link that the file has replaced. -/
theorem regained_locate {here : Trail} (ht : t.target? p = some here) (hn : t.isDirectoryAt here = false)
    (bytes : List UInt8) (m : Nat) : t.Regained here ((t.set here (.file bytes m)).locate p) := by
  obtain ⟨dir, last, rfl, hd, hl, hlast, hw⟩ := target?_eq_some ht
  have hp : p.bytes ≠ [] := by
    intro h
    simp only [h, Path.segments, List.getLast?_singleton, Option.some.injEq] at hl
    exact hlast (.inl hl.symm)
  obtain ⟨pieces, hs⟩ := List.getLast?_eq_some_iff.1 hl
  rw [hs, List.dropLast_concat] at hw
  unfold locate
  rw [if_neg hp, hs]
  exact regained_walk hd hn hlast m hw

end FileTree

/-! ## Tallies -/

/-- The outcome has a record in the catalog. -/
def isKept (dropFailed : Bool) (o : FileOutcome) : Bool := !(dropFailed && o.status == .failed)

def keptRecords (dropFailed : Bool) (os : List FileOutcome) : List Record :=
  (os.filter (isKept dropFailed)).map FileOutcome.record

def countStatus (s : FileStatus) (os : List FileOutcome) : Nat := os.countP fun o => o.status == s

/-- Going through outcomes adds to each counter those that it counts, and to the records those that are kept. -/
theorem foldl_add (dropFailed : Bool) (os : List FileOutcome) (x : Tally) :
    os.foldl (Tally.add dropFailed) x =
      { report :=
          { x.report with
            complete := x.report.complete + countStatus .complete os
            incomplete := x.report.incomplete + countStatus .incomplete os
            failed := x.report.failed + countStatus .failed os
            dropped := x.report.dropped + if dropFailed then countStatus .failed os else 0 }
        records := x.records ++ keptRecords dropFailed os
        events := x.events ++ (os.filter fun o => !isKept dropFailed o).map fun o => .dropping o.file } := by
  induction os generalizing x with
  | nil => simp [countStatus, keptRecords]
  | cons o rest ih =>
    rw [List.foldl_cons, ih]
    cases hs : o.status <;> cases dropFailed <;>
      simp [Tally.add, Tally.keep, hs, countStatus, keptRecords, isKept, Nat.add_assoc, Nat.add_comm 1]

theorem records_tally (o : Options) (os : List FileOutcome) : (tally o os).records = keptRecords o.dropFailed os := by
  rw [tally, foldl_add]
  rfl

theorem finish_tally (o : Options) (os : List FileOutcome) :
    (tally o os).finish =
      { output := o.output
        written := (keptRecords o.dropFailed os).length
        complete := countStatus .complete os
        incomplete := countStatus .incomplete os
        failed := countStatus .failed os
        dropped := if o.dropFailed then countStatus .failed os else 0 } := by
  rw [tally, foldl_add]
  simp [Tally.finish]

/-! ## Runs -/

/-- The text of the catalog that a run is to write. -/
def newText (t : FileTree) (registry : Registry) (o : Options) : String :=
  catalogText (keptRecords o.dropFailed (outcomes t registry o (candidatesFor t o)))

/-- A run fails and leaves the tree, or it reports on all outcomes and puts the catalog at its target. -/
theorem generate_cases (t : FileTree) (registry : Registry) (o : Options) (faults : Faults) :
    (∃ e, (generate t registry o faults).result = .error e ∧ (generate t registry o faults).tree = t) ∨
      ∃ here, t.target? o.output = some here ∧ t.isDirectoryAt here = false ∧
        (generate t registry o faults).result = .ok (tally o (outcomes t registry o (candidatesFor t o))).finish ∧
        (generate t registry o faults).tree =
          t.set here (.file (Text.utf8 (newText t registry o)) (t.modeFor o.output)) := by
  unfold generate
  split
  · exact .inl ⟨_, rfl, rfl⟩
  dsimp only
  split
  · exact .inl ⟨_, rfl, rfl⟩
  rcases FileTree.write_cases t o.output (Text.utf8 (newText t registry o)) faults with
    ⟨step, hw⟩ | ⟨here, ht, hn, hw⟩
  · left
    rw [newText, candidatesFor, ← records_tally] at hw
    exact ⟨.unwritable o.output, by simp [hw], by simp [hw]⟩
  · right
    refine ⟨here, ht, hn, ?_⟩
    rw [newText, candidatesFor, ← records_tally] at hw ⊢
    simp [hw]

/-- The text has been put at the target of a path, under the mode of what the path led to, or else `0644`, and no
other entry has changed. The path leads to the text, unless it goes through a link that had to give way to it. -/
def OnlyWritten (t t' : FileTree) (p : Path) (text : String) : Prop :=
  ∃ here m, t.target? p = some here ∧ t.Replaced t' here (Text.utf8 text) m ∧ t.Regained here (t'.locate p) ∧
    match t.find p with
    | .ok e => m = e.mode
    | .error _ => m = 0o644

theorem onlyWritten_set {t : FileTree} {p : Path} {here : Trail} (ht : t.target? p = some here)
    (hn : t.isDirectoryAt here = false) (text : String) :
    OnlyWritten t (t.set here (.file (Text.utf8 text) (t.modeFor p))) p text := by
  refine ⟨here, t.modeFor p, ht, FileTree.replaced_set ht hn _ _, FileTree.regained_locate ht hn _ _, ?_⟩
  unfold FileTree.modeFor
  cases t.find p with
  | ok e => rfl
  | error e => rfl

/-- What a run did to the tree, and what it said of it. -/
theorem run_cases (t : FileTree) (a : Arguments) (faults : Faults) :
    (∃ e, (run t a faults).result = .error e ∧ (run t a faults).tree = t) ∨
      ∃ c registry report, (configFor t a).1 = .ok c ∧ (registryFor t a c).1 = .ok registry ∧
        (run t a faults).result = .ok report ∧
        OnlyWritten t (run t a faults).tree a.output (newText t registry (a.options c)) := by
  unfold run
  rcases hc : configFor t a with ⟨config, events⟩
  cases config with
  | error e => exact .inl ⟨e, rfl, rfl⟩
  | ok c =>
    rcases hr : registryFor t a c with ⟨registry, more⟩
    cases registry with
    | error e => exact .inl ⟨e, by simp [hr], by simp [hr]⟩
    | ok registry =>
      rcases generate_cases t registry (a.options c) faults with ⟨e, he, ht⟩ | ⟨here, ht, hn, hok, htree⟩
      · exact .inl ⟨.generate a.inputDir e, by simp [hr, he], by simp [hr, ht]⟩
      · refine .inr ⟨c, registry, _, rfl, by simp [hr], by simp [hr, hok]; rfl, ?_⟩
        simp only [hr, htree]
        exact onlyWritten_set ht hn (newText t registry (a.options c))

/-- Whatever fails, the tree is left as it was and nothing is said; if nothing fails, the output alone is replaced,
in one step. -/
theorem only_output_changes (t : FileTree) (faults : Faults) :
    (∀ registry o,
      match (generate t registry o faults).result with
      | .error _ => (generate t registry o faults).tree = t
      | .ok _ => OnlyWritten t (generate t registry o faults).tree o.output (newText t registry o)) ∧
    ∀ a,
      match (run t a faults).result with
      | .error _ => (run t a faults).tree = t ∧ (run t a faults).output = ""
      | .ok _ => ∃ c registry, (configFor t a).1 = .ok c ∧ (registryFor t a c).1 = .ok registry ∧
          OnlyWritten t (run t a faults).tree a.output (newText t registry (a.options c)) := by
  constructor
  · intro registry o
    rcases generate_cases t registry o faults with ⟨e, he, ht⟩ | ⟨here, ht, hn, hok, htree⟩
    · rw [he]
      exact ht
    · rw [hok, htree]
      exact onlyWritten_set ht hn _
  · intro a
    rcases run_cases t a faults with ⟨e, he, ht⟩ | ⟨c, registry, report, hc, hr, hok, hw⟩
    · rw [he]
      exact ⟨ht, by simp [RunResult.output, he]⟩
    · rw [hok]
      exact ⟨c, registry, hc, hr, hw⟩

/-- A tree with one module, and a link to an older catalog. -/
def linkedTree : FileTree where
  top := .directory directoryMode [
    (Text.utf8 "components", .directory directoryMode [(Text.utf8 "A.jsx", .file [] 0o644)]),
    (Text.utf8 "out", .link (.ofString "old")),
    (Text.utf8 "old", .file (Text.utf8 "[]") 0o640)]

def linkedArguments : Arguments where
  inputDir := .ofString "components"
  output := .ofString "out"

/-- A catalog written over a link takes the place of the link and has the mode of the file it led to. A run that fails
when the draft is already full leaves both. -/
theorem linked_output_changes :
    (∃ text, linkedTree.Replaced (run linkedTree linkedArguments).tree [Text.utf8 "out"] text 0o640) ∧
      (run linkedTree linkedArguments (· == .flush)).tree = linkedTree := by
  constructor
  · have hok : (run linkedTree linkedArguments).result.isOk = true := by decide +kernel
    have h := (only_output_changes linkedTree .none).2 linkedArguments
    split at h
    · next hr =>
      rw [hr] at hok
      cases hok
    · obtain ⟨_, _, _, _, here, m, ht, hr, _, hm⟩ := h
      have hx : linkedTree.target? linkedArguments.output = some [Text.utf8 "out"] := by decide +kernel
      have hf : linkedTree.find linkedArguments.output = .ok (.file (Text.utf8 "[]") 0o640) := by rfl
      rw [hx, Option.some.injEq] at ht
      rw [hf] at hm
      subst ht hm
      exact ⟨_, hr⟩
  · have hbad : (run linkedTree linkedArguments (· == .flush)).result.isOk = false := by decide +kernel
    have h := (only_output_changes linkedTree (· == .flush)).2 linkedArguments
    split at h
    · exact h.1
    · next hr =>
      rw [hr] at hbad
      cases hbad

end ReactCatalog
