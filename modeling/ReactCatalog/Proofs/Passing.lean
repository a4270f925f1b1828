import ReactCatalog.Proofs.Descent
import ReactCatalog.Proofs.Shape

/-!
# Coming by a location

A walk that does not come by a location is the same in two trees that differ there only (`SameBut.walk`), and so is
the file that it leads to (`SameBut.file?`). After a write the path of the file has the target that it had, and the
file its mode, unless the path leads through what was there before (`target?_set`, `modeFor_set`). The draft of a file
is always made in the directory of its target (`locate_directoryOf`).
-/

namespace ReactCatalog

/-! ## The directory of a draft -/

namespace Path

/-- The bytes before the last piece of a path. -/
theorem bytes_of_segments {bytes : List UInt8} {pieces : List Name} {last : Name}
    (h : segments bytes = pieces ++ [last]) :
    slash ∉ last ∧ (pieces = [] ∧ bytes = last ∨ ∃ front, segments front = pieces ∧ bytes = front ++ slash :: last) := by
  by_cases hs : slash ∈ bytes
  · obtain ⟨back, front, hback, hno⟩ := List.eq_append_cons_of_mem (List.mem_reverse.2 hs)
    have hbytes : bytes = front.reverse ++ slash :: back.reverse := by
      rw [← List.reverse_reverse bytes, hback]
      simp
    have hlast : slash ∉ back.reverse := fun hm => hno (List.mem_reverse.1 hm)
    rw [hbytes, segments_append, segments_of_no_slash hlast] at h
    obtain ⟨hpieces, hl⟩ := List.append_inj' h rfl
    cases hl
    exact ⟨hlast, .inr ⟨_, hpieces, hbytes⟩⟩
  · rw [segments_of_no_slash hs] at h
    obtain ⟨hpieces, hl⟩ := List.append_inj' (show [] ++ [bytes] = pieces ++ [last] from h) rfl
    cases hl
    exact ⟨hs, .inl ⟨hpieces.symm, rfl⟩⟩

theorem getLast?_trim (fuel : Nat) (r : List UInt8) : (withoutLast.trim fuel r).getLast? = r.getLast? := by
  induction fuel generalizing r with
  | zero => rfl
  | succ fuel ih =>
    cases r with
    | nil => rfl
    | cons b rest =>
      rw [withoutLast.trim]
      split
      · next h =>
        rw [ih, List.getLast?_cons_of_ne_nil h.2]
      split
      · next h =>
        have hne : rest ≠ [] := by
          rintro rfl
          simp at h
        rw [ih, List.getLast?_cons_of_ne_nil hne]
      · rfl

/-- A name is not trimmed. -/
theorem trim_name {last : Name} (hno : slash ∉ last) (hlast : ¬ (last = [] ∨ last = [dot] ∨ last = [dot, dot]))
    (fuel : Nat) (r : List UInt8) : withoutLast.trim fuel (last.reverse ++ r) = last.reverse ++ r := by
  cases fuel with
  | zero => rfl
  | succ fuel =>
    cases hl : last.reverse with
    | nil => exact absurd (.inl (List.reverse_eq_nil_iff.1 hl)) hlast
    | cons b more =>
      have hmem : ∀ c ∈ b :: more, c ≠ slash := by
        rintro c hc rfl
        exact hno (List.mem_reverse.1 (hl ▸ hc))
      rw [List.cons_append, withoutLast.trim, if_neg (fun h => hmem b (by simp) h.1), if_neg]
      rintro ⟨rfl, hslash⟩
      cases more with
      | nil => exact hlast (.inr (.inl (by simpa using congrArg List.reverse hl)))
      | cons c rest =>
        simp only [List.cons_append, List.head?_cons, Option.some.injEq] at hslash
        exact hmem c (by simp) hslash

theorem dropWhile_name {last : Name} (hno : slash ∉ last) (r : List UInt8) :
    (last.reverse ++ r).dropWhile (· ≠ slash) = r.dropWhile (· ≠ slash) := by
  apply List.dropWhile_append_of_pos
  intro b hb
  have hne : b ≠ slash := by
    rintro rfl
    exact hno (List.mem_reverse.1 hb)
  simpa using hne

theorem withoutLast_name {last : Name} (hno : slash ∉ last)
    (hlast : ¬ (last = [] ∨ last = [dot] ∨ last = [dot, dot])) : withoutLast last = [] := by
  have htrim := trim_name hno hlast last.length []
  have hdrop := dropWhile_name hno []
  rw [List.append_nil] at htrim hdrop
  rw [withoutLast, htrim, hdrop]
  cases last.length <;> rfl

theorem withoutLast_append {last : Name} (hno : slash ∉ last)
    (hlast : ¬ (last = [] ∨ last = [dot] ∨ last = [dot, dot])) (front : List UInt8) :
    ∃ fuel, withoutLast (front ++ slash :: last) = (withoutLast.trim fuel (slash :: front.reverse)).reverse := by
  refine ⟨(front ++ slash :: last).length, ?_⟩
  have hreverse : (front ++ slash :: last).reverse = last.reverse ++ slash :: front.reverse := by simp
  rw [withoutLast, hreverse, trim_name hno hlast, dropWhile_name hno, List.dropWhile_cons_of_neg (by simp)]

theorem parent?_eq {p : Path} {pieces : List Name} {last : Name} (hs : segments p.bytes = pieces ++ [last])
    (hlast : ¬ (last = [] ∨ last = [dot] ∨ last = [dot, dot])) : p.parent? = some ⟨withoutLast p.bytes⟩ := by
  have hpart : partOf? last = some (.name last) := by
    simp only [not_or] at hlast
    simp [partOf?, hlast]
  have hparts : p.parts.getLast? = some (.name last) := by
    rw [parts, hs, List.filterMap_append]
    split
    · simp [hpart, List.getLast?_cons]
    · split <;> simp [hpart, List.getLast?_cons]
  rw [parent?, hparts]

end Path

namespace FileTree

variable {t : FileTree}

/-- A piece that counts for nothing may be left out at the end of a walk to a directory. -/
theorem walk_concat_iff {dir : Trail} (hd : t.isDirectoryAt dir = true) {n : Name} (hn : n = [] ∨ n = [Path.dot])
    (links : Nat) (origin : Trail) (pieces : List Name) :
    t.walk links origin (pieces ++ [n]) = .ok dir ↔ t.walk links origin pieces = .ok dir := by
  rcases t.walk_append links origin pieces with ⟨e, he⟩ | ⟨links', there, hw⟩
  · have hnil := he []
    rw [List.append_nil] at hnil
    rw [he [n], hnil]
  · have hnil := hw []
    rw [List.append_nil, walk_nil] at hnil
    rw [hw [n], hnil]
    cases ht : t.isDirectoryAt there with
    | true =>
      have hm : t.move there n = .arrive there := by simp [move, ht, hn]
      rw [walk_arrive hm, walk_nil]
    | false =>
      rw [walk_lost (move_of_not_directory ht n)]
      constructor
      · intro h
        cases h
      · intro h
        cases h
        rw [hd] at ht
        cases ht

/-- Trimming a path that leads to a directory leaves where it leads. -/
theorem walk_trim {dir : Trail} (hd : t.isDirectoryAt dir = true) (links : Nat) (origin : Trail) (fuel : Nat)
    {r : List UInt8} (h : t.walk links origin (Path.segments r.reverse) = .ok dir) :
    t.walk links origin (Path.segments (Path.withoutLast.trim fuel r).reverse) = .ok dir := by
  induction fuel generalizing r with
  | zero => exact h
  | succ fuel ih =>
    cases r with
    | nil => exact h
    | cons b rest =>
      rw [Path.withoutLast.trim]
      split
      · next hb =>
        apply ih
        rw [List.reverse_cons, hb.1, Path.segments_append] at h
        exact (walk_concat_iff hd (.inl rfl) links origin _).1 h
      split
      · next hb =>
        apply ih
        obtain ⟨more, rfl⟩ : ∃ more, rest = Path.slash :: more := by
          cases rest with
          | nil => simp at hb
          | cons c more => exact ⟨more, by simpa using hb.2⟩
        rw [hb.1, List.reverse_cons, List.reverse_cons, List.append_assoc, List.singleton_append,
          Path.segments_append] at h
        rw [List.reverse_cons, Path.segments_append]
        exact (walk_concat_iff hd (.inl rfl) links origin _).2 ((walk_concat_iff hd (.inr rfl) links origin _).1 h)
      · exact h

/-- A draft is made in the directory where the file is to be. -/
theorem locate_directoryOf {p : Path} {dir : Trail} {last : Name} (ht : t.target? p = some (dir ++ [last])) :
    t.locate (Draft.directoryOf p) = .ok dir := by
  obtain ⟨dir', last', heq, hd, hl, hlast, hw⟩ := target?_eq_some ht
  obtain ⟨rfl, hll⟩ := List.append_inj' heq rfl
  cases hll
  obtain ⟨pieces, hs⟩ := List.getLast?_eq_some_iff.1 hl
  rw [hs, List.dropLast_concat] at hw
  have hparent := Path.parent?_eq hs hlast
  obtain ⟨hno, ⟨rfl, hbytes⟩ | ⟨front, hfront, hbytes⟩⟩ := Path.bytes_of_segments hs
  · -- the path is a single name
    have hdir : Draft.directoryOf p = .ofString "." := by
      rw [Draft.directoryOf, hparent, hbytes, Path.withoutLast_name hno hlast]
      rfl
    have hstart : t.start p = dir := by
      rw [walk_nil] at hw
      exact Except.ok.inj hw
    have hrelative : p.isAbsolute = false := by
      rw [Path.isAbsolute, hbytes]
      cases hh : last.head? with
      | none => rfl
      | some b =>
        have hne : b ≠ Path.slash := fun h => hno (h ▸ List.mem_of_head? hh)
        simpa using hne
    have hm : t.move dir [Path.dot] = .arrive dir := by simp [move, hd]
    have hdot : t.start (.ofString ".") = dir := by
      rw [← hstart, start, start, hrelative]
      rfl
    have hpieces : Path.segments (Path.ofString ".").bytes = [[Path.dot]] := by decide
    rw [hdir, locate, if_neg (by decide), hdot, hpieces, walk_arrive hm, walk_nil]
  · obtain ⟨fuel, hfuel⟩ := Path.withoutLast_append hno hlast front
    have hhead : (Path.withoutLast p.bytes).head? = p.bytes.head? := by
      rw [hbytes, hfuel, List.head?_reverse, Path.getLast?_trim, ← List.head?_reverse, List.reverse_cons,
        List.reverse_reverse]
      cases front <;> rfl
    have hne : Path.withoutLast p.bytes ≠ [] := by
      intro hnil
      rw [hnil, hbytes] at hhead
      cases front <;> simp at hhead
    have hdir : Draft.directoryOf p = ⟨Path.withoutLast p.bytes⟩ := by
      rw [Draft.directoryOf, hparent, Option.filter_some_pos (by simpa using hne)]
      rfl
    have hstart : t.start ⟨Path.withoutLast p.bytes⟩ = t.start p := by
      rw [start, start, Path.isAbsolute, Path.isAbsolute, hhead]
    have hslash : t.walk linkLimit (t.start p) (Path.segments (Path.slash :: front.reverse).reverse) = .ok dir := by
      rw [List.reverse_cons, List.reverse_reverse, Path.segments_append, hfront]
      exact (walk_concat_iff hd (.inl rfl) linkLimit _ _).2 hw
    rw [hdir, locate, if_neg hne, hstart, hbytes, hfuel]
    exact walk_trim hd linkLimit _ fuel hslash

/-! ## Coming by a location -/

/-- Walking along pieces comes by a location, given what becomes of the walk at a link. -/
def meetsWith (t : FileTree) (place : Trail) (follow : Trail → List Name → Bool) : Trail → List Name → Bool
  | _, [] => false
  | here, n :: rest =>
    decide (here ++ [n] = place) ||
      match t.move here n with
      | .arrive next => meetsWith t place follow next rest
      | .follow next pieces => follow next (pieces ++ rest)
      | .lost _ => false

/-- Walking along pieces, following so many links, comes by a location. -/
def meets (t : FileTree) (place : Trail) : Nat → Trail → List Name → Bool
  | 0 => t.meetsWith place fun _ _ => false
  | links + 1 => t.meetsWith place (meets t place links)

/-- The path leads to a location or through it. -/
def passes (t : FileTree) (place : Trail) (p : Path) : Bool :=
  t.meets place linkLimit (t.start p) (Path.segments p.bytes)

/-- The path leads through a location before its last piece. -/
def passesBefore (t : FileTree) (place : Trail) (p : Path) : Bool :=
  t.meets place linkLimit (t.start p) (Path.segments p.bytes).dropLast

/-- The trees differ at one location at most, and have no directory there. -/
structure SameBut (place : Trail) (t t' : FileTree) : Prop where
  others : ∀ trail, trail ≠ place → t.entryAt? trail = t'.entryAt? trail
  left : t.isDirectoryAt place = false
  right : t'.isDirectoryAt place = false
  start_eq : t.workingDirectory = t'.workingDirectory

namespace SameBut

variable {place : Trail} {t' : FileTree}

theorem isDirectoryAt (h : SameBut place t t') (here : Trail) : t.isDirectoryAt here = t'.isDirectoryAt here := by
  by_cases hh : here = place
  · rw [hh, h.left, h.right]
  · apply isDirectoryAt_congr
    rw [outlineAt?_eq_entryAt?, outlineAt?_eq_entryAt?, h.others here hh]

theorem move (h : SameBut place t t') {here : Trail} {n : Name} (hne : here ++ [n] ≠ place) :
    t.move here n = t'.move here n := by
  apply move_congr (h.isDirectoryAt here)
  rw [outlineAt?_eq_entryAt?, outlineAt?_eq_entryAt?, h.others _ hne]

theorem start (h : SameBut place t t') (p : Path) : t.start p = t'.start p := by
  rw [FileTree.start, FileTree.start, h.start_eq]

private theorem walkWith (h : SameBut place t t') {follow follow' : Trail → List Name → Except ReadError Trail}
    {met met' : Trail → List Name → Bool}
    (hf : ∀ here pieces, met here pieces = met' here pieces ∧
      (met here pieces = false → follow here pieces = follow' here pieces))
    (here : Trail) (pieces : List Name) :
    t.meetsWith place met here pieces = t'.meetsWith place met' here pieces ∧
      (t.meetsWith place met here pieces = false →
        t.walkWith follow here pieces = t'.walkWith follow' here pieces) := by
  induction pieces generalizing here with
  | nil => exact ⟨rfl, fun _ => rfl⟩
  | cons n rest ih =>
    simp only [meetsWith, FileTree.walkWith]
    by_cases hne : here ++ [n] = place
    · simp [hne]
    · rw [← h.move hne]
      cases t.move here n with
      | lost cause => simp
      | arrive next => simpa [hne] using ih next
      | follow next more => simpa [hne] using hf next (more ++ rest)

/-- A walk comes by the location in both trees or in neither, and then it is the same in both. -/
theorem walk (h : SameBut place t t') (links : Nat) (here : Trail) (pieces : List Name) :
    t.meets place links here pieces = t'.meets place links here pieces ∧
      (t.meets place links here pieces = false → t.walk links here pieces = t'.walk links here pieces) := by
  induction links generalizing here pieces with
  | zero => exact h.walkWith (fun _ _ => ⟨rfl, fun _ => rfl⟩) here pieces
  | succ links ih => exact h.walkWith ih here pieces

theorem locate (h : SameBut place t t') {p : Path} (hp : t.passes place p = false) : t.locate p = t'.locate p := by
  rw [FileTree.locate, FileTree.locate, ← h.start p, (h.walk _ _ _).2 hp]

end SameBut

/-- A move does not end at a location. -/
def Move.Avoids (place : Trail) : Move → Prop
  | .arrive next | .follow next _ => next ≠ place
  | .lost _ => True

section

variable {place : Trail}

/-- Only its own last name leads to what is no directory. -/
theorem move_avoids (hplace : place ≠ []) (hd : t.isDirectoryAt place = false) {here : Trail} {n : Name}
    (hne : here ++ [n] ≠ place) : (t.move here n).Avoids place := by
  unfold move
  split
  · trivial
  next hdir =>
  rw [Bool.not_eq_true', Bool.not_eq_false] at hdir
  have hhere : here ≠ place := by
    rintro rfl
    rw [hd] at hdir
    cases hdir
  split
  · exact hhere
  split
  · -- nothing is below the location, so no way leads up to it
    rintro rfl
    obtain ⟨k, hk⟩ : ∃ k, here = here.dropLast ++ [k] := by
      cases here with
      | nil => exact absurd rfl hplace
      | cons a rest => exact ⟨_, (List.dropLast_append_getLast (by simp)).symm⟩
    obtain ⟨m, children, hx⟩ := exists_of_isDirectoryAt hdir
    rw [hk, find?_below hd] at hx
    cases hx
  cases t.top.find? (here ++ [n]) with
  | none => trivial
  | some e =>
    cases e with
    | file bytes m => exact hne
    | directory m children => exact hne
    | link target =>
      show (if target.isAbsolute then [] else here) ≠ place
      split
      · exact hplace.symm
      · exact hhere

private theorem walkWith_ne (hplace : place ≠ []) (hd : t.isDirectoryAt place = false)
    {follow : Trail → List Name → Except ReadError Trail} {met : Trail → List Name → Bool}
    {there : Trail}
    (hf : ∀ here pieces, here ≠ place → met here pieces = false → follow here pieces = .ok there → there ≠ place)
    {here : Trail} {pieces : List Name} (hh : here ≠ place ∨ pieces ≠ [])
    (hm : t.meetsWith place met here pieces = false) (hw : t.walkWith follow here pieces = .ok there) :
    there ≠ place := by
  induction pieces generalizing here with
  | nil =>
    cases hw
    simpa using hh
  | cons n rest ih =>
    simp only [meetsWith, Bool.or_eq_false_iff, decide_eq_false_iff_not] at hm
    have hmove := move_avoids hplace hd hm.1
    simp only [FileTree.walkWith] at hw
    cases hv : t.move here n with
    | lost cause => simp [hv] at hw
    | arrive next =>
      rw [hv] at hm hw hmove
      exact ih (.inl hmove) hm.2 hw
    | follow next more =>
      rw [hv] at hm hw hmove
      exact hf _ _ hmove hm.2 hw

/-- A walk that does not come by a location does not end there. -/
theorem walk_ne (hplace : place ≠ []) (hd : t.isDirectoryAt place = false) {links : Nat} {here there : Trail}
    {pieces : List Name} (hh : here ≠ place ∨ pieces ≠ []) (hm : t.meets place links here pieces = false)
    (hw : t.walk links here pieces = .ok there) : there ≠ place := by
  induction links generalizing here pieces with
  | zero =>
    refine walkWith_ne hplace hd ?_ hh hm hw
    intro _ _ _ _ h
    cases h
  | succ links ih => exact walkWith_ne hplace hd (fun _ _ hne hmet h => ih (.inl hne) hmet h) hh hm hw

/-- A file that a path leads to without coming by the location is the same in both trees. -/
theorem SameBut.file? {t' : FileTree} (h : SameBut place t t') (hplace : place ≠ []) {p : Path}
    (hp : t.passes place p = false) : t.file? p = t'.file? p := by
  have hl := h.locate hp
  cases ht : t.locate p with
  | error e =>
    rw [ht] at hl
    simp [FileTree.file?, find, ht, ← hl, bind, Except.bind]
  | ok there =>
    have hne : there ≠ place := by
      rw [FileTree.locate] at ht
      split at ht
      · cases ht
      · exact walk_ne hplace h.left (.inr (Path.segments_ne_nil _)) hp ht
    rw [file?_of_locate ht, file?_of_locate (hl ▸ ht), h.others there hne]

end

/-! ## The tree after a write -/

section

variable {dir : Trail} {last : Name}

private theorem walkWith_meets (hd : t.isDirectoryAt (dir ++ [last]) = false)
    (hmove : t.move dir last = .arrive (dir ++ [last])) {follow : Trail → List Name → Except ReadError Trail}
    {met : Trail → List Name → Bool} {there : Trail}
    (hf : ∀ here pieces, met here pieces = true → follow here pieces = .ok there → t.isDirectoryAt there = false)
    {here : Trail} {pieces : List Name} (hm : t.meetsWith (dir ++ [last]) met here pieces = true)
    (hw : t.walkWith follow here pieces = .ok there) : t.isDirectoryAt there = false := by
  induction pieces generalizing here with
  | nil => cases hm
  | cons n rest ih =>
    simp only [FileTree.walkWith] at hw
    by_cases hne : here ++ [n] = dir ++ [last]
    · obtain ⟨rfl, hl⟩ := List.append_inj' hne rfl
      cases hl
      rw [hmove] at hw
      dsimp only at hw
      cases rest with
      | nil =>
        cases hw
        exact hd
      | cons k more =>
        rw [walkWith_of_not_directory hd _ (by simp)] at hw
        cases hw
    · simp only [meetsWith, hne, decide_false, Bool.false_or] at hm
      cases hv : t.move here n with
      | lost cause => simp [hv] at hw
      | arrive next =>
        rw [hv] at hm hw
        exact ih hm hw
      | follow next more =>
        rw [hv] at hm hw
        exact hf _ _ hm hw

/-- No walk that comes by a file ends in a directory. -/
theorem walk_meets (hd : t.isDirectoryAt (dir ++ [last]) = false) (hmove : t.move dir last = .arrive (dir ++ [last]))
    {links : Nat} {here there : Trail} {pieces : List Name}
    (hm : t.meets (dir ++ [last]) links here pieces = true) (hw : t.walk links here pieces = .ok there) :
    t.isDirectoryAt there = false := by
  induction links generalizing here pieces with
  | zero =>
    refine walkWith_meets hd hmove ?_ hm hw
    intro _ _ h
    cases h
  | succ links ih => exact walkWith_meets hd hmove (fun _ _ hmet h => ih hmet h) hm hw

end

section

variable {p : Path} {place : Trail} (ht : t.target? p = some place) (hn : t.isDirectoryAt place = false)
  (bytes : List UInt8) (m : Nat)

include ht hn

theorem sameBut_set : SameBut place t (t.set place (.file bytes m)) where
  others trail hne := ((replaced_set ht hn bytes m).others trail hne).symm
  left := hn
  right := by
    obtain ⟨dir, last, rfl, hd, _⟩ := target?_eq_some ht
    rw [isDirectoryAt_set hd hn, hn]
  start_eq := rfl

/-- After a write the path of the file has the same target, unless it leads through what was there before. -/
theorem target?_set :
    (t.set place (.file bytes m)).target? p = if t.passesBefore place p then none else some place := by
  have hsame := sameBut_set ht hn bytes m
  obtain ⟨dir, last, rfl, hd, hl, hlast, hw⟩ := target?_eq_some ht
  obtain ⟨hmeets, hwalk⟩ := hsame.walk linkLimit (t.start p) (Path.segments p.bytes).dropLast
  rw [target?, hl, ← hsame.start p]
  simp only [Option.bind_eq_bind, Option.bind_some, hlast, if_false]
  cases hp : t.passesBefore (dir ++ [last]) p with
  | false =>
    rw [← hwalk hp, hw]
    dsimp only
    rw [← hsame.isDirectoryAt dir, hd]
    rfl
  | true =>
    cases hr : (t.set (dir ++ [last]) (.file bytes m)).walk linkLimit (t.start p) (Path.segments p.bytes).dropLast with
    | error e => rfl
    | ok there =>
      have hno := walk_meets hsame.right (move_set_self hd hn bytes m hlast) (hmeets.symm.trans hp) hr
      dsimp only
      rw [hno]
      rfl

/-- The mode of what was written is kept by the next write. -/
theorem modeFor_set (hp : t.passesBefore place p = false) : (t.set place (.file bytes m)).modeFor p = m := by
  have hsame := sameBut_set ht hn bytes m
  obtain ⟨dir, last, rfl, hd, hl, hlast, hw⟩ := target?_eq_some ht
  obtain ⟨pieces, hs⟩ := List.getLast?_eq_some_iff.1 hl
  have hwalk := (hsame.walk _ _ _).2 hp
  rw [hw, hs, List.dropLast_concat, hsame.start p] at hwalk
  have hlocate : (t.set (dir ++ [last]) (.file bytes m)).locate p = .ok (dir ++ [last]) := by
    have hne : p.bytes ≠ [] := by
      intro h
      simp only [h, Path.segments, List.getLast?_singleton, Option.some.injEq] at hl
      exact hlast (.inl hl.symm)
    rw [locate, if_neg hne, hs]
    rcases walk_append _ linkLimit ((t.set (dir ++ [last]) (.file bytes m)).start p) pieces with
      ⟨e, he⟩ | ⟨links, there, hmore⟩
    · have hnil := he []
      rw [List.append_nil, ← hwalk] at hnil
      cases hnil
    · have hnil := hmore []
      rw [List.append_nil, ← hwalk, walk_nil] at hnil
      cases hnil
      rw [hmore, walk_arrive (move_set_self hd hn bytes m hlast), walk_nil]
  obtain ⟨m', children, hx⟩ := exists_of_isDirectoryAt hd
  have hfind : (t.set (dir ++ [last]) (.file bytes m)).top.find? (dir ++ [last]) = some (.file bytes m) := by
    simp [set, Entry.find?_alter_self _ hx]
  simp [modeFor, find, hlocate, hfind, bind, Except.bind, pure, Except.pure, Entry.mode]

end

theorem set_set (place : Trail) (e e' : Entry) : (t.set place e).set place e' = t.set place e' := by
  simp [set, Entry.alter_alter_some]

end FileTree

/-- What is neither at a location nor above or below it stays as a whole. -/
theorem Entry.find?_alter_of_apart (f : Option Entry → Option Entry) (e : Entry) {place trail : Trail}
    (hbelow : ¬ place <+: trail) (habove : ¬ trail <+: place) : (e.alter f place).find? trail = e.find? trail := by
  fun_induction alter f e place generalizing trail with
  | case1 m children n =>
    cases trail with
    | nil => exact absurd (List.nil_prefix) habove
    | cons k rest =>
      have hk : k ≠ n := by
        rintro rfl
        exact hbelow ⟨rest, rfl⟩
      simp [find?, lookup_putChild_of_ne hk]
  | case2 m children n below hb x hx ih =>
    cases trail with
    | nil => exact absurd (List.nil_prefix) habove
    | cons k rest =>
      by_cases hk : k = n
      · subst hk
        simp only [List.cons_prefix_cons, true_and] at hbelow habove
        simpa [find?, hx, lookup_setChild_self] using ih hbelow habove
      · simp [find?, lookup_setChild_of_ne hk]
  | case3 m children n below hb hx => rfl
  | case4 e place h₁ h₂ => rfl

end ReactCatalog
