import Mathlib.Data.String.Basic
import ReactCatalog.Data.Dictionary

/-!
# Looking up in lists of pairs

A dictionary is read through `Dictionary.find?`. Each operation is described by what it does to that view; none of
these laws needs the keys to be sorted. That each key stands once is what `Dictionary.Sorted` says, and all operations
keep it.
-/

namespace ReactCatalog

theorem lookup_cons_ite {α β : Type} [BEq α] [LawfulBEq α] [DecidableEq α] (a k : α) (b : β) (rest : List (α × β)) :
    List.lookup a ((k, b) :: rest) = if a = k then some b else List.lookup a rest := by
  by_cases h : a = k
  · subst h
    simp
  · have hb : (a == k) = false := by simp [h]
    simp [List.lookup_cons, hb, h]

namespace Dictionary

variable {α : Type}

theorem find?_insert_self (key : String) (value : α) (d : Dictionary α) :
    find? (insert key value d) key = some value := by
  unfold find?
  induction d with
  | nil => simp [insert]
  | cons m rest ih =>
    obtain ⟨k, v⟩ := m
    unfold insert
    split
    · simp
    · split
      · simp
      · next hk => rw [lookup_cons_ite, if_neg hk, ih]

theorem find?_insert_of_ne {key other : String} (hne : other ≠ key) (value : α) (d : Dictionary α) :
    find? (insert key value d) other = find? d other := by
  unfold find?
  induction d with
  | nil => simp [insert, lookup_cons_ite, hne]
  | cons m rest ih =>
    obtain ⟨k, v⟩ := m
    unfold insert
    split
    · rw [lookup_cons_ite, if_neg hne]
    · split
      · next hk =>
        subst hk
        rw [lookup_cons_ite, lookup_cons_ite, if_neg hne, if_neg hne]
      · rw [lookup_cons_ite, lookup_cons_ite, ih]

theorem find?_modify_self (key : String) (initial : α) (f : α → α) (d : Dictionary α) :
    find? (modify key initial f d) key = some (f ((find? d key).getD initial)) :=
  find?_insert_self _ _ _

theorem find?_modify_of_ne {key other : String} (hne : other ≠ key) (initial : α) (f : α → α)
    (d : Dictionary α) : find? (modify key initial f d) other = find? d other :=
  find?_insert_of_ne hne _ _

theorem find?_erase_self (key : String) (d : Dictionary α) : find? (erase key d) key = none := by
  unfold find? erase
  rw [List.lookup_eq_none_iff]
  intro m hm
  simpa [bne_iff_ne, ne_comm] using (List.mem_filter.1 hm).2

theorem find?_erase_of_ne {key other : String} (hne : other ≠ key) (d : Dictionary α) :
    find? (erase key d) other = find? d other := by
  unfold find? erase
  induction d with
  | nil => rfl
  | cons m rest ih =>
    obtain ⟨k, v⟩ := m
    by_cases hk : k = key
    · subst hk
      rw [List.filter_cons_of_neg (by simp), ih, lookup_cons_ite, if_neg hne]
    · rw [List.filter_cons_of_pos (by simpa using hk), lookup_cons_ite, lookup_cons_ite, ih]

/-- Entries with different keys go before what was there. -/
theorem find?_overlay {entries : List (String × α)} (h : (keys entries).Nodup) (base : Dictionary α) (key : String) :
    find? (overlay base entries) key = (find? entries key).or (find? base key) := by
  unfold overlay
  induction entries generalizing base with
  | nil => rfl
  | cons m rest ih =>
    obtain ⟨k, v⟩ := m
    obtain ⟨hk, hrest⟩ := List.nodup_cons.1 h
    rw [List.foldl_cons, ih hrest]
    show _ = (List.lookup key ((k, v) :: rest)).or _
    rw [lookup_cons_ite]
    by_cases hkey : key = k
    · subst hkey
      have hnone : find? rest key = none := by
        unfold find?
        rw [List.lookup_eq_none_iff]
        intro m hm
        have hne : m.1 ≠ key := fun he => hk (List.mem_map.2 ⟨m, hm, he⟩)
        simpa using Ne.symm hne
      rw [hnone, find?_insert_self, if_pos rfl]
      rfl
    · rw [find?_insert_of_ne hkey, if_neg hkey]
      rfl

/-! ## Sorted dictionaries -/

/-- The keys increase. -/
def Sorted (d : Dictionary α) : Prop := d.Pairwise fun m n => m.1 < n.1

instance (d : Dictionary α) : Decidable (Sorted d) := inferInstanceAs (Decidable (List.Pairwise _ _))

theorem Sorted.nodup_keys {d : Dictionary α} (h : Sorted d) : (keys d).Nodup := by
  unfold keys List.Nodup
  rw [List.pairwise_map]
  exact h.imp fun hlt => hlt.ne

theorem mem_insert {key : String} {value : α} {d : Dictionary α} {m : String × α} (h : m ∈ insert key value d) :
    m = (key, value) ∨ m ∈ d := by
  induction d with
  | nil => exact .inl (List.mem_singleton.1 h)
  | cons n rest ih =>
    unfold insert at h
    split at h
    · exact List.mem_cons.1 h
    · split at h
      · rcases List.mem_cons.1 h with h | h
        · exact .inl h
        · exact .inr (List.mem_cons_of_mem _ h)
      · rcases List.mem_cons.1 h with h | h
        · exact .inr (h ▸ List.mem_cons_self)
        · exact (ih h).imp_right (List.mem_cons_of_mem _)

theorem Sorted.insert {d : Dictionary α} (h : Sorted d) (key : String) (value : α) :
    Sorted (insert key value d) := by
  induction d with
  | nil => exact List.pairwise_singleton _ _
  | cons n rest ih =>
    obtain ⟨k, v⟩ := n
    obtain ⟨hk, hrest⟩ := List.pairwise_cons.1 h
    unfold Dictionary.insert
    split
    · next hlt =>
      refine List.pairwise_cons.2 ⟨?_, h⟩
      intro m hm
      rcases List.mem_cons.1 hm with rfl | hm
      · exact hlt
      · exact hlt.trans (hk m hm)
    · next hnlt =>
      split
      · next heq => exact List.pairwise_cons.2 ⟨heq ▸ hk, hrest⟩
      · next hne =>
        refine List.pairwise_cons.2 ⟨?_, ih hrest⟩
        intro m hm
        rcases mem_insert hm with rfl | hm
        · exact lt_of_le_of_ne (not_lt.1 hnlt) (Ne.symm hne)
        · exact hk m hm

theorem Sorted.overlay {base : Dictionary α} (h : Sorted base) (entries : List (String × α)) :
    Sorted (overlay base entries) := by
  unfold Dictionary.overlay
  induction entries generalizing base with
  | nil => exact h
  | cons m rest ih => exact ih (h.insert m.1 m.2)

theorem sorted_ofList (entries : List (String × α)) : Sorted (ofList entries) :=
  Sorted.overlay List.Pairwise.nil entries

theorem Sorted.erase {d : Dictionary α} (h : Sorted d) (key : String) : Sorted (erase key d) := h.filter _

theorem mem_of_find? {d : Dictionary α} {key : String} {value : α} (h : find? d key = some value) :
    (key, value) ∈ d := by
  obtain ⟨before, after, rfl, _⟩ := List.lookup_eq_some_iff.1 h
  exact List.mem_append_right before List.mem_cons_self

theorem find?_eq_none_iff {d : Dictionary α} {key : String} : find? d key = none ↔ key ∉ keys d := by
  unfold find? keys
  rw [List.lookup_eq_none_iff, List.mem_map]
  constructor
  · rintro h ⟨m, hm, rfl⟩
    simpa using h m hm
  · intro h m hm
    have hne : key ≠ m.1 := fun he => h ⟨m, hm, he.symm⟩
    simpa using hne

theorem find?_cons (m : String × α) (rest : Dictionary α) (key : String) :
    find? (m :: rest) key = if key = m.1 then some m.2 else find? rest key :=
  lookup_cons_ite key m.1 m.2 rest

theorem Sorted.find?_head {m : String × α} {rest : Dictionary α} (h : Sorted (m :: rest)) {key : String}
    (hkey : key < m.1) : find? (m :: rest) key = none := by
  rw [find?_eq_none_iff]
  intro hmem
  obtain ⟨n, hn, rfl⟩ := List.mem_map.1 hmem
  rcases List.mem_cons.1 hn with rfl | hn
  · exact lt_irrefl _ hkey
  · exact lt_asymm hkey ((List.pairwise_cons.1 h).1 n hn)

theorem Sorted.find?_tail {m : String × α} {rest : Dictionary α} (h : Sorted (m :: rest)) :
    find? rest m.1 = none :=
  find?_eq_none_iff.2 (List.nodup_cons.1 h.nodup_keys).1

/-- A sorted dictionary is known by what it has under each key. -/
theorem Sorted.ext {d d' : Dictionary α} (h : Sorted d) (h' : Sorted d')
    (hfind : ∀ key, find? d key = find? d' key) : d = d' := by
  induction d generalizing d' with
  | nil =>
    cases d' with
    | nil => rfl
    | cons n rest' =>
      have hn := hfind n.1
      rw [find?_cons, if_pos rfl] at hn
      cases hn
  | cons m rest ih =>
    cases d' with
    | nil =>
      have hm := hfind m.1
      rw [find?_cons, if_pos rfl] at hm
      cases hm
    | cons n rest' =>
      have hkey : m.1 = n.1 := by
        rcases lt_trichotomy m.1 n.1 with hlt | heq | hlt
        · have hfound := hfind m.1
          rw [h'.find?_head hlt, find?_cons, if_pos rfl] at hfound
          cases hfound
        · exact heq
        · have hfound := hfind n.1
          rw [h.find?_head hlt, find?_cons, if_pos rfl] at hfound
          cases hfound
      have hvalue : m.2 = n.2 := by
        have hfound := hfind m.1
        rwa [find?_cons, find?_cons, if_pos rfl, if_pos hkey, Option.some.injEq] at hfound
      -- under the first key both tails have nothing, under any other what the whole has
      have htail : ∀ key, find? rest key = find? rest' key := by
        intro key
        by_cases he : key = m.1
        · subst he
          rw [h.find?_tail, hkey, h'.find?_tail]
        · have hfound := hfind key
          rwa [find?_cons, find?_cons, if_neg he, if_neg (hkey ▸ he)] at hfound
      rw [Prod.ext hkey hvalue, ih (List.pairwise_cons.1 h).2 (List.pairwise_cons.1 h').2 htail]

theorem find?_insert (key : String) (value : α) (d : Dictionary α) (other : String) :
    find? (insert key value d) other = if other = key then some value else find? d other := by
  by_cases h : other = key
  · rw [if_pos h, h, find?_insert_self]
  · rw [if_neg h, find?_insert_of_ne h]

/-- Values put under different keys may be put in either order. -/
theorem Sorted.insert_comm {d : Dictionary α} (h : Sorted d) {key key' : String} (hne : key ≠ key') (v v' : α) :
    Dictionary.insert key v (Dictionary.insert key' v' d) = Dictionary.insert key' v' (Dictionary.insert key v d) := by
  apply Sorted.ext ((h.insert key' v').insert key v) ((h.insert key v).insert key' v')
  intro other
  simp only [find?_insert]
  by_cases hk : other = key
  · rw [if_pos hk, if_neg (hk ▸ hne), if_pos hk]
  · rw [if_neg hk, if_neg hk]

theorem mem_of_mem_overlay {base : Dictionary α} {entries : List (String × α)} {m : String × α}
    (h : m ∈ overlay base entries) : m ∈ entries ∨ m ∈ base := by
  induction entries generalizing base with
  | nil => exact .inr h
  | cons n rest ih =>
    rcases ih h with hm | hm
    · exact .inl (List.mem_cons_of_mem _ hm)
    · rcases mem_insert hm with rfl | hm
      · exact .inl List.mem_cons_self
      · exact .inr hm

theorem mem_of_mem_ofList {entries : List (String × α)} {m : String × α} (h : m ∈ ofList entries) : m ∈ entries :=
  (mem_of_mem_overlay h).resolve_right List.not_mem_nil

/-- A dictionary is made of its own members. -/
theorem Sorted.ofList_eq {d : Dictionary α} (h : Sorted d) : ofList d = d := by
  refine (sorted_ofList d).ext h fun key => ?_
  have hfind := find?_overlay h.nodup_keys [] key
  exact hfind.trans Option.or_none

/-- Of entries that share a key the last one counts. -/
theorem find?_ofList (entries : List (String × α)) (key : String) :
    find? (ofList entries) key = (entries.filter fun m => m.1 = key).getLast?.map Prod.snd := by
  have hbase : ∀ base : Dictionary α, find? (overlay base entries) key =
      ((entries.filter fun m => m.1 = key).getLast?.map Prod.snd).or (find? base key) := by
    induction entries with
    | nil => intro base; rfl
    | cons m rest ih =>
      intro base
      refine (ih (insert m.1 m.2 base)).trans ?_
      rw [find?_insert]
      by_cases hm : m.1 = key
      · rw [if_pos hm.symm, List.filter_cons_of_pos (by simpa using hm), List.getLast?_cons]
        cases (rest.filter fun m => m.1 = key).getLast? <;> rfl
      · rw [if_neg (Ne.symm hm), List.filter_cons_of_neg (by simpa using hm)]
  exact (hbase []).trans Option.or_none

end Dictionary

end ReactCatalog
