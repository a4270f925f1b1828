import Mathlib.Data.List.DropRight
import Mathlib.Data.List.TakeWhile
import ReactCatalog.Text.Blank

/-!
# Trimming

What is left of a text without the blanks at its ends, and when that is nothing, all of it, or the same from one end as
from both.
-/

namespace ReactCatalog

theorem trimEndList_eq_self {cs : List Char} (h : ∀ c, cs.getLast? = some c → Text.isBlank c = false) :
    Text.trimEndList cs = cs := by
  refine List.rdropWhile_eq_self_iff.2 fun hne => ?_
  rw [h _ (List.getLast?_eq_some_getLast hne)]
  exact Bool.false_ne_true

theorem trimEndList_subset (cs : List Char) : Text.trimEndList cs ⊆ cs := (List.rdropWhile_prefix _ cs).subset

theorem trimEndList_eq_nil_iff (cs : List Char) :
    Text.trimEndList cs = [] ↔ ∀ c ∈ cs, Text.isBlank c = true := by
  unfold Text.trimEndList Text.dropEndWhile
  rw [List.reverse_eq_nil_iff, List.dropWhile_eq_nil_iff]
  simp only [List.mem_reverse]

theorem trimEndList_ne_nil {cs : List Char} (h : ∃ c ∈ cs, Text.isBlank c = false) : Text.trimEndList cs ≠ [] := by
  obtain ⟨c, hc, hblank⟩ := h
  intro hnil
  have hall := (trimEndList_eq_nil_iff cs).1 hnil c hc
  rw [hblank] at hall
  cases hall

/-- Blanks at the end do not reach beyond a character that is none. -/
theorem trimEndList_cons {c : Char} (h : Text.isBlank c = false) (cs : List Char) :
    Text.trimEndList (c :: cs) = c :: Text.trimEndList cs := by
  rw [Text.trimEndList, Text.trimEndList, Text.dropEndWhile, Text.dropEndWhile, List.reverse_cons,
    List.dropWhile_append]
  split
  · next hnil => simp [List.isEmpty_iff.1 hnil, h]
  · simp

/-- What is taken from the end leaves the first character where it is. -/
theorem head?_trimEndList {cs : List Char} {c : Char} (h : (Text.trimEndList cs).head? = some c) :
    cs.head? = some c := by
  obtain ⟨rest, hrest⟩ := List.rdropWhile_prefix Text.isBlank cs
  have hcs : Text.trimEndList cs ++ rest = cs := hrest
  rw [← hcs, List.head?_append, h]
  rfl

/-- Nothing is left of blanks, and something of every other text. -/
theorem trim_isEmpty_iff (s : String) : (Text.trim s).isEmpty = true ↔ ∀ c ∈ s.toList, Text.isBlank c = true := by
  have hlist : (Text.trim s).isEmpty = true ↔ Text.trimEndList (s.toList.dropWhile Text.isBlank) = [] := by
    unfold Text.trim Text.trimList Text.trimStartList
    rw [String.isEmpty_iff, ← String.toList_inj, String.toList_ofList]
    rfl
  rw [hlist, trimEndList_eq_nil_iff]
  constructor
  · intro h c hc
    rw [← List.takeWhile_append_dropWhile (p := Text.isBlank) (l := s.toList)] at hc
    rcases List.mem_append.1 hc with hc | hc
    · exact List.mem_takeWhile_imp hc
    · exact h c hc
  · intro h c hc
    exact h c ((List.dropWhile_sublist _).subset hc)

end ReactCatalog
