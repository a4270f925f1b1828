import ReactCatalog.Component.Docblock
import ReactCatalog.Proofs.Trimming

/-!
# Written documentation comments

Lines of text are written as a documentation comment, each behind a star (`docblockOf`). Reading takes off what writing
put on, whatever the lines hold: they may be indented, empty, or begin with stars of their own. What is read from any
comment is again such lines, so writing and reading it once more changes nothing (`docblock_read_back`).
-/

namespace ReactCatalog

/-- Lines as a documentation comment, with a gutter of stars. -/
def docblockOf (lines : List String) : String :=
  "/**\n" ++ String.join (lines.map fun l => " * " ++ l ++ "\n") ++ " */"

/-- Characters that make one line, with no blank at its end. -/
structure IsDocLine (line : List Char) : Prop where
  one_line : '\n' ∉ line
  no_blank_end : ∀ c, line.getLast? = some c → Text.isBlank c = false

instance (line : List Char) : Decidable (IsDocLine line) :=
  decidable_of_iff ('\n' ∉ line ∧ (line.getLast?.all fun c => !Text.isBlank c) = true)
    ⟨fun ⟨h₁, h₂⟩ => ⟨h₁, fun c hc => by simpa [hc] using h₂⟩,
      fun h => ⟨h.1, by cases hc : line.getLast? <;> simp [h.no_blank_end, hc]⟩⟩

/-- Lines without blanks at their ends, of which the first and the last are not empty. -/
structure AreDocLines (lines : List String) : Prop where
  line : ∀ l ∈ lines, IsDocLine l.toList
  first : lines.head? ≠ some ""
  last : lines.getLast? ≠ some ""

/-- The lines of a text. -/
def linesOf (text : String) : List String := (text.toList.splitOn '\n').map String.ofList

/-! ## One line -/

/-- A line behind its star is read as it is. -/
theorem docLine_gutter {line : List Char} (h : IsDocLine line) : docLine (' ' :: '*' :: ' ' :: line) = line := by
  have hstart : Text.trimStartList (' ' :: '*' :: ' ' :: line) = '*' :: ' ' :: line := by
    have hspace : Text.isBlank ' ' = true := by decide
    have hstar : Text.isBlank '*' = false := by decide
    simp [Text.trimStartList, hspace, hstar]
  cases hline : line with
  | nil => decide
  | cons a rest =>
    rw [hline] at h hstart
    -- the last character is that of the line, so nothing is cut off behind
    have hend : Text.trimEndList ('*' :: ' ' :: a :: rest) = '*' :: ' ' :: a :: rest := by
      refine trimEndList_eq_self fun c hc => h.no_blank_end c ?_
      rwa [List.getLast?_cons_cons, List.getLast?_cons_cons] at hc
    unfold docLine Text.trimList
    rw [hstart, hend]
    exact trimEndList_eq_self h.no_blank_end

theorem docLine_subset (line : List Char) : docLine line ⊆ line := by
  have htrim : Text.trimList line ⊆ line := fun c hc => (List.dropWhile_suffix _).subset (trimEndList_subset _ hc)
  intro c hc
  unfold docLine at hc
  dsimp only at hc
  replace hc := trimEndList_subset _ hc
  apply htrim
  generalize Text.trimList line = cs at hc ⊢
  split at hc
  · next r hr =>
    replace hc := List.mem_cons_of_mem ' ' hc
    rw [← hr] at hc
    split at hc
    · exact List.mem_cons_of_mem _ hc
    · exact hc
  · split at hc
    · exact List.mem_cons_of_mem _ hc
    · exact hc

/-! ## Lines -/

theorem chop_reverse {line : List Char} (h : line.getLast? ≠ some '\r') : Text.lines.chop line.reverse = line := by
  unfold Text.lines.chop
  split
  · next acc hacc =>
    rw [List.getLast?_eq_head?_reverse, hacc] at h
    exact absurd rfl h
  · exact List.reverse_reverse line

theorem lines_go_line {line : List Char} (h : '\n' ∉ line) (rest acc : List Char) :
    Text.lines.go (line ++ '\n' :: rest) acc = Text.lines.chop (line.reverse ++ acc) :: Text.lines.go rest [] := by
  induction line generalizing acc with
  | nil => rw [List.nil_append, Text.lines.go]; rfl
  | cons c line ih =>
    rw [List.mem_cons, not_or] at h
    rw [List.cons_append, Text.lines.go, ih h.2, List.reverse_cons, List.append_assoc]
    · rfl
    · exact fun hc => h.1 hc.symm

theorem newline_not_mem_chop {acc : List Char} (h : '\n' ∉ acc) : '\n' ∉ Text.lines.chop acc := by
  unfold Text.lines.chop
  split
  · rw [List.mem_reverse]
    exact fun hmem => h (List.mem_cons_of_mem _ hmem)
  · rwa [List.mem_reverse]

theorem newline_not_mem_lines_go {cs acc : List Char} (h : '\n' ∉ acc) : ∀ l ∈ Text.lines.go cs acc, '\n' ∉ l := by
  fun_induction Text.lines.go cs acc with
  | case1 => simp
  | case2 acc _ => simpa using h
  | case3 acc rest ih => exact List.forall_mem_cons.2 ⟨newline_not_mem_chop h, ih (by simp)⟩
  | case4 acc c rest hc ih =>
    refine ih ?_
    rw [List.mem_cons, not_or]
    exact ⟨fun hnew => hc hnew.symm, h⟩

/-- What is read of a line is a line without a blank at its end. -/
theorem isDocLine_of_mem_lines {body line : List Char} (h : line ∈ (Text.lines body).map docLine) :
    IsDocLine line := by
  obtain ⟨l, hl, rfl⟩ := List.mem_map.1 h
  refine ⟨fun hmem => newline_not_mem_lines_go (by simp) l hl (docLine_subset l hmem), fun c hc => ?_⟩
  exact Text.getLast?_dropEndWhile hc

/-- The lines of a written comment are read as what was written, between two empty ones. -/
theorem lines_of_gutter {ls : List (List Char)} (h : ∀ l ∈ ls, IsDocLine l) :
    (Text.lines ('\n' :: (ls.flatMap fun l => " * ".toList ++ l ++ ['\n']) ++ [' '])).map docLine =
      [] :: ls ++ [[]] := by
  have hrest : (Text.lines.go ((ls.flatMap fun l => " * ".toList ++ l ++ ['\n']) ++ [' ']) []).map docLine =
      ls ++ [[]] := by
    induction ls with
    | nil => decide
    | cons l ls ih =>
      obtain ⟨hl, hls⟩ := List.forall_mem_cons.1 h
      have hline : '\n' ∉ " * ".toList ++ l := by
        rw [List.mem_append, not_or]
        exact ⟨by decide, hl.one_line⟩
      have hreturn : (" * ".toList ++ l).getLast? ≠ some '\r' := by
        rw [List.getLast?_append]
        cases hlast : l.getLast? with
        | none => decide
        | some c =>
          intro hc
          cases hc
          exact absurd (hl.no_blank_end _ hlast) (by decide)
      rw [List.flatMap_cons, List.append_assoc, List.append_assoc, List.singleton_append, lines_go_line hline,
        List.append_nil, chop_reverse hreturn, List.map_cons, ih hls]
      exact congrArg (· :: (ls ++ [[]])) (docLine_gutter hl)
  have hfirst : Text.lines ('\n' :: (ls.flatMap fun l => " * ".toList ++ l ++ ['\n']) ++ [' ']) =
      [] :: Text.lines.go ((ls.flatMap fun l => " * ".toList ++ l ++ ['\n']) ++ [' ']) [] :=
    @lines_go_line [] (by simp) _ []
  rw [hfirst, List.map_cons, hrest]
  rfl

/-! ## Reading -/

/-- Lines without the empty ones at either end. -/
def innerLines (ls : List (List Char)) : List (List Char) := (ls.dropWhile List.isEmpty).rdropWhile List.isEmpty

theorem docblockText?_eq_some_iff {comment text : String} :
    docblockText? comment = some text ↔ ∃ body,
      Text.trimList comment.toList = "/**".toList ++ (body ++ "*/".toList) ∧
      text = String.ofList (['\n'].intercalate (innerLines ((Text.lines body).map docLine))) := by
  unfold docblockText?
  simp only [Option.bind_eq_bind, Option.bind_eq_some_iff, Text.dropLeading?_eq_some_iff,
    Text.dropTrailing?_eq_some_iff]
  constructor
  · rintro ⟨_, hlead, body, rfl, htext⟩
    exact ⟨body, hlead, (Option.some.inj htext).symm⟩
  · rintro ⟨body, hlead, rfl⟩
    exact ⟨_, hlead, body, rfl, rfl⟩

/-- Empty lines around are left out. -/
theorem innerLines_framed (ls : List (List Char)) : innerLines ([] :: ls ++ [[]]) = innerLines ls := by
  have hfirst : ([] :: ls ++ [[]]).dropWhile List.isEmpty = (ls ++ [[]]).dropWhile List.isEmpty := rfl
  unfold innerLines
  rw [hfirst, List.dropWhile_append]
  split
  · next hempty =>
    rw [List.isEmpty_iff.1 hempty]
    rfl
  · exact List.rdropWhile_concat_pos _ _ _ rfl

theorem innerLines_eq_self {ls : List (List Char)} (hfirst : ls.head? ≠ some []) (hlast : ls.getLast? ≠ some []) :
    innerLines ls = ls := by
  have hdrop : ls.dropWhile List.isEmpty = ls := by
    cases ls with
    | nil => rfl
    | cons l ls =>
      rw [List.dropWhile_cons_of_neg]
      rw [List.isEmpty_iff]
      rintro rfl
      exact hfirst rfl
  rw [innerLines, hdrop]
  refine List.rdropWhile_eq_self_iff.2 fun hne hempty => hlast ?_
  rw [List.getLast?_eq_some_getLast hne, List.isEmpty_iff.1 hempty]

/-- The first and the last of the lines that are left are not empty. -/
theorem ends_innerLines (ls : List (List Char)) :
    (innerLines ls).head? ≠ some [] ∧ (innerLines ls).getLast? ≠ some [] := by
  have hprefix : innerLines ls <+: ls.dropWhile List.isEmpty := List.rdropWhile_prefix _ _
  constructor
  · intro h
    have hhead := List.head?_dropWhile_not List.isEmpty ls
    obtain ⟨rest, hrest⟩ := List.head?_eq_some_iff.1 h
    obtain ⟨more, hmore⟩ := hprefix
    rw [← hmore, hrest] at hhead
    cases hhead
  · intro h
    have hne : innerLines ls ≠ [] := by
      rintro hnil
      rw [hnil] at h
      cases h
    rw [List.getLast?_eq_some_getLast hne, Option.some.injEq] at h
    exact List.rdropWhile_last_not _ _ hne (List.isEmpty_iff.2 h)

theorem mem_of_mem_innerLines {ls : List (List Char)} {l : List Char} (h : l ∈ innerLines ls) : l ∈ ls :=
  (List.dropWhile_suffix _).subset ((List.rdropWhile_prefix _ _).subset h)

theorem toList_docblockOf (lines : List String) :
    (docblockOf lines).toList = "/**".toList ++
      ('\n' :: ((lines.map String.toList).flatMap fun l => " * ".toList ++ l ++ ['\n']) ++ [' '] ++ "*/".toList) := by
  unfold docblockOf
  simp [String.toList_join, List.flatMap_map]

/-- A written comment is read as the lines between the empty ones at either end. -/
theorem docblockText?_docblockOf {lines : List String} (h : ∀ l ∈ lines, IsDocLine l.toList) :
    docblockText? (docblockOf lines) =
      some (String.ofList (['\n'].intercalate (innerLines (lines.map String.toList)))) := by
  have htrim : Text.trimList (docblockOf lines).toList = (docblockOf lines).toList := by
    have hstart : Text.trimStartList (docblockOf lines).toList = (docblockOf lines).toList := by
      rw [toList_docblockOf]
      exact List.dropWhile_cons_of_neg (by decide)
    rw [Text.trimList, hstart]
    refine trimEndList_eq_self fun c hc => ?_
    rw [toList_docblockOf, List.getLast?_append, List.getLast?_append] at hc
    cases hc
    decide
  refine docblockText?_eq_some_iff.2 ⟨_, htrim.trans (toList_docblockOf lines), ?_⟩
  rw [lines_of_gutter, innerLines_framed]
  simpa using h

/-- Lines that were joined can be told apart again; of no lines at all there is an empty one. -/
theorem linesOf_intercalate {ls : List (List Char)} (h : ∀ l ∈ ls, '\n' ∉ l) :
    linesOf (String.ofList (['\n'].intercalate ls)) = if ls = [] then [""] else ls.map String.ofList := by
  unfold linesOf
  rw [String.toList_ofList]
  split
  · next hnil =>
    rw [hnil]
    rfl
  · next hne => rw [List.splitOn_intercalate '\n' h hne]

theorem map_toList_eq_some_nil_iff {line? : Option String} : line?.map String.toList = some [] ↔ line? = some "" := by
  cases line? <;> simp

/-- Lines are read from a documentation comment as they were written. What is read from any comment has no blank at the
end of a line and no empty line at either end, and is the same when it is written and read again. -/
theorem docblock_read_back :
    (∀ lines : List String, AreDocLines lines →
      docblockText? (docblockOf lines) = some ("\n".intercalate lines)) ∧
    ∀ comment text : String, docblockText? comment = some text →
      (∀ l ∈ linesOf text, IsDocLine l.toList) ∧
      (text = "" ∨ (linesOf text).head? ≠ some "" ∧ (linesOf text).getLast? ≠ some "") ∧
      docblockText? (docblockOf (linesOf text)) = some text := by
  constructor
  · intro lines h
    have hinner : innerLines (lines.map String.toList) = lines.map String.toList := by
      apply innerLines_eq_self
      · rw [List.head?_map, ne_eq, map_toList_eq_some_nil_iff]
        exact h.first
      · rw [List.getLast?_map, ne_eq, map_toList_eq_some_nil_iff]
        exact h.last
    rw [docblockText?_docblockOf h.line, hinner, Option.some.injEq, ← String.toList_inj, String.toList_ofList,
      String.toList_intercalate]
    rfl
  · intro comment text h
    obtain ⟨body, _, rfl⟩ := docblockText?_eq_some_iff.1 h
    obtain ⟨hfirst, hlast⟩ := ends_innerLines ((Text.lines body).map docLine)
    have hline : ∀ l ∈ innerLines ((Text.lines body).map docLine), IsDocLine l :=
      fun l hl => isDocLine_of_mem_lines (mem_of_mem_innerLines hl)
    generalize innerLines ((Text.lines body).map docLine) = ls at hfirst hlast hline ⊢
    rw [linesOf_intercalate fun l hl => (hline l hl).one_line]
    have hchars : (ls.map String.ofList).map String.toList = ls := by
      rw [List.map_map]
      exact (List.map_congr_left fun l _ => String.toList_ofList).trans (List.map_id ls)
    split
    · next hnil =>
      have hempty : ∀ l ∈ [""], IsDocLine l.toList := by decide
      refine ⟨hempty, .inl (by rw [hnil]; rfl), ?_⟩
      rw [docblockText?_docblockOf hempty, hnil]
      rfl
    · have hlines : ∀ l ∈ ls.map String.ofList, IsDocLine l.toList := by
        intro l hl
        obtain ⟨cs, hcs, rfl⟩ := List.mem_map.1 hl
        rw [String.toList_ofList]
        exact hline cs hcs
      refine ⟨hlines, .inr ⟨?_, ?_⟩, ?_⟩
      · rw [ne_eq, ← map_toList_eq_some_nil_iff, ← List.head?_map, hchars]
        exact hfirst
      · rw [ne_eq, ← map_toList_eq_some_nil_iff, ← List.getLast?_map, hchars]
        exact hlast
      · rw [docblockText?_docblockOf hlines, hchars, innerLines_eq_self hfirst hlast]

/-- A line that begins with a star, an empty one, and one that is indented by a blank of another kind; and a comment
that is laid out in another way. -/
theorem indented_lines_read_back :
    AreDocLines ["* first", "", "\u00a0 caf\u00e9"] ∧
    docblockText? (docblockOf ["* first", "", "\u00a0 caf\u00e9"]) = some "* first\n\n\u00a0 caf\u00e9" ∧
    docblockText? "/**\n\n  plain \n * starred\n */" = some "plain\nstarred" ∧
    docblockText? (docblockOf (linesOf "plain\nstarred")) = some "plain\nstarred" := by
  have h : AreDocLines ["* first", "", "\u00a0 caf\u00e9"] := ⟨by decide, by decide, by decide⟩
  have hread : docblockText? "/**\n\n  plain \n * starred\n */" = some "plain\nstarred" := by decide +kernel
  exact ⟨h, docblock_read_back.1 _ h, hread, (docblock_read_back.2 _ _ hread).2.2⟩

end ReactCatalog
