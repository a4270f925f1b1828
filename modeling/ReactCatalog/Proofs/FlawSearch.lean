import Mathlib.Algebra.GroupWithZero.Nat
import Mathlib.Data.List.DropRight
import ReactCatalog.Component.Extract

/-!
# Searching for the first flaw

The search for a flawed node goes by flags: a node is flagged if it or one below it is flawed. If the flags are right
(`Node.ConsistentFlags`), skipping what is not flagged loses nothing. What is on the stack then is what a plain search
in preorder has not looked at yet (`Node.searchFlaw_eq_find?`), so both find the same node, and a flagged tree never
leaves the search without one (`first_flaw_of_flags`).
-/

namespace ReactCatalog

namespace Node

theorem preorder_eq (n : Node) : n.preorder = n :: n.children.flatMap preorder := by
  rw [preorder]
  simp

theorem mem_preorder_self (n : Node) : n ∈ n.preorder := by
  rw [preorder_eq]
  exact List.mem_cons_self

theorem mem_preorder_of_child {n c m : Node} (hc : c ∈ n.children) (hm : m ∈ c.preorder) : m ∈ n.preorder := by
  rw [preorder_eq]
  exact List.mem_cons_of_mem n (List.mem_flatMap.2 ⟨c, hc, hm⟩)

/-- The node or one below it is flawed, as a plain look at all of them tells. -/
def HoldsFlaw (n : Node) : Prop := ∃ m ∈ n.preorder, m.flaw.isSome = true

theorem holdsFlaw_iff (n : Node) : n.HoldsFlaw ↔ n.flaw.isSome = true ∨ ∃ c ∈ n.children, c.HoldsFlaw := by
  unfold HoldsFlaw
  rw [preorder_eq]
  constructor
  · rintro ⟨m, hm, hflaw⟩
    rcases List.mem_cons.1 hm with rfl | hm
    · exact .inl hflaw
    · obtain ⟨c, hc, hmc⟩ := List.mem_flatMap.1 hm
      exact .inr ⟨c, hc, m, hmc, hflaw⟩
  · rintro (hflaw | ⟨c, hc, m, hm, hflaw⟩)
    · exact ⟨n, List.mem_cons_self, hflaw⟩
    · exact ⟨m, List.mem_cons_of_mem n (List.mem_flatMap.2 ⟨c, hc, hm⟩), hflaw⟩

/-- A node of the tree is flagged exactly if it or one below it is flawed. -/
def ConsistentFlags (flagged : Node → Bool) (n : Node) : Prop :=
  ∀ m ∈ n.preorder, flagged m = true ↔ m.HoldsFlaw

theorem ConsistentFlags.child {flagged : Node → Bool} {n c : Node} (h : ConsistentFlags flagged n)
    (hc : c ∈ n.children) : ConsistentFlags flagged c :=
  fun m hm => h m (mem_preorder_of_child hc hm)

/-- The flags that are worked out from the flaws are right. -/
theorem isFlawed_iff (n : Node) : n.isFlawed = true ↔ n.HoldsFlaw := by
  induction n using isFlawed.induct with
  | case1 n ih =>
    rw [isFlawed, holdsFlaw_iff, Bool.or_eq_true, List.any_eq_true]
    refine or_congr_right ⟨?_, ?_⟩
    · rintro ⟨⟨c, hc⟩, _, hflawed⟩
      exact ⟨c, hc, (ih c hc).1 hflawed⟩
    · rintro ⟨c, hc, hflaw⟩
      exact ⟨⟨c, hc⟩, List.mem_attach _ _, (ih c hc).2 hflaw⟩

theorem consistentFlags_isFlawed (n : Node) : ConsistentFlags isFlawed n := fun m _ => isFlawed_iff m

/-- Nothing in a tree without flag is flawed. -/
theorem find?_preorder_of_unflagged {flagged : Node → Bool} {n : Node} (h : ConsistentFlags flagged n)
    (hn : flagged n = false) : n.preorder.find? (fun m => m.flaw.isSome) = none := by
  rw [List.find?_eq_none]
  intro m hm hflaw
  have hflag := (h n (mem_preorder_self n)).2 ⟨m, hm, hflaw⟩
  rw [hn] at hflag
  cases hflag

/-- The stack holds what a search in preorder has still to look at. -/
theorem searchFlaw_eq_find? {flagged : Node → Bool} {stack : List Node} (h : ∀ n ∈ stack, ConsistentFlags flagged n) :
    searchFlaw flagged stack = (stack.flatMap preorder).find? fun m => m.flaw.isSome := by
  fun_induction searchFlaw flagged stack with
  | case1 => rfl
  | case2 n rest hflaw =>
    rw [List.flatMap_cons, preorder_eq, List.cons_append,
      List.find?_cons_of_pos (p := fun m : Node => m.flaw.isSome) hflaw]
  | case3 n rest hflaw hflag ih =>
    have hn := h n List.mem_cons_self
    have hstack : ∀ m ∈ n.children ++ rest, ConsistentFlags flagged m := by
      intro m hm
      rcases List.mem_append.1 hm with hm | hm
      · exact hn.child hm
      · exact h m (List.mem_cons_of_mem n hm)
    rw [ih hstack, List.flatMap_cons, preorder_eq, List.cons_append,
      List.find?_cons_of_neg (p := fun m : Node => m.flaw.isSome) hflaw, List.flatMap_append]
  | case4 n rest _ hflag ih =>
    have hnone := find?_preorder_of_unflagged (h n List.mem_cons_self) (Bool.eq_false_iff.2 hflag)
    rw [ih fun m hm => h m (List.mem_cons_of_mem n hm), List.flatMap_cons, List.find?_append, hnone, Option.none_or]

/-- A search that starts at a flagged node meets a flawed one. -/
theorem searchFlaw_ne_none {flagged : Node → Bool} {n : Node} (h : ConsistentFlags flagged n) (hn : flagged n = true) :
    searchFlaw flagged [n] ≠ none := by
  obtain ⟨m, hm, hflaw⟩ := (h n (mem_preorder_self n)).1 hn
  rw [searchFlaw_eq_find? (List.forall_mem_singleton.2 h), List.flatMap_singleton]
  intro hnone
  exact List.find?_eq_none.1 hnone m hm hflaw

theorem firstFlagged?_eq_find? {flagged : Node → Bool} {n : Node} (h : ConsistentFlags flagged n) :
    n.firstFlagged? flagged = n.preorder.find? fun m => m.flaw.isSome := by
  unfold firstFlagged?
  split
  · next hflag =>
    obtain ⟨m, hm⟩ := Option.ne_none_iff_exists'.1 (searchFlaw_ne_none h hflag)
    have hfind := searchFlaw_eq_find? (List.forall_mem_singleton.2 h)
    rw [List.flatMap_singleton] at hfind
    rw [hm, Option.getD_some, ← hfind, hm]
  · next hflag => exact (find?_preorder_of_unflagged h (Bool.eq_false_iff.2 hflag)).symm

end Node

/-! ## Locations -/

theorem line_foldl_behind (cs : List Char) (l : Location) :
    (cs.foldl Location.behind l).line = l.line + cs.count '\n' := by
  induction cs generalizing l with
  | nil => rfl
  | cons c cs ih =>
    rw [List.foldl_cons, ih, List.count_cons, Location.behind]
    by_cases hc : c = '\n'
    · simp only [hc, if_true, beq_self_eq_true]
      omega
    · simp [hc]

theorem column_foldl_behind {line : List Char} (h : '\n' ∉ line) (l : Location) :
    (line.foldl Location.behind l).column = l.column + (line.map Char.utf8Size).sum := by
  induction line generalizing l with
  | nil => rfl
  | cons c line ih =>
    obtain ⟨hc, hline⟩ := not_or.1 (List.mem_cons.not.1 h)
    rw [List.foldl_cons, ih hline, Location.behind, if_neg (Ne.symm hc), List.map_cons, List.sum_cons]
    exact Nat.add_assoc _ _ _

/-- The characters end where a line begins. -/
def EndsLine (cs : List Char) : Prop := cs = [] ∨ cs.getLast? = some '\n'

theorem EndsLine.column {cs : List Char} (h : EndsLine cs) : (cs.foldl Location.behind ⟨1, 1⟩).column = 1 := by
  rcases h with rfl | h
  · rfl
  · obtain ⟨lines, rfl⟩ := List.getLast?_eq_some_iff.1 h
    rw [List.foldl_append, List.foldl_cons, List.foldl_nil, Location.behind, if_pos rfl]

/-- The location of a character position: how many lines end before it, and how many bytes of its own line are before
it, both counted from one. -/
def Source.IsAt (s : Source) (pos : Nat) (l : Location) : Prop :=
  ∃ lines line, s.chars.toList.take pos = lines ++ line ∧ EndsLine lines ∧ '\n' ∉ line ∧
    l = ⟨lines.count '\n' + 1, (line.map Char.utf8Size).sum + 1⟩

/-- Characters are whole lines and the beginning of one more. -/
theorem exists_lines (cs : List Char) : ∃ lines line, cs = lines ++ line ∧ EndsLine lines ∧ '\n' ∉ line := by
  induction cs using List.reverseRecOn with
  | nil => exact ⟨[], [], rfl, .inl rfl, List.not_mem_nil⟩
  | append_singleton cs c ih =>
    by_cases hc : c = '\n'
    · subst hc
      exact ⟨cs ++ ['\n'], [], (List.append_nil _).symm, .inr List.getLast?_concat, List.not_mem_nil⟩
    · obtain ⟨lines, line, rfl, hlines, hline⟩ := ih
      refine ⟨lines, line ++ [c], List.append_assoc _ _ _, hlines, ?_⟩
      simp [hline, Ne.symm hc]

theorem isAt_iff (s : Source) (pos : Nat) (l : Location) : s.IsAt pos l ↔ l = s.locate pos := by
  have hlocate : ∀ lines line, s.chars.toList.take pos = lines ++ line → EndsLine lines → '\n' ∉ line →
      s.locate pos = ⟨lines.count '\n' + 1, (line.map Char.utf8Size).sum + 1⟩ := by
    intro lines line hsplit hlines hline
    have hnone : line.count '\n' = 0 := List.count_eq_zero.2 hline
    have hl : (s.locate pos).line = lines.count '\n' + 1 := by
      rw [Source.locate, line_foldl_behind, hsplit, List.count_append, hnone]
      exact Nat.add_comm _ _
    have hcolumn : (s.locate pos).column = (line.map Char.utf8Size).sum + 1 := by
      rw [Source.locate, hsplit, List.foldl_append, column_foldl_behind hline, hlines.column]
      exact Nat.add_comm _ _
    rw [← hl, ← hcolumn]
  constructor
  · rintro ⟨lines, line, hsplit, hlines, hline, rfl⟩
    exact (hlocate lines line hsplit hlines hline).symm
  · rintro rfl
    obtain ⟨lines, line, hsplit, hlines, hline⟩ := exists_lines (s.chars.toList.take pos)
    exact ⟨lines, line, hsplit, hlines, hline, hlocate lines line hsplit hlines hline⟩

/-! ## The first flaw of a text -/

theorem parseProgram_eq_badSyntax_iff {d : Dialect} {text : String} {l : Location} :
    parseProgram d text = .error (.badSyntax l) ↔
      ∃ m, ((Source.ofString text).parse d).firstFlaw? = some m ∧ l = (Source.ofString text).locate m.start := by
  unfold parseProgram
  dsimp only
  split
  · next m hm => simp [hm, eq_comm]
  · next hm => simp [hm]

/-- If the flags of a tree are right, the search by flags finds the node that a search of the whole tree in preorder
finds, at its line and column, and none exactly if no node is flawed. It never leaves a flagged tree without having met
a flawed node. The flags that texts are searched by are right, so a text is refused with the location of the first
flawed node of its tree. -/
theorem first_flaw_of_flags {flagged : Node → Bool} {n : Node} (h : n.ConsistentFlags flagged) (s : Source) :
    (n.firstFlagged? flagged = none ↔ ∀ m ∈ n.preorder, m.flaw = none) ∧
    n.firstFlagged? flagged = n.preorder.find? (fun m => m.flaw.isSome) ∧
    (∀ l, (n.firstFlagged? flagged).map (fun m => s.locate m.start) = some l ↔
      ∃ m, n.preorder.find? (fun m => m.flaw.isSome) = some m ∧ s.IsAt m.start l) ∧
    (flagged n = true → Node.searchFlaw flagged [n] ≠ none) ∧
    ∀ d text l, parseProgram d text = .error (.badSyntax l) ↔
      ∃ m, ((Source.ofString text).parse d).preorder.find? (fun m => m.flaw.isSome) = some m ∧
        (Source.ofString text).IsAt m.start l := by
  have hfind := Node.firstFlagged?_eq_find? h
  refine ⟨?_, hfind, fun l => ?_, Node.searchFlaw_ne_none h, fun d text l => ?_⟩
  · rw [hfind, List.find?_eq_none]
    simp only [Bool.not_eq_true, Option.isSome_eq_false_iff, Option.isNone_iff_eq_none]
  · rw [hfind, Option.map_eq_some_iff]
    simp only [isAt_iff, eq_comm]
  · rw [parseProgram_eq_badSyntax_iff, Node.firstFlaw?, Node.firstFlagged?_eq_find? (Node.consistentFlags_isFlawed _)]
    simp only [isAt_iff]

/-- A module whose second line has a token put in and after it characters that fit nowhere. -/
def flawedText : String := "a;\né = ;\n)"

def flawedTree : Node :=
  .mk .program ⟨0, 10⟩ none [
    (none, .mk .expressionStatement ⟨0, 2⟩ none [(none, .mk .identifier ⟨0, 1⟩ none [])]),
    (none, .mk .expressionStatement ⟨3, 8⟩ none [
      (none, .mk .assignmentExpression ⟨3, 7⟩ none [
        (some .left, .mk .identifier ⟨3, 4⟩ none []),
        (some .right, .mk .identifier ⟨7, 7⟩ (some .missing) [])])]),
    (none, .mk .flaw ⟨9, 10⟩ (some .unexpected) [])]

/-- The token comes before the characters, behind five bytes of its line. -/
theorem broken_first_flaw :
    flawedTree.ConsistentFlags Node.isFlawed ∧
      (flawedTree.preorder.filter fun m => m.flaw.isSome).map Node.span = [⟨7, 7⟩, ⟨9, 10⟩] ∧
      (flawedTree.firstFlagged? Node.isFlawed).map (fun m => (Source.ofString flawedText).locate m.start) =
        some ⟨2, 6⟩ ∧
      Node.searchFlaw Node.isFlawed [flawedTree] ≠ none := by
  have hright := Node.consistentFlags_isFlawed flawedTree
  obtain ⟨_, hfind, _, hmet, _⟩ := first_flaw_of_flags hright (Source.ofString flawedText)
  refine ⟨hright, by decide +kernel, ?_, hmet (by decide +kernel)⟩
  rw [hfind]
  decide +kernel

end ReactCatalog
