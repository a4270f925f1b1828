import ReactCatalog.Syntax.Place

/-!
# Flaws in a syntax tree

A tree read from a text outside its grammar holds flawed nodes. The first flaw is the first flawed node in
preorder; the search keeps a stack of nodes still to visit and skips every subtree that is not flagged as flawed.
-/

namespace ReactCatalog

namespace Node

/-- The node or one below it is flawed. -/
def isFlawed (n : Node) : Bool :=
  n.flaw.isSome || n.children.attach.any fun ⟨c, _⟩ => c.isFlawed
termination_by sizeOf n
decreasing_by exact Node.sizeOf_lt_of_mem_children ‹_›

/-- The node and all below it, each before those below it. -/
def preorder (n : Node) : List Node :=
  n :: n.children.attach.flatMap fun ⟨c, _⟩ => c.preorder
termination_by sizeOf n
decreasing_by exact Node.sizeOf_lt_of_mem_children ‹_›

/-- The children of a node, put on a stack in its place, make a smaller stack. -/
theorem sizeOf_children_append_lt (n : Node) (rest : List Node) :
    sizeOf (n.children ++ rest) < sizeOf (n :: rest) := by
  obtain ⟨k, s, f, ps⟩ := n
  have h : ∀ qs : List (Option Field × Node),
      sizeOf (qs.map Prod.snd ++ rest) ≤ sizeOf qs + sizeOf rest := by
    intro qs
    induction qs with
    | nil => simp only [List.map_nil, List.nil_append]; omega
    | cons q qs ih =>
      obtain ⟨a, b⟩ := q
      simp only [List.map_cons, List.cons_append, List.cons.sizeOf_spec, Prod.mk.sizeOf_spec]
      omega
  have := h ps
  simp only [Node.children, Node.parts, List.cons.sizeOf_spec, Node.mk.sizeOf_spec]
  omega

/-- Visit a stack of nodes, top first, until a flawed one is met. What is below a node without a flag is skipped. -/
def searchFlaw (flagged : Node → Bool) : List Node → Option Node
  | [] => none
  | n :: rest =>
    if n.flaw.isSome then some n
    else if flagged n then searchFlaw flagged (n.children ++ rest)
    else searchFlaw flagged rest
termination_by stack => sizeOf stack
decreasing_by
  · exact sizeOf_children_append_lt n rest
  · rw [List.cons.sizeOf_spec]; omega

/-- The first flawed node of a flagged tree, or the top if the search meets none. -/
def firstFlagged? (flagged : Node → Bool) (n : Node) : Option Node :=
  if flagged n then some ((searchFlaw flagged [n]).getD n) else none

/-- The first flawed node. -/
def firstFlaw? (n : Node) : Option Node := n.firstFlagged? isFlawed

end Node

/-- A position as people count it: lines and columns from one, columns in bytes of UTF-8. -/
structure Location where
  line : Nat
  column : Nat
  deriving DecidableEq, Repr

/-- The location behind a character. -/
def Location.behind (l : Location) (c : Char) : Location :=
  if c = '\n' then ⟨l.line + 1, 1⟩ else ⟨l.line, l.column + c.utf8Size⟩

/-- Where a character position lies. -/
def Source.locate (s : Source) (pos : Nat) : Location := (s.chars.toList.take pos).foldl Location.behind ⟨1, 1⟩

end ReactCatalog
