import ReactCatalog.Syntax.Node

/-!
# Places in a syntax tree

A place is a node together with the way down to it: the ancestors, nearest first, each with the position of the
child taken. From a place one can look at the parent and at the siblings, and two places of one tree are the
same exactly when their paths are.
-/

namespace ReactCatalog

structure Place where
  source : Source
  node : Node
  /-- Ancestors, nearest first, each with the position of the child on the way down. -/
  above : List (Node × Nat)
  deriving Inhabited

namespace Place

/-- The place of a whole tree. -/
def root (source : Source) (node : Node) : Place := ⟨source, node, []⟩

def kind (p : Place) : Kind := p.node.kind

def start (p : Place) : Nat := p.node.start

def stop (p : Place) : Nat := p.node.stop

def isNamed (p : Place) : Bool := p.node.isNamed

/-- The text that the place covers. -/
def text (p : Place) : String := p.source.text p.node

/-- Positions of the children taken from here up to the root. -/
def path (p : Place) : List Nat := p.above.map Prod.snd

/-- The place one step down. -/
def down (p : Place) (i : Nat) (c : Node) : Place := ⟨p.source, c, (p.node, i) :: p.above⟩

def children (p : Place) : List Place :=
  p.node.children.zipIdx.map fun c => p.down c.2 c.1

def namedChildren (p : Place) : List Place := p.children.filter isNamed

/-- The first child that plays the part `f`. -/
def field? (p : Place) (f : Field) : Option Place :=
  (p.node.parts.zipIdx.find? fun c => c.1.1 == some f).map fun c => p.down c.2 c.1.2

/-- The text of the first child that plays the part `f`. -/
def fieldText? (p : Place) (f : Field) : Option String := (p.field? f).map text

def parent? (p : Place) : Option Place :=
  match p.above with
  | [] => none
  | (n, _) :: up => some ⟨p.source, n, up⟩

/-- The sibling just before, named or not. -/
def previous? (p : Place) : Option Place :=
  match p.above with
  | (n, i + 1) :: up => n.children[i]?.map fun c => ⟨p.source, c, (n, i) :: up⟩
  | _ => none

/-- A keyword or mark among the children. -/
def hasSymbol (p : Place) (text : String) : Bool :=
  p.children.any fun c => c.kind == .symbol && c.text == text

/-- All places below, the place itself first, each before those below it. -/
def preorder (p : Place) : List Place :=
  p :: p.node.children.zipIdx.attach.flatMap fun ⟨c, _⟩ => (p.down c.2 c.1).preorder
termination_by sizeOf p.node
decreasing_by
  exact Node.sizeOf_lt_of_mem_children (List.mem_of_getElem? (List.mk_mem_zipIdx_iff_getElem?.1 ‹_›))

theorem mem_node_children {p c : Place} (h : c ∈ p.children) : c.node ∈ p.node.children := by
  obtain ⟨⟨n, i⟩, hm, rfl⟩ := List.mem_map.1 h
  exact List.mem_of_getElem? (List.mk_mem_zipIdx_iff_getElem?.1 hm)

theorem sizeOf_node_lt_of_mem_children {p c : Place} (h : c ∈ p.children) : sizeOf c.node < sizeOf p.node :=
  Node.sizeOf_lt_of_mem_children (mem_node_children h)

theorem mem_children_of_mem_namedChildren {p c : Place} (h : c ∈ p.namedChildren) : c ∈ p.children :=
  (List.mem_filter.1 h).1

theorem sizeOf_node_lt_of_mem_namedChildren {p c : Place} (h : c ∈ p.namedChildren) :
    sizeOf c.node < sizeOf p.node :=
  sizeOf_node_lt_of_mem_children (mem_children_of_mem_namedChildren h)

theorem mem_children_of_field? {p c : Place} {f : Field} (h : p.field? f = some c) : c ∈ p.children := by
  obtain ⟨⟨⟨g, n⟩, i⟩, hf, rfl⟩ := Option.map_eq_some_iff.1 h
  have hm := List.mk_mem_zipIdx_iff_getElem?.1 (List.mem_of_find?_eq_some hf)
  refine List.mem_map.2 ⟨(n, i), List.mk_mem_zipIdx_iff_getElem?.2 ?_, rfl⟩
  simp [Node.children, hm]

theorem sizeOf_node_lt_of_field? {p c : Place} {f : Field} (h : p.field? f = some c) :
    sizeOf c.node < sizeOf p.node :=
  sizeOf_node_lt_of_mem_children (mem_children_of_field? h)

end Place

end ReactCatalog
