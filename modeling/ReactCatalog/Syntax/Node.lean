import ReactCatalog.Syntax.Kind

/-!
# Syntax trees

A node covers a span of its source. It carries no text of its own: `Source.text` cuts the text out of the
source. Comments are nodes like any other; blanks between nodes belong to no node.
-/

namespace ReactCatalog

/-- Half-open range of character positions. -/
structure Span where
  start : Nat
  stop : Nat
  deriving DecidableEq, Repr, Inhabited

/-- What a reader had to do to a text that its grammar does not allow. -/
inductive Flaw where
  /-- Characters that fit nowhere. -/
  | unexpected
  /-- A token put in where the text has none. -/
  | missing
  deriving DecidableEq, Repr

/-- A syntax tree. Each child may play a named part in its parent. -/
inductive Node where
  | mk (kind : Kind) (span : Span) (flaw : Option Flaw) (children : List (Option Field × Node))
  deriving Inhabited

namespace Node

def kind : Node → Kind
  | mk k _ _ _ => k

def span : Node → Span
  | mk _ s _ _ => s

def flaw : Node → Option Flaw
  | mk _ _ f _ => f

/-- Children with the parts they play. -/
def parts : Node → List (Option Field × Node)
  | mk _ _ _ cs => cs

def start (n : Node) : Nat := n.span.start

def stop (n : Node) : Nat := n.span.stop

def children (n : Node) : List Node := n.parts.map Prod.snd

def isNamed (n : Node) : Bool := n.kind.isNamed

/-- The first child that plays the part `f`. -/
def field? (n : Node) (f : Field) : Option Node :=
  (n.parts.find? fun p => p.1 == some f).map Prod.snd

theorem sizeOf_lt_of_mem_children {n c : Node} (h : c ∈ n.children) : sizeOf c < sizeOf n := by
  obtain ⟨k, s, f, ps⟩ := n
  obtain ⟨p, hp, rfl⟩ := List.mem_map.1 h
  have h₁ : sizeOf p < sizeOf ps := List.sizeOf_lt_of_mem hp
  obtain ⟨a, b⟩ := p
  simp only [Node.mk.sizeOf_spec, Prod.mk.sizeOf_spec] at *
  omega

end Node

/-- A source text, as characters. -/
structure Source where
  chars : Array Char
  deriving Inhabited

namespace Source

def ofString (s : String) : Source := ⟨s.toList.toArray⟩

def size (s : Source) : Nat := s.chars.size

/-- The characters of a range. -/
def slice (s : Source) (start stop : Nat) : List Char := (s.chars.extract start stop).toList

/-- The text that a node covers. -/
def text (s : Source) (n : Node) : String := String.ofList (s.slice n.start n.stop)

end Source

end ReactCatalog
