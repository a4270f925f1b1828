import ReactCatalog.Grammar.Statement
import ReactCatalog.Grammar.Type

/-!
# Programs

The rules of the language, tied together, and the tree of a whole source file. The depth to which constructs can
nest is bounded by the length of the source, so the recursion gets a budget that no source uses up.
-/

namespace ReactCatalog

namespace Grammar

open Rule

/-- The rule for each goal, given rules for the goals inside it. -/
def rules (g : Grammar) : Grammar
  | .statement => statement g
  | .declaration => declaration g
  | .block e => block g e
  | .expression => expression g
  | .sequence => sequence g
  | .operand => operand g
  | .binary n => binary g n
  | .arguments => arguments g
  | .template => template g
  | .object => object g
  | .propertyName => propertyName g
  | .decorator => decorator g
  | .classBody => classBody g
  | .binding => binding g
  | .parameters => parameters g
  | .signature => signature g
  | .element => element g
  | .typ => typ g
  | .primaryType => primaryType g
  | .typeNote => typeNote g
  | .typeArguments => typeArguments g
  | .typeParameters => typeParameters g
  | .objectType => objectType g

/-- The grammar to a depth. -/
def toDepth : Nat → Grammar
  | 0, _ => never
  | n + 1, goal => fun s pos => rules (toDepth n) goal s pos

/-- Constructs nest at most about a dozen goals deep at each character. -/
def depthFor (s : Source) : Nat := 24 * (s.size + 2)

private def hashBang : Rule :=
  tight .hashBangLine fun s i =>
    if i == 0 && s.hasAt "#!".toList 0 then some (s.skipWhile (· != '\n') 0) else none

/-- The statements of a source, as far as they can be read. -/
def statements (d : Dialect) (s : Source) : Reply :=
  seq [opt hashBang, many (toDepth (depthFor s) .statement)] { dialect := d, source := s } 0

end Grammar

namespace Source

private def comments (s : Source) (pos : Nat) : List (Option Field × Node) :=
  (s.trivia pos).1.map fun c => (none, Node.mk .comment c none [])

private def programOf (s : Source) (ps : List Piece) (pos : Nat) (rest : List (Option Field × Node)) : Node :=
  let first := (ps.head?.map fun p => (s.comments 0).filter fun c => c.2.stop ≤ p.span.start).getD []
  .mk .program ⟨0, s.size⟩ none (first ++ Rule.weave s ps ++ rest ++ (if rest.isEmpty then s.comments pos else []))

/-! ## Flaws

Where a source leaves the grammar, a flaw is put where the least change would let reading go on: at a token that is
left out, or at a place where one is missing. -/

/-- A way to go on. -/
private structure Repair where
  flaw : Flaw
  span : Span
  cost : Nat
  source : Source
  /-- Reading must get past this position for the change to help. -/
  goal : Nat

/-- How far a source can be read, and whether to the end. -/
private def progress (d : Dialect) (s : Source) : Nat × Bool :=
  match Grammar.statements d s with
  | .stuck r => (r, false)
  | .ok _ pos reach => (max reach pos, s.atEnd (s.tokenStart pos))

private def blankOut (s : Source) (span : Span) : Source :=
  ⟨(s.chars.toList.zipIdx.map fun (c, i) => if span.start ≤ i && i < span.stop then ' ' else c).toArray⟩

private def insertAt (s : Source) (pos : Nat) (text : String) : Source :=
  ⟨(s.chars.extract 0 pos) ++ text.toList.toArray ++ (s.chars.extract pos s.size)⟩

/-- The word or the single mark that ends at a position. -/
private def tokenBefore (s : Source) (pos : Nat) : Span :=
  let back := ((s.chars.extract 0 pos).toList.reverse.takeWhile isWordChar).length
  ⟨pos - max 1 back, pos⟩

private def tokenFrom (s : Source) (pos : Nat) : Span := ⟨pos, max (pos + 1) ((s.wordEnd? pos).getD 0)⟩

/-- Tokens that can be missing: a name, a semicolon, something that closes. -/
private def missingTokens : List String := [" x", ";", ")", "]", "\x7d", ">"]

/-- Ways to go on after a source was read up to `pos`. -/
private def repairs (s : Source) (pos : Nat) : List Repair :=
  let next := s.tokenStart pos
  let before := s.tokenBefore pos
  let here := s.tokenFrom next
  let dropped (span : Span) : Repair :=
    ⟨.unexpected, span, 600 + (span.stop - span.start), s.blankOut span, next⟩
  (if pos = 0 then [] else [dropped before]) ++
    (missingTokens.map fun t => ⟨.missing, ⟨pos, pos⟩, 610, s.insertAt pos t, next + t.length⟩) ++
    [{ dropped here with goal := 0 }]

private def cheapest (rs : List Repair) : Option Repair :=
  rs.foldl (fun best r => match best with
    | none => some r
    | some b => if r.cost < b.cost then some r else some b) none

/-- The flaw of a source that can be read up to `pos`: the cheapest change after which all of it can be read, or
else the first one that helps. -/
private def flawAt (d : Dialect) (s : Source) (pos : Nat) : Node :=
  let tried := (s.repairs pos).map fun r => (r, progress d r.source)
  let mending := (tried.filter fun t => t.2.2).map Prod.fst
  let helping := (tried.filter fun t => t.1.goal = 0 || t.1.goal < t.2.1).map Prod.fst
  let next := s.tokenFrom (s.tokenStart pos)
  match (cheapest mending) <|> helping.head? with
  | some r => .mk .flaw r.span (some r.flaw) []
  | none => .mk .flaw next (some .unexpected) []

/-- The syntax tree of a source. Where the source leaves the grammar, the tree ends with a flaw. -/
def parse (d : Dialect) (s : Source) : Node :=
  match Grammar.statements d s with
  | .stuck r => programOf s [] 0 [(none, flawAt d s r)]
  | .ok ps pos reach =>
    if s.atEnd (s.tokenStart pos) then programOf s ps pos []
    else programOf s ps pos [(none, flawAt d s (max reach pos))]

end Source

end ReactCatalog
