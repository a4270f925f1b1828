import ReactCatalog.Grammar.Semicolon

/-!
# Grammar rules

A rule reads from the end of one token and answers with the pieces it read and the end of the last of them, or
with the place where it got stuck. Rules combine as in a parsing expression grammar: `choice` takes the first
alternative that reads, `many` as many repetitions as read.

A rule that stands for a construct makes a node of its pieces (`node`). Comments between two pieces of a node
become children of that node, so each comment hangs at the lowest node that has a token on either side of it.
-/

namespace ReactCatalog

/-- What a rule reads: a node with the part it plays, or the place of a semicolon put in. -/
inductive Piece where
  | part (field : Option Field) (node : Node)
  | stop (pos : Nat)
  deriving Inhabited

namespace Piece

def span : Piece → Span
  | part _ n => n.span
  | stop p => ⟨p, p⟩

/-- Give the piece a part to play, unless it has one. -/
def withField (f : Field) : Piece → Piece
  | part none n => part (some f) n
  | p => p

end Piece

/-- What a rule needs to know of its surroundings. -/
structure Setting where
  dialect : Dialect
  source : Source
  /-- The expression being read may end with an automatic semicolon. -/
  mayEnd : Bool := false
  /-- A colon after a parameter list announces a return type. -/
  returnTypes : Bool := true
  /-- Type arguments after an expression belong to it even if no call follows. -/
  instantiations : Bool := true
  deriving Inhabited

/-- What a rule answers. `reach` is the end of the last token after which some rule got stuck on the way. -/
inductive Reply where
  | ok (pieces : List Piece) (pos reach : Nat)
  /-- Nothing fits. -/
  | stuck (reach : Nat)
  deriving Inhabited

namespace Reply

/-- Change the pieces of a successful answer. -/
def map (f : List Piece → List Piece) : Reply → Reply
  | ok xs pos r => ok (f xs) pos r
  | stuck r => stuck r

/-- Note that some rule got stuck at `n`. -/
def reaching (n : Nat) : Reply → Reply
  | ok xs pos r => ok xs pos (max n r)
  | stuck r => stuck (max n r)

end Reply

abbrev Rule := Setting → Nat → Reply

namespace Rule

/-! ## Combinators -/

def nothing : Rule := fun _ pos => .ok [] pos 0

def never : Rule := fun _ pos => .stuck pos

/-- Hand the pieces read to a rule that makes others of them. -/
def into (a : Rule) (b : List Piece → Rule) : Rule := fun s pos =>
  match a s pos with
  | .stuck r => .stuck r
  | .ok xs p r => (b xs s p).reaching r

/-- Answer with given pieces without reading. -/
def give (xs : List Piece) : Rule := fun _ pos => .ok xs pos 0

/-- Read on in a way that depends on the pieces just read. -/
def thenWith (a : Rule) (b : List Piece → Rule) : Rule :=
  into a fun xs s pos => (b xs s pos).map (xs ++ ·)

def andThen (a b : Rule) : Rule := thenWith a fun _ => b

def orElse (a b : Rule) : Rule := fun s pos =>
  match a s pos with
  | .ok xs p r => .ok xs p r
  | .stuck r => (b s pos).reaching r

def seq (rs : List Rule) : Rule := rs.foldr andThen nothing

def choice (rs : List Rule) : Rule := rs.foldr orElse never

def opt (r : Rule) : Rule := orElse r nothing

/-- Repeat while the rule reads something. -/
def many (r : Rule) : Rule := fun s pos => go s (s.source.size + 1) [] pos 0
where
  go (s : Setting) : Nat → List (List Piece) → Nat → Nat → Reply
    | 0, acc, pos, reach => .ok acc.reverse.flatten pos reach
    | fuel + 1, acc, pos, reach =>
      match r s pos with
      | .ok xs p n =>
        if pos < p then go s fuel (xs :: acc) p (max n reach) else .ok acc.reverse.flatten pos (max n reach)
      | .stuck n => .ok acc.reverse.flatten pos (max n reach)

def many1 (r : Rule) : Rule := andThen r (many r)

/-- Succeed without reading if the rule would read. -/
def ahead (r : Rule) : Rule := fun s pos =>
  match r s pos with
  | .ok _ _ _ => .ok [] pos 0
  | .stuck _ => .stuck pos

/-- Succeed without reading if the rule would not read. -/
def notAhead (r : Rule) : Rule := fun s pos =>
  match r s pos with
  | .ok _ _ _ => .stuck pos
  | .stuck _ => .ok [] pos 0

/-- Read only in surroundings that pass the test. -/
def given (test : Setting → Bool) (r : Rule) : Rule := fun s pos => if test s then r s pos else .stuck pos

def typed (r : Rule) : Rule := given (·.dialect.isTyped) r

def plain (r : Rule) : Rule := given (!·.dialect.isTyped) r

def optTyped (r : Rule) : Rule := fun s pos => if s.dialect.isTyped then opt r s pos else .ok [] pos 0

/-- Read with automatic semicolons possible or not. -/
def ending (b : Bool) (r : Rule) : Rule := fun s pos => r { s with mayEnd := b } pos

/-- Read with a colon after parameters left to the surroundings. -/
def withoutReturnTypes (r : Rule) : Rule := fun s pos => r { s with returnTypes := false } pos

/-- Read inside brackets, where no outer construct has a say. -/
def enclosed (r : Rule) : Rule := fun s pos => 
  r { s with mayEnd := false, returnTypes := true, instantiations := true } pos

/-- Read with type arguments that open no call left to the surroundings. -/
def withoutInstantiations (r : Rule) : Rule := fun s pos => r { s with instantiations := false } pos

/-- Items with a separator between them, at least one. -/
def sepBy1 (item sep : Rule) : Rule := andThen item (many (andThen sep item))

/-- Give every piece read the part `f`. -/
def field (f : Field) (r : Rule) : Rule := fun s pos => (r s pos).map (List.map (Piece.withField f))

/-! ## Nodes -/

/-- Children made of pieces, with the comments between them. -/
def weave (s : Source) : List Piece → List (Option Field × Node)
  | [] => []
  | p :: ps => own p ++ go p.span.stop ps
where
  own : Piece → List (Option Field × Node)
    | .part f n => [(f, n)]
    | .stop _ => []
  comments (a b : Nat) : List (Option Field × Node) :=
    if a + 1 < b then
      ((s.trivia a).1.filter fun c => c.stop ≤ b).map fun c => (none, Node.mk .comment c none [])
    else []
  go (last : Nat) : List Piece → List (Option Field × Node)
    | [] => []
    | p :: ps => comments last p.span.start ++ own p ++ go p.span.stop ps

/-- The node that a list of pieces makes; `pos` is where it stands if the list is empty. -/
def assemble (s : Source) (k : Kind) (ps : List Piece) (pos : Nat) : Node :=
  let start := (ps.head?.map (·.span.start)).getD pos
  let stop := (ps.getLast?.map (·.span.stop)).getD pos
  .mk k ⟨start, stop⟩ none (weave s ps)

/-- A node of the pieces read so far and those that the rule reads. -/
def wrap (k : Kind) (left : List Piece) (r : Rule) : Rule := fun s pos =>
  (r s pos).map fun xs => [.part none (assemble s.source k (left ++ xs) pos)]

/-- The pieces read make one node. -/
def node (k : Kind) (r : Rule) : Rule := wrap k [] r

/-- Give the nodes read another kind. -/
def rename (k : Kind) (r : Rule) : Rule := fun s pos => (r s pos).map (List.map relabel)
where
  relabel : Piece → Piece
    | .part f (.mk _ sp fl cs) => .part f (.mk k sp fl cs)
    | p => p

/-- Extend what is read as long as `step` can: each step takes the pieces read so far and makes new ones. -/
def grow (base : Rule) (step : List Piece → Rule) : Rule := fun s pos =>
  match base s pos with
  | .ok xs p r => go s (s.source.size + 1) xs p r
  | .stuck r => .stuck r
where
  go (s : Setting) : Nat → List Piece → Nat → Nat → Reply
    | 0, xs, pos, reach => .ok xs pos reach
    | fuel + 1, xs, pos, reach =>
      match step xs s pos with
      | .ok ys p n => if pos < p then go s fuel ys p (max n reach) else .ok xs pos (max n reach)
      | .stuck n => .ok xs pos (max n reach)

/-- Read only if the pieces read pass the test. -/
def such (r : Rule) (test : List Piece → Bool) : Rule := fun s pos =>
  match r s pos with
  | .ok xs p n => if test xs then .ok xs p n else .stuck n
  | .stuck n => .stuck n

/-- The kind of the last node among pieces. -/
def lastKind? (ps : List Piece) : Option Kind :=
  match ps.getLast? with
  | some (.part _ n) => some n.kind
  | _ => none

/-- The last node among pieces has a child that plays the part `f`. -/
def lastHas (f : Field) (ps : List Piece) : Bool :=
  match ps.getLast? with
  | some (.part _ n) => (n.field? f).isSome
  | _ => false

/-! ## Tokens -/

/-- A token: `stop?` says where the token that starts at a position ends. -/
def token (k : Kind) (stop? : Source → Nat → Option Nat) : Rule := fun s pos =>
  let i := s.source.tokenStart pos
  match stop? s.source i with
  | some j => .ok [.part none (.mk k ⟨i, j⟩ none [])] j 0
  | none => .stuck pos

/-- A token that must follow the last one at once. -/
def tight (k : Kind) (stop? : Source → Nat → Option Nat) : Rule := fun s pos =>
  match stop? s.source pos with
  | some j => .ok [.part none (.mk k ⟨pos, j⟩ none [])] j 0
  | none => .stuck pos

/-- Marks of the language, longest first among those that start alike. -/
def marks : List String :=
  [">>>=", "===", "!==", "**=", "<<=", ">>=", ">>>", "&&=", "||=", "??=", "...",
   "=>", "==", "!=", "<=", ">=", "<<", ">>", "&&", "||", "??", "?.", "++", "--", "+=", "-=", "*=", "/=", "%=",
   "&=", "|=", "^=", "**", "\x7b", "\x7d", "(", ")", "[", "]", ";", ",", ".", "?", ":", "=", "!", "<", ">",
   "+", "-", "*", "/", "%", "&", "|", "^", "~", "@", "`"]

/-- The longest mark at a position. A question mark before a decimal fraction stands alone. -/
def markAt? (s : Source) (i : Nat) : Option String :=
  match marks.find? fun m => s.hasAt m.toList i with
  | some "?." => if Source.isDigit (s.get (i + 2)) then some "?" else some "?."
  | m => m

/-- The mark `m`, where no longer mark stands. -/
def mark (m : String) : Rule :=
  token .symbol fun s i => if markAt? s i = some m then some (i + m.length) else none

/-- One of several marks. -/
def markIn (ms : List String) : Rule :=
  token .symbol fun s i =>
    match markAt? s i with
    | some m => if ms.contains m then some (i + m.length) else none
    | none => none

/-- The characters of `m`, whatever follows them. -/
def sign (m : String) : Rule :=
  token .symbol fun s i => if s.hasAt m.toList i then some (i + m.length) else none

/-- The characters of `m` right after the last token. -/
def tightSign (m : String) : Rule :=
  tight .symbol fun s i => if s.hasAt m.toList i then some (i + m.length) else none

/-- The word that starts at `i`. -/
def wordAt? (s : Source) (i : Nat) : Option String :=
  (s.wordEnd? i).map fun j => String.ofList (s.slice i j)

/-- The next word. -/
def nextWord? (s : Setting) (pos : Nat) : Option String := wordAt? s.source (s.source.tokenStart pos)

/-- The keyword `w`. -/
def keyword (w : String) : Rule :=
  token .symbol fun s i => if wordAt? s i = some w then some (i + w.length) else none

/-- One of several keywords. -/
def keywordIn (ws : List String) : Rule := choice (ws.map keyword)

/-- Any word at all, as a node of kind `k`. -/
def anyWord (k : Kind) : Rule := token k Source.wordEnd?

/-- Any word but those listed. -/
def wordBut (k : Kind) (ws : List String) : Rule :=
  token k fun s i =>
    match wordAt? s i with
    | some w => if ws.contains w then none else s.wordEnd? i
    | none => none

/-- One word, as a node of kind `k`. -/
def wordAs (k : Kind) (w : String) : Rule :=
  token k fun s i => if wordAt? s i = some w then s.wordEnd? i else none

/-- Choose a rule by the next word; `otherwise` serves the words that are not listed. -/
def byWord (table : List (String × Rule)) (otherwise : Rule) : Rule := fun s pos =>
  match (nextWord? s pos).bind (List.lookup · table) with
  | some r => r s pos
  | none => otherwise s pos

/-- The mark `m` comes next. -/
def nextIs (m : String) : Rule := ahead (mark m)

/-! ## Semicolons -/

/-- A semicolon that is put in. -/
def automatic (what : Semicolon) : Rule := fun s pos =>
  match s.source.semicolonAt? s.dialect what pos with
  | some p => .ok [.stop p] p 0
  | none => .stuck pos

/-- The end of a statement. -/
def semicolon (what : Semicolon) : Rule := orElse (automatic what) (mark ";")

/-- No automatic semicolon ends the construct here. -/
def goesOn (what : Semicolon) : Rule := fun s pos =>
  if s.mayEnd && (s.source.semicolonAt? s.dialect what pos).isSome then .stuck pos else .ok [] pos 0

/-- Items in brackets, separated by commas, any of them left out. -/
def commaList (opener item closer : Rule) : Rule :=
  seq [opener, enclosed (seq [opt item, many (seq [mark ",", opt item])]), closer]

end Rule

end ReactCatalog
