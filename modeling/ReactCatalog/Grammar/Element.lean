import ReactCatalog.Grammar.Member

/-!
# Elements

Markup inside an expression. The name in a closing tag is not compared with that of the opening tag.
-/

namespace ReactCatalog.Grammar

open Rule

private def isTagStart (c : Char) : Bool := Source.isAsciiLetter c || c == '_' || c == '$'

/-- A name of a tag or attribute; unlike a word it may hold hyphens. -/
private def tagWordEnd? (s : Source) (i : Nat) : Option Nat :=
  let j := s.skipWhile (fun c => isTagStart c || Source.isDigit c || c == '-') i
  if isTagStart (s.get i) && (s.slice i j).contains '-' then some j else s.wordEnd? i

private def tagWord (k : Kind) : Rule := token k tagWordEnd?

private def namespaced : Rule :=
  node .jsxNamespaceName (seq [tagWord .identifier, mark ":", tagWord .identifier])

private def tagName : Rule :=
  orElse namespaced
    (grow (tagWord .identifier) fun left =>
      wrap .memberExpression (left.map (Piece.withField .object))
        (seq [mark ".", field .property (anyWord .propertyIdentifier)]))

private def braced (g : Grammar) : Rule :=
  node .jsxExpression (seq
    [mark "\x7b", enclosed (opt (orElse (spread g) (g .sequence))), mark "\x7d"])

private def tagAttribute (g : Grammar) : Rule :=
  orElse (braced g)
    (node .jsxAttribute (seq
      [orElse namespaced (tagWord .propertyIdentifier),
       opt (seq [sign "=", choice [attributeString, braced g, g .element]])]))

private def tagHead (g : Grammar) : Rule :=
  seq [sign "<", opt (seq [field .name tagName, optTyped (g .typeArguments), many (tagAttribute g)])]

private def child (g : Grammar) : Rule :=
  choice
    [tight .jsxText Source.elementTextEnd?,
     token .htmlCharacterReference Source.referenceEnd?,
     braced g,
     seq [notAhead (sign "</"), g .element]]

def element (g : Grammar) : Rule :=
  into (enclosed (tagHead g)) fun head =>
    orElse (wrap .jsxSelfClosingElement head (sign "/>"))
      (into (wrap .jsxOpeningElement head (sign ">")) fun start =>
        wrap .jsxElement start (seq
          [many (child g), node .jsxClosingElement (seq [sign "</", opt (field .name tagName), sign ">"])]))

end ReactCatalog.Grammar
