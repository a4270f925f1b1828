import ReactCatalog.Toml.Scalar
import ReactCatalog.Toml.Table
import ReactCatalog.Toml.Text

/-!
# Reading TOML

A document is a sequence of lines: keys with values, headers of tables, comments. `read?` makes one table of it.
-/

namespace ReactCatalog.Toml

/-- Blanks, line ends and comments inside an array. A comment must end with its line. -/
private def skipBetween : Nat → List Char → Option (List Char)
  | 0, cs => some cs
  | fuel + 1, cs =>
    let cs := skipWs cs
    match newline? cs with
    | some r => skipBetween fuel r
    | none =>
      match comment? cs with
      | some r => (newline? r).bind (skipBetween fuel)
      | none => some cs

private def between? (cs : List Char) : Option (List Char) := skipBetween (cs.length + 1) cs

private def items? (item : List Char → Option (Written × List Char)) :
    Nat → List Written → List Char → Option (Written × List Char)
  | 0, _, _ => none
  | fuel + 1, acc, cs => do
    match ← between? cs with
    | ']' :: r => pure (.array acc.reverse, r)
    | cs =>
      let (v, r) ← item cs
      match ← between? r with
      | ',' :: r => items? item fuel (v :: acc) r
      | ']' :: r => pure (.array (v :: acc).reverse, r)
      | _ => none

private def members? (item : List Char → Option (Written × List Char)) :
    Nat → Table → List Char → Option (Written × List Char)
  | 0, _, _ => none
  | fuel + 1, t, cs => do
    let (key, r) ← key? cs
    match r with
    | '=' :: r =>
      let (v, r) ← item (skipWs r)
      let t ← t.define key v
      match skipWs r with
      | ',' :: r => members? item fuel t r
      | '\x7d' :: r => pure (t.written, r)
      | _ => none
    | _ => none

private def word? (w : String) (v : Written) (cs : List Char) : Option (Written × List Char) :=
  if w.toList.isPrefixOf cs then some (v, cs.drop w.length) else none

/-- A value, with arrays and inline tables nested less than `depth` deep. -/
def value? : Nat → List Char → Option (Written × List Char)
  | depth, cs =>
    match cs with
    | '"' :: _ => (string? cs).map fun p => (.string p.1, p.2)
    | '\'' :: _ => (string? cs).map fun p => (.string p.1, p.2)
    | '[' :: r =>
      match depth with
      | 0 => none
      | depth + 1 => items? (value? depth) (r.length + 1) [] r
    | '\x7b' :: r =>
      match depth with
      | 0 => none
      | depth + 1 =>
        match skipWs r with
        | '\x7d' :: r => some (.object [], r)
        | r => members? (value? depth) (r.length + 1) .empty r
    | 't' :: _ => word? "true" (.bool true) cs
    | 'f' :: _ => word? "false" (.bool false) cs
    | _ => (dateOrTime? cs) <|> (float? cs) <|> (integer? cs)

/-- What may follow on a line, and its end. -/
private def lineEnd? (cs : List Char) : Option (List Char) :=
  let cs := skipWs cs
  match (comment? cs).getD cs with
  | [] => some []
  | r => newline? r

/-- What has been read of a document. -/
private structure State where
  root : Table
  /-- Where keys are put. -/
  place : List String

private def header? (cs : List Char) (s : State) : Option (State × List Char) :=
  match cs with
  | '[' :: '[' :: r => do
    match ← key? r with
    | (key, ']' :: ']' :: r) => pure (⟨← s.root.openElement key, key⟩, ← lineEnd? r)
    | _ => none
  | '[' :: r => do
    match ← key? r with
    | (key, ']' :: r) => pure (⟨← s.root.openTable key, key⟩, ← lineEnd? r)
    | _ => none
  | _ => none

private def keyValue? (cs : List Char) (s : State) : Option (State × List Char) := do
  match ← key? cs with
  | (key, '=' :: r) =>
    let (v, r) ← value? depthLimit (skipWs r)
    let root ← s.root.descend false (Table.define key v) s.place
    pure ({ s with root := root }, ← lineEnd? r)
  | _ => none

private def lines? : Nat → List Char → State → Option State
  | 0, _, s => some s
  | fuel + 1, cs, s =>
    match skipWs cs with
    | [] => some s
    | '#' :: r => (lineEnd? ('#' :: r)).bind fun r => lines? fuel r s
    | '[' :: r => (header? ('[' :: r) s).bind fun p => lines? fuel p.2 p.1
    | c :: r =>
      match newline? (c :: r) with
      | some r => lines? fuel r s
      | none => (keyValue? (c :: r) s).bind fun p => lines? fuel p.2 p.1

/-- The table that a document describes. -/
def read? (text : String) : Option Written :=
  let cs := text.toList
  let cs := if cs.head? = some '﻿' then cs.drop 1 else cs
  (lines? (cs.length + 1) cs ⟨.empty, []⟩).map fun s => s.root.written

end ReactCatalog.Toml
