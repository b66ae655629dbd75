import Intcode.Toml.Reader

namespace Intcode.Toml

-- What was read of a document: its tables, where pairs go at present, which tables were opened, and
-- which values are closed. Tables opened by dotted keys are `pending` up to the next header.
structure Document where
  root : Table
  header : List String
  opened : List (List String)
  pending : List (List String)
  closed : List (List String)

namespace Document

def empty : Document where
  root := []
  header := []
  opened := []
  pending := []
  closed := []

def isOpened (d : Document) (path : List String) : Bool :=
  d.opened.contains path

def isClosed (d : Document) (path : List String) : Bool :=
  d.closed.any (·.isPrefixOf path)

def settle (d : Document) : Document :=
  { d with opened := d.pending ++ d.opened, pending := [] }

def forget (d : Document) (path : List String) : Document :=
  { d with
    opened := d.opened.filter fun p => !path.isPrefixOf p
    closed := d.closed.filter fun p => !path.isPrefixOf p }

def beginnings (path : List String) : List (List String) :=
  (List.range (path.length - 1)).map fun n => path.take (n + 1)

def addPair (d : Document) (path : List String) (v : Value) : Except Error Document := do
  let dotted := (beginnings path).map (d.header ++ ·)
  let parent := d.header ++ path.dropLast
  if dotted.any d.isOpened || d.isClosed parent then throw .malformed
  let root ← d.root.modify true (Table.insert (path.getLastD "") v) parent
  return { d with
    root := root
    pending := dotted ++ d.pending
    closed := if Toml.isClosed v then (d.header ++ path) :: d.closed else d.closed }

def openTable (d : Document) (path : List String) : Except Error Document := do
  if d.isOpened path || d.isClosed path then throw .malformed
  let root ← d.root.modify true .ok path
  return { d with root := root, header := path, opened := path :: d.opened }

def openElement (d : Document) (path : List String) : Except Error Document := do
  if d.isClosed path then throw .malformed
  let d := d.forget path
  let root ← d.root.modify true (Table.append (path.getLastD "")) path.dropLast
  return { d with root := root, header := path, opened := path :: d.opened }

def statement (d : Document) : List Char → Except Error (Document × List Char)
  | '[' :: '[' :: cs => do
    let (path, rest) ← key (cs.length + 1) (skipBlanks cs)
    let d ← d.settle.openElement path
    match rest with
    | ']' :: ']' :: rest => return (d, rest)
    | _ => throw .malformed
  | '[' :: cs => do
    let (path, rest) ← key (cs.length + 1) (skipBlanks cs)
    let d ← d.settle.openTable path
    match rest with
    | ']' :: rest => return (d, rest)
    | _ => throw .malformed
  | c :: cs =>
    if isBareKey c || c == '"' || c == '\'' then do
      let (path, v, rest) ← pair (2 * cs.length + 4) (c :: cs)
      return (← d.addPair path v, rest)
    else if c == '#' then .ok (d, c :: cs)
    else .error .malformed
  | [] => .ok (d, [])

def lines (d : Document) : Nat → List Char → Except Error Document
  | 0, _ => .ok d
  | fuel + 1, cs =>
    match skipBlanks cs with
    | [] => .ok d
    | '\n' :: rest => lines d fuel rest
    | cs => do
      let (d, rest) ← d.statement cs
      match ← skipComment (skipBlanks rest) with
      | [] => return d
      | '\n' :: rest => lines d fuel rest
      | _ => throw .malformed

end Document

def parse (s : String) : Except Error Table := do
  let cs := s.toList
  return (← Document.empty.lines (cs.length + 1) cs).root

end Intcode.Toml
