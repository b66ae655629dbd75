import Intcode.Toml.Scalar
import Intcode.Toml.Table

namespace Intcode.Toml

mutual

def value : Nat → List Char → Except Error (Value × List Char)
  | 0, _ => .error .malformed
  | fuel + 1, cs =>
    match cs with
    | '"' :: '"' :: '"' :: rest => do
      let (content, rest) ← multilineBasic rest
      return (.string (String.ofList content), rest)
    | '"' :: rest => do
      let (content, rest) ← basicString false [] (rest.length + 1) rest
      return (.string (String.ofList content), rest)
    | '\'' :: '\'' :: '\'' :: rest => do
      let (content, rest) ← multilineLiteral rest
      return (.string (String.ofList content), rest)
    | '\'' :: rest => do
      let (content, rest) ← literalString rest
      return (.string (String.ofList content), rest)
    | 't' :: 'r' :: 'u' :: 'e' :: rest => .ok (.bool true, rest)
    | 'f' :: 'a' :: 'l' :: 's' :: 'e' :: rest => .ok (.bool false, rest)
    | '[' :: rest => do
      let (vs, rest) ← elements fuel (← skipGap rest.length rest)
      return (.list vs, rest)
    | '\x7b' :: rest =>
      match skipBlanks rest with
      | '\x7d' :: rest => .ok (.table [], rest)
      | rest => do
        let (t, rest) ← members [] [] fuel rest
        return (.table t, rest)
    | cs => scalar cs

def elements : Nat → List Char → Except Error (List Value × List Char)
  | 0, _ => .error .malformed
  | fuel + 1, cs =>
    match cs with
    | ']' :: rest => .ok ([], rest)
    | cs => do
      let (v, rest) ← value fuel cs
      match ← skipGap rest.length rest with
      | ']' :: rest => return ([v], rest)
      | ',' :: rest =>
        let (vs, rest) ← elements fuel (← skipGap rest.length rest)
        return (v :: vs, rest)
      | _ => throw .malformed

-- The entries of a table in braces up to its end, after those in `t`. What lies inside of an entry
-- in `closed` cannot be added.
def members (t : Table) (closed : List (List String)) :
    Nat → List Char → Except Error (Table × List Char)
  | 0, _ => .error .malformed
  | fuel + 1, cs => do
    let (path, v, rest) ← pair fuel cs
    if closed.any (·.isPrefixOf path) then throw .malformed
    let t ← t.modify false (Table.insert (path.getLastD "") v) path.dropLast
    match skipBlanks rest with
    | '\x7d' :: rest => return (t, rest)
    | ',' :: rest =>
      members t (if isClosed v then path :: closed else closed) fuel (skipBlanks rest)
    | _ => throw .malformed

def pair : Nat → List Char → Except Error (List String × Value × List Char)
  | 0, _ => .error .malformed
  | fuel + 1, cs => do
    let (path, rest) ← key (cs.length + 1) cs
    match rest with
    | '=' :: rest =>
      let (v, rest) ← value fuel (skipBlanks rest)
      return (path, v, rest)
    | _ => throw .malformed

end

end Intcode.Toml
