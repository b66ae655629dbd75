import Intcode.Decimal

namespace Intcode.Toml

inductive Error where
  | malformed
  | overlong (error : Decimal.Overlong)
  deriving DecidableEq, Repr

def isBlank (c : Char) : Bool :=
  c == ' ' || c == '\t'

def skipBlanks (cs : List Char) : List Char :=
  cs.dropWhile isBlank

def skipBlankLines (cs : List Char) : List Char :=
  cs.dropWhile fun c => isBlank c || c == '\n'

def isControl (c : Char) : Bool :=
  c.toNat < 0x20 || c.toNat == 0x7f

def isForbidden (c : Char) : Bool :=
  isControl c && c != '\t'

def isForbiddenInLines (c : Char) : Bool :=
  isForbidden c && c != '\n'

def skipComment : List Char → Except Error (List Char)
  | '#' :: cs =>
    if (cs.takeWhile (· ≠ '\n')).any isForbidden then .error .malformed
    else .ok (cs.dropWhile (· ≠ '\n'))
  | cs => .ok cs

def skipGap : Nat → List Char → Except Error (List Char)
  | 0, cs => .ok cs
  | fuel + 1, cs => do
    let rest ← skipComment (skipBlankLines cs)
    if rest.length = cs.length then return rest else skipGap fuel rest

def literalString (cs : List Char) : Except Error (List Char × List Char) :=
  let content := cs.takeWhile (· ≠ '\'')
  match cs.dropWhile (· ≠ '\'') with
  | _ :: rest => if content.any isForbidden then .error .malformed else .ok (content, rest)
  | [] => .error .malformed

def hexDigit? (c : Char) : Option Nat :=
  if c.isDigit then some (c.toNat - '0'.toNat)
  else if 'a' ≤ c && c ≤ 'f' then some (c.toNat - 'a'.toNat + 10)
  else if 'A' ≤ c && c ≤ 'F' then some (c.toNat - 'A'.toNat + 10)
  else none

def hexValue? (cs : List Char) : Option Nat :=
  cs.foldlM (fun n c => do return n * 16 + (← hexDigit? c)) 0

def codePoint (width : Nat) (cs : List Char) : Except Error (List Char × List Char) :=
  match hexValue? (cs.take width) with
  | some n =>
    if cs.length < width ∨ ¬n.isValidChar then .error .malformed
    else .ok ([Char.ofNat n], cs.drop width)
  | none => .error .malformed

-- A backslash at the end of a line, with the blanks after it, takes the line end and all blanks
-- and line ends that follow along.
def continuedLine (cs : List Char) : Except Error (List Char) :=
  match skipBlanks cs with
  | [] => .ok []
  | '\n' :: rest => .ok (skipBlankLines rest)
  | _ => .error .malformed

def escape (multiline : Bool) : List Char → Except Error (List Char × List Char)
  | 'b' :: cs => .ok (['\x08'], cs)
  | 't' :: cs => .ok (['\t'], cs)
  | 'n' :: cs => .ok (['\n'], cs)
  | 'f' :: cs => .ok (['\x0c'], cs)
  | 'r' :: cs => .ok (['\r'], cs)
  | '"' :: cs => .ok (['"'], cs)
  | '\\' :: cs => .ok (['\\'], cs)
  | 'u' :: cs => codePoint 4 cs
  | 'U' :: cs => codePoint 8 cs
  | c :: cs =>
    if multiline && (isBlank c || c == '\n') then do return ([], ← continuedLine (c :: cs))
    else .error .malformed
  | [] => .error .malformed

def basicString (multiline : Bool) (read : List Char) :
    Nat → List Char → Except Error (List Char × List Char)
  | 0, _ => .error .malformed
  | fuel + 1, cs =>
    match cs with
    | [] => .error .malformed
    | '"' :: rest =>
      if !multiline then .ok (read.reverse, rest)
      else
        match rest with
        | '"' :: '"' :: rest => .ok (read.reverse, rest)
        | _ => basicString multiline ('"' :: read) fuel rest
    | '\\' :: rest =>
      match escape multiline rest with
      | .ok (c, rest) => basicString multiline (c.reverse ++ read) fuel rest
      | .error e => .error e
    | c :: rest =>
      if (if multiline then isForbiddenInLines c else isForbidden c) then .error .malformed
      else basicString multiline (c :: read) fuel rest

def upToQuotes : List Char → Option (List Char × List Char)
  | '\'' :: '\'' :: '\'' :: rest => some ([], rest)
  | c :: rest => (upToQuotes rest).map fun (content, rest) => (c :: content, rest)
  | [] => none

-- A string of several lines may end in one or two quotes of its own.
def finalQuotes (q : Char) (content : List Char) : List Char → List Char × List Char
  | c :: d :: rest =>
    if c = q then
      if d = q then (content ++ [q, q], rest) else (content ++ [q], d :: rest)
    else (content, c :: d :: rest)
  | [c] => if c = q then (content ++ [q], []) else (content, [c])
  | [] => (content, [])

def skipFirstLineEnd : List Char → List Char
  | '\n' :: cs => cs
  | cs => cs

def multilineLiteral (cs : List Char) : Except Error (List Char × List Char) :=
  match upToQuotes (skipFirstLineEnd cs) with
  | none => .error .malformed
  | some (content, rest) =>
    if content.any isForbiddenInLines then .error .malformed
    else .ok (finalQuotes '\'' content rest)

def multilineBasic (cs : List Char) : Except Error (List Char × List Char) := do
  let cs := skipFirstLineEnd cs
  let (content, rest) ← basicString true [] (cs.length + 1) cs
  return finalQuotes '"' content rest

def isBareKey (c : Char) : Bool :=
  c.isAlphanum || c == '-' || c == '_'

def keyPart : List Char → Except Error (String × List Char)
  | '\'' :: cs => do
    let (content, rest) ← literalString cs
    return (String.ofList content, rest)
  | '"' :: cs => do
    let (content, rest) ← basicString false [] (cs.length + 1) cs
    return (String.ofList content, rest)
  | cs =>
    match cs.takeWhile isBareKey with
    | [] => .error .malformed
    | word => .ok (String.ofList word, cs.dropWhile isBareKey)

def key : Nat → List Char → Except Error (List String × List Char)
  | 0, _ => .error .malformed
  | fuel + 1, cs => do
    let (part, rest) ← keyPart cs
    match skipBlanks rest with
    | '.' :: rest =>
      let (parts, rest) ← key fuel (skipBlanks rest)
      return (part :: parts, rest)
    | rest => return ([part], rest)

end Intcode.Toml
