import Intcode.Text.Printable

namespace Intcode.Text.Quoted

def quote (cs : List Char) : Char :=
  if cs.contains '\'' && !cs.contains '"' then '"' else '\''

def hex (width n : Nat) : List Char :=
  match width with
  | 0 => []
  | k + 1 => hex k (n / 16) ++ [(n % 16).digitChar]

def codePoint (n : Nat) : List Char :=
  if n < 0x100 then '\\' :: 'x' :: hex 2 n
  else if n < 0x10000 then '\\' :: 'u' :: hex 4 n
  else '\\' :: 'U' :: hex 8 n

def escape (q c : Char) : List Char :=
  if c = q ∨ c = '\\' then ['\\', c]
  else if c = '\n' then ['\\', 'n']
  else if c = '\r' then ['\\', 'r']
  else if c = '\t' then ['\\', 't']
  else if isPrintable c then [c]
  else codePoint c.toNat

def encode (cs : List Char) : List Char :=
  let q := quote cs
  q :: cs.flatMap (escape q) ++ [q]

end Quoted

def quoted (s : String) : String :=
  String.ofList (Quoted.encode s.toList)

end Intcode.Text
