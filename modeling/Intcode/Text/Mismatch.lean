import Intcode.Text.Alphanumeric
import Intcode.Text.Quoted
import Intcode.Decimal

namespace Intcode.Text

-- At `offset` of `text`, which holds the characters `before ++ rest`, something was expected.
@[ext]
structure Mismatch where
  expected : String
  before : List Char
  rest : List Char
  deriving DecidableEq

namespace Mismatch

def offset (m : Mismatch) : Nat :=
  m.before.length

def line (m : Mismatch) : Nat :=
  m.before.count '\n' + 1

def column (m : Mismatch) : Nat :=
  (m.before.reverse.takeWhile (· ≠ '\n')).length + 1

def runLength : Nat := 16

def found (m : Mismatch) : List Char :=
  match (m.rest.take runLength).takeWhile isAlphanumeric with
  | [] => m.rest.take 1
  | run => run

def single : List Char → List Char
  | '\\' :: '\\' :: cs => '\\' :: single cs
  | c :: cs => c :: single cs
  | [] => []

def message (m : Mismatch) : String :=
  let shown :=
    if m.before.isEmpty && m.rest.isEmpty then ""
    else ", found " ++ String.ofList (single (Quoted.encode m.found))
  m.expected ++ shown ++ "  (at char " ++ Decimal.text m.offset ++ "), (line:" ++
    Decimal.text m.line ++ ", col:" ++ Decimal.text m.column ++ ")"

def ofRest (expected : String) (text rest : List Char) : Mismatch :=
  ⟨expected, text.take (text.length - rest.length), rest⟩

end Mismatch

inductive ReadError where
  | mismatch (place : Mismatch)
  | overlong (error : Decimal.Overlong)
  deriving DecidableEq

def ReadError.message : ReadError → String
  | mismatch place => place.message
  | overlong e => e.message

end Intcode.Text
