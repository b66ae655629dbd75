namespace Intcode

inductive Opcode where
  | add
  | mul
  | input
  | output
  | jumpIfTrue
  | jumpIfFalse
  | lessThan
  | equals
  | halt
  deriving DecidableEq, Repr

namespace Opcode

def all : List Opcode :=
  [add, mul, input, output, jumpIfTrue, jumpIfFalse, lessThan, equals, halt]

def code : Opcode → Int
  | add => 1
  | mul => 2
  | input => 3
  | output => 4
  | jumpIfTrue => 5
  | jumpIfFalse => 6
  | lessThan => 7
  | equals => 8
  | halt => 99

theorem code_bounds (op : Opcode) : 0 ≤ op.code ∧ op.code < 100 := by
  cases op <;> decide

def ofCode? (n : Int) : Option Opcode :=
  all.find? (·.code == n)

theorem ofCode?_code (op : Opcode) : ofCode? op.code = some op := by
  cases op <;> decide

theorem code_of_ofCode? {n : Int} {op : Opcode} (h : ofCode? n = some op) : op.code = n := by
  simpa using List.find?_some h

def mnemonic : Opcode → String
  | add => "add"
  | mul => "mul"
  | input => "in"
  | output => "out"
  | jumpIfTrue => "jt"
  | jumpIfFalse => "jf"
  | lessThan => "lt"
  | equals => "eq"
  | halt => "hlt"

def arity : Opcode → Nat
  | add | mul | lessThan | equals => 3
  | jumpIfTrue | jumpIfFalse => 2
  | input | output => 1
  | halt => 0

-- The parameter that is written to, counted from one.
def writeTarget? : Opcode → Option Nat
  | add | mul | lessThan | equals => some 3
  | input => some 1
  | output | jumpIfTrue | jumpIfFalse | halt => none

def size (op : Opcode) : Nat :=
  op.arity + 1

def sizeOf? (code : Int) : Option Nat :=
  (ofCode? code).map size

end Opcode
end Intcode
