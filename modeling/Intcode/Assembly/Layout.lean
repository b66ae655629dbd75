import Intcode.Assembly.Statement
import Intcode.Log
import Intcode.Text.Mismatch

namespace Intcode.Assembly

inductive Rejection where
  | mismatch (module : String) (place : Text.Mismatch)
  | overlong (error : Decimal.Overlong)
  | duplicateLabel (name : String)
  | writeTarget (opcode : Int)
  | unknownLabel (name : String)
  deriving DecidableEq

def Rejection.message : Rejection → String
  | mismatch module place => module ++ ": " ++ place.message
  | overlong e => e.message
  | duplicateLabel name => "Label " ++ name ++ " defined twice"
  | writeTarget opcode => "Write target of " ++ Decimal.text opcode ++ " must be positional"
  | unknownLabel name => "Unknown label " ++ name

inductive Slot where
  | word (n : Int)
  | reference (label : String)
  deriving DecidableEq, Repr

-- The next word goes to `offset`, and `labels` are in the order of their definition.
@[ext]
structure Layout where
  slots : Array Slot
  offset : Nat
  labels : List (String × Nat)
  deriving DecidableEq, Repr

namespace Layout

def empty : Layout where
  slots := #[]
  offset := 0
  labels := []

def push (l : Layout) (s : Slot) : Layout :=
  { l with slots := l.slots.push s, offset := l.offset + 1 }

def addWord (l : Layout) (n : Int) : Layout :=
  l.push (.word n)

def addReference (l : Layout) (name : String) : Logged Rejection Layout := do
  .note (.debug ("Ref " ++ name))
  return l.push (.reference name)

def addTarget (l : Layout) : Target → Logged Rejection Layout
  | .constant n => pure (l.addWord n)
  | .label name => l.addReference name

def addTargets (l : Layout) (ts : List Target) : Logged Rejection Layout :=
  ts.foldlM addTarget l

def find? (l : Layout) (name : String) : Option Nat :=
  l.labels.lookup name

def addLabel (l : Layout) (name : String) : Logged Rejection Layout := do
  if (l.find? name).isSome then throw (.duplicateLabel name)
  .note (.debug ("Label " ++ name ++ " @ " ++ Decimal.text l.offset))
  return { l with labels := l.labels ++ [(name, l.offset)] }

def writeTarget? (opcode : Int) : Option Nat :=
  (Opcode.ofCode? opcode).bind Opcode.writeTarget?

-- The mode digits of operands, the first of which is parameter `n`. A write target has no digit and
-- has to be positional.
def modeDigits (opcode : Int) (n : Nat) : List Operand → Except Rejection Int
  | [] => .ok 0
  | o :: os =>
    if writeTarget? opcode = some n then
      if o.mode = Mode.positional then modeDigits opcode (n + 1) os
      else .error (.writeTarget opcode)
    else do return o.mode * Decimal.powerOfTen (n + 1) + (← modeDigits opcode (n + 1) os)

def encode (opcode : Int) (operands : List Operand) : Except Rejection Int := do
  return opcode + (← modeDigits opcode 1 operands)

def addInstruction (l : Layout) (opcode : Int) (operands : List Operand) :
    Logged Rejection Layout := do
  let word ← Logged.lift (encode opcode operands)
  let shown ← Logged.lift ((Decimal.write word).mapError .overlong)
  .note (.debug ("Issuing command " ++ shown))
  (l.addWord word).addTargets (operands.map (·.target))

def add (l : Layout) : Statement → Logged Rejection Layout
  | .label name => l.addLabel name
  | .instruction op operands => l.addInstruction op.code operands
  | .data values => l.addTargets values

def resolve (l : Layout) : Slot → Except Rejection Int
  | .word n => .ok n
  | .reference name =>
    match l.find? name with
    | some place => .ok place
    | none => .error (.unknownLabel name)

def link (l : Layout) : Except Rejection (List Int) :=
  l.slots.toList.mapM l.resolve

end Layout
end Intcode.Assembly
