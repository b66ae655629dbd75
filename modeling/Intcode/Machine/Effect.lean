import Intcode.Instruction
import Intcode.Machine

namespace Intcode

inductive Effect where
  | store (address value : Int)
  | take (address value : Int)
  | emit (value : Int)
  | jump (target : Int)
  | pass
  | wait
  | halt
  deriving DecidableEq, Repr

namespace Instruction

variable (i : Instruction) (memory : Memory) (strict : Bool)

def combine (f : Int → Int → Int) : Except Fault.Cause Effect := do
  let a ← i.operand₁ memory strict
  let b ← i.operand₂ memory strict
  return .store (← i.destination memory 3) (f a b)

def jumpIf (condition : Int → Bool) : Except Fault.Cause Effect := do
  let a ← i.operand₁ memory strict
  if condition a then return .jump (← i.operand₂ memory strict) else return .pass

def takeInput : List Int → Except Fault.Cause Effect
  | [] => .ok .wait
  | v :: _ => do return .take (← i.destination memory 1) v

def effect (inputs : List Int) : Opcode → Except Fault.Cause Effect
  | .add => i.combine memory strict (· + ·)
  | .mul => i.combine memory strict (· * ·)
  | .input => i.takeInput memory inputs
  | .output => do return .emit (← i.operand₁ memory strict)
  | .jumpIfTrue => i.jumpIf memory strict (· != 0)
  | .jumpIfFalse => i.jumpIf memory strict (· == 0)
  | .lessThan => i.combine memory strict fun a b => if a < b then 1 else 0
  | .equals => i.combine memory strict fun a b => if a = b then 1 else 0
  | .halt => .ok .halt

end Instruction

namespace Machine

def fetch (m : Machine) : Except Fault.Cause (Opcode × Instruction) := do
  let word ← m.memory.read m.pc
  let i ← Instruction.decode m.pc word
  match Opcode.ofCode? i.opcode with
  | some op => return (op, i)
  | none => throw (.opcode word)

def next (m : Machine) (strict : Bool) : Except Fault.Cause (Opcode × Effect) := do
  let (op, i) ← m.fetch
  return (op, ← i.effect m.memory strict m.inputs op)

def perform (m : Machine) (op : Opcode) : Effect → Machine
  | .store a v => { m with memory := m.memory.set a v, pc := m.pc + op.size }
  | .take a v =>
    { m with memory := m.memory.set a v, inputs := m.inputs.tail, pc := m.pc + op.size }
  | .emit v => { m with outputs := m.outputs.push v, pc := m.pc + op.size }
  | .jump target => { m with pc := target }
  | .pass => { m with pc := m.pc + op.size }
  | .wait => { m with status := .waiting }
  | .halt => { m with status := .halted }

def stopOn (m : Machine) (f : Fault) : Machine :=
  { m with fault := some f, status := .faulted }

end Machine
end Intcode
