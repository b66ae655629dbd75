import Intcode.Memory
import Intcode.Opcode

namespace Intcode

namespace Mode

def positional : Int := 0

def immediate : Int := 1

end Mode

@[ext]
structure Instruction where
  address : Int
  opcode : Int
  mode₁ : Int
  mode₂ : Int
  deriving DecidableEq, Repr

namespace Instruction

def decode (address word : Int) : Except Fault.Cause Instruction :=
  if word < 0 then .error (.opcode word)
  else .ok ⟨address, word % 100, word / 100 % 10, word / 1000 % 10⟩

theorem decode_of_nonneg {address word : Int} (h : 0 ≤ word) :
    decode address word = .ok ⟨address, word % 100, word / 100 % 10, word / 1000 % 10⟩ :=
  if_neg (by omega)

theorem decode_of_neg {address word : Int} (h : word < 0) :
    decode address word = .error (.opcode word) :=
  if_pos h

-- The mode of a parameter. Parameters are counted from one; counting on from the last mode down,
-- zero is the second and minus one the first.
def mode? (i : Instruction) (n : Int) : Option Int :=
  if n = 1 ∨ n = -1 then some i.mode₁
  else if n = 2 ∨ n = 0 then some i.mode₂
  else none

def parameter (i : Instruction) (memory : Memory) (n : Int) : Except Fault.Cause Int :=
  memory.read (i.address + n)

end Instruction

namespace Memory

def resolve (memory : Memory) (strict : Bool) (raw mode : Int) : Except Fault.Cause Int :=
  if mode = Mode.immediate then .ok raw
  else if mode ≠ Mode.positional ∧ strict then .error (.mode mode)
  else memory.read raw

end Memory

namespace Instruction

def operand₁ (i : Instruction) (memory : Memory) (strict : Bool) : Except Fault.Cause Int := do
  memory.resolve strict (← i.parameter memory 1) i.mode₁

def operand₂ (i : Instruction) (memory : Memory) (strict : Bool) : Except Fault.Cause Int := do
  memory.resolve strict (← i.parameter memory 2) i.mode₂

def destination (i : Instruction) (memory : Memory) (n : Int) : Except Fault.Cause Int := do
  let a ← i.parameter memory n
  memory.check a
  return a

end Instruction
end Intcode
