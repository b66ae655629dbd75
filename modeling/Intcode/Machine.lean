import Intcode.Memory

namespace Intcode

inductive Status where
  | runnable
  | halted
  | waiting
  | faulted
  deriving DecidableEq, Repr

def Status.name : Status → String
  | runnable => "RUNNABLE"
  | halted => "HALTED"
  | waiting => "WAITING"
  | faulted => "FAULTED"

-- Of a machine, `inputs` are those not taken yet, and `steps` counts the instructions that it has
-- carried out.
@[ext]
structure Machine where
  memory : Memory
  pc : Int
  status : Status
  steps : Nat
  fault : Option Fault
  inputs : List Int
  outputs : Array Int
  deriving DecidableEq

namespace Machine

def ofMemory (memory : Memory) : Machine where
  memory := memory
  pc := 0
  status := .runnable
  steps := 0
  fault := none
  inputs := []
  outputs := #[]

def ofWords (ws : List Int) : Machine :=
  ofMemory (.ofList ws)

def load (m : Machine) (memory : Memory) : Machine :=
  { ofMemory memory with inputs := m.inputs }

def setInputs (m : Machine) (vs : List Int) : Machine :=
  { m with inputs := vs }

def addInput (m : Machine) (v : Int) : Machine :=
  { m with inputs := m.inputs ++ [v] }

def lastOutput? (m : Machine) : Option Int :=
  m.outputs.back?

end Machine
end Intcode
