import Intcode.Log
import Intcode.Machine.Effect
import Intcode.Settings

namespace Intcode

inductive Interruption where
  | stepLimit (limit : StepLimit)
  | overlong (error : Decimal.Overlong)
  deriving DecidableEq

def Interruption.message : Interruption → String
  | stepLimit l => "Step limit of " ++ l.text ++ " instructions exceeded"
  | overlong e => e.message

@[ext]
structure Report where
  machine : Machine
  log : Log
  interruption : Option Interruption

namespace Effect

-- What is logged of an effect at an address. An instruction that waits or halts was read from that
-- address, which is why its text is never too long.
def records (address : Int) : Effect → Log
  | wait => #[.debug ("Waiting for input at " ++ Decimal.text address)]
  | halt => #[.debug ("Halted at " ++ Decimal.text address)]
  | _ => #[]

end Effect

namespace Machine

def count (m : Machine) : Machine :=
  if m.status = .waiting then m else { m with steps := m.steps + 1 }

def describe (m : Machine) : Except Decimal.Overlong Record := do
  return .debug ("PC:" ++ (← Decimal.write m.pc) ++ " ST:" ++ m.status.name ++ " IN:" ++
    Decimal.text m.inputs.length ++ " OUT:" ++ Decimal.text m.outputs.size)

def trace (m : Machine) (log : Log) : Report :=
  match m.describe with
  | .ok r => ⟨m, log.push r, none⟩
  | .error e => ⟨m, log, some (.overlong e)⟩

def conclude (settings : Settings) (m : Machine) (log : Log) : Report :=
  if settings.isTraced then m.count.trace log else ⟨m.count, log, none⟩

def step (settings : Settings) (m : Machine) : Report :=
  match m.next settings.isStrict with
  | .ok (op, e) => conclude settings (m.perform op e) (e.records m.pc)
  | .error cause =>
    let fault : Fault := ⟨cause, some m.pc⟩
    match fault.text with
    | .ok text => conclude settings (m.stopOn fault) #[.debug ("Fault: " ++ text)]
    | .error e => ⟨m, #[], some (.overlong e)⟩

def stepTimes (settings : Settings) (m : Machine) (log : Log) : Nat → Report
  | 0 => ⟨m, log, none⟩
  | n + 1 =>
    let r := m.step settings
    match r.interruption with
    | none => stepTimes settings r.machine (log ++ r.log) n
    | some _ => { r with log := log ++ r.log }

end Machine
end Intcode
