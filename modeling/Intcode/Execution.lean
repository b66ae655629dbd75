import Intcode.Machine.Run

namespace Intcode

inductive Event where
  | record (r : Record)
  | console (text : String)
  deriving DecidableEq

namespace Event

def ofLog (log : Log) : Array Event :=
  log.map record

def record? : Event → Option Record
  | record r => some r
  | console _ => none

end Event

structure Reply where
  shown : String
  value : Option Int

-- A source of inputs; the replies are numbered from zero.
abbrev Source := Nat → Reply

namespace Source

def ofList (vs : List Int) : Source :=
  fun k => ⟨"", vs[k]?⟩

def ofStream (vs : Nat → Int) : Source :=
  fun k => ⟨"", some (vs k)⟩

end Source

namespace Execution

inductive Failure where
  | interruption (cause : Interruption)
  | noInput
  deriving DecidableEq

structure Outcome where
  events : Array Event
  requests : Nat
  result : Except Failure Machine

def supply (settings : Settings) (source : Source) (fuel requests : Nat) (m : Machine)
    (events : Array Event) : Nat → Option Outcome
  | 0 => none
  | rounds + 1 =>
    if m.status = .waiting then
      let reply := source requests
      let events := events.push (.console reply.shown)
      match reply.value with
      | none => some ⟨events, requests + 1, .error .noInput⟩
      | some v =>
        match (m.addInput v).resume settings fuel with
        | none => none
        | some r =>
          let events := events ++ Event.ofLog r.log
          match r.interruption with
          | some cause => some ⟨events, requests + 1, .error (.interruption cause)⟩
          | none => supply settings source fuel (requests + 1) r.machine events rounds
    else some ⟨events, requests, .ok m⟩

end Execution

def execute (settings : Settings) (program inputs : List Int) (source : Option Source)
    (fuel : Nat) : Option Execution.Outcome :=
  match ((Machine.ofWords program).setInputs inputs).run settings fuel with
  | none => none
  | some r =>
    let events := Event.ofLog r.log
    match r.interruption, source with
    | some cause, _ => some ⟨events, 0, .error (.interruption cause)⟩
    | none, none => some ⟨events, 0, .ok r.machine⟩
    | none, some source => Execution.supply settings source fuel 0 r.machine events fuel

inductive ExitStatus where
  | halted
  | waiting
  | faulted
  | aborted
  | stepLimit
  | failed
  deriving DecidableEq, Repr

namespace ExitStatus

def code : ExitStatus → Nat
  | halted => 0
  | waiting => 1
  | faulted => 2
  | aborted => 3
  | stepLimit => 4
  | failed => 100

-- The status of a machine that was executed; what neither halts nor waits counts as faulted.
def ofMachine (m : Machine) : ExitStatus :=
  match m.status with
  | .halted => halted
  | .waiting => waiting
  | .runnable | .faulted => faulted

end ExitStatus

namespace Machine

def farewell (m : Machine) : Except Decimal.Overlong Record := do
  match m.status with
  | .halted => return .info "Execution halted gracefully"
  | .waiting => return .info ("Execution stopped waiting for input at " ++ (← Decimal.write m.pc))
  | .runnable | .faulted =>
    match m.fault with
    | none => return .info "Execution halted on fault: None"
    | some f => return .info ("Execution halted on fault: " ++ (← f.text))

end Machine
end Intcode
