import Intcode.Assembly
import Intcode.Execution
import Intcode.Program

namespace Intcode

inductive Rack.Failure where
  | noMachine
  | noItem
  | unfinished
  | settings (cause : Settings.Refusal)
  | text (cause : Text.ReadError)
  | source (cause : Assembly.Rejection)
  | fault (fault : Fault)
  | interruption (cause : Interruption)

structure Rack.Answer where
  machine : Machine
  log : Log
  value : Except Rack.Failure (Option Int)

namespace Machine

def answer (m : Machine) : Rack.Answer :=
  ⟨m, #[], .ok none⟩

def answerReport (m : Machine) : Option Report → Rack.Answer
  | none => ⟨m, #[], .error .unfinished⟩
  | some r =>
    match r.interruption with
    | none => ⟨r.machine, r.log, .ok none⟩
    | some cause => ⟨r.machine, r.log, .error (.interruption cause)⟩

-- A fault outside of a step. Its message is made when it happens; an address outside of memory does
-- not say where it happened, an unknown mode does.
def raise (m : Machine) (cause : Fault.Cause) : Rack.Failure :=
  match cause.message with
  | .error e => .interruption (.overlong e)
  | .ok _ =>
    match cause with
    | .mode _ => .fault ⟨cause, some m.pc⟩
    | _ => .fault ⟨cause, none⟩

def answerWord (m : Machine) : Except Fault.Cause Int → Rack.Answer
  | .ok v => ⟨m, #[], .ok (some v)⟩
  | .error cause => ⟨m, #[], .error (m.raise cause)⟩

def probe (m : Machine) (address word : Int) (k : Instruction → Rack.Answer) : Rack.Answer :=
  match Instruction.decode address word with
  | .ok i => k i
  | .error cause =>
    match cause.message with
    | .ok _ => ⟨m, #[], .error (.fault ⟨cause, some address⟩)⟩
    | .error e => ⟨m, #[], .error (.interruption (.overlong e))⟩

def resolveWord (settings : Settings) (m : Machine) (raw mode : Int) : Rack.Answer :=
  m.answerWord (m.memory.resolve settings.isStrict raw mode)

def readParameter (m : Machine) (address word n : Int) : Rack.Answer :=
  m.probe address word fun i => m.answerWord (i.parameter m.memory n)

def readOperand (settings : Settings) (m : Machine) (address word n : Int) : Rack.Answer :=
  m.probe address word fun i =>
    match i.parameter m.memory n, i.mode? n with
    | .error cause, _ => m.answerWord (.error cause)
    | .ok _, none => ⟨m, #[], .error .noItem⟩
    | .ok raw, some mode => m.resolveWord settings raw mode

def writeParameter (m : Machine) (address word n value : Int) : Rack.Answer :=
  m.probe address word fun i =>
    match (do let a ← i.parameter m.memory n; m.memory.write a value) with
    | .ok memory => answer { m with memory := memory }
    | .error cause => m.answerWord (.error cause)

def dump (m : Machine) : Rack.Answer :=
  m.answerReport (some (m.trace #[]))

def exitCode (m : Machine) : Rack.Answer :=
  match m.farewell with
  | .ok r => ⟨m, #[r], .ok (some (ExitStatus.ofMachine m).code)⟩
  | .error e => ⟨m, #[], .error (.interruption (.overlong e))⟩

end Machine

namespace Rack

inductive Key where
  | number (n : Int)
  | name (s : String)
  deriving DecidableEq

structure Bay where
  machine : Machine
  panel : Nat

end Rack

structure Rack where
  panels : Array Settings
  bays : List (Rack.Key × Rack.Bay)

namespace Rack

def empty : Rack :=
  ⟨#[], []⟩

def find? (r : Rack) (k : Key) : Option Bay :=
  r.bays.lookup k

def settings (r : Rack) (b : Bay) : Settings :=
  r.panels.getD b.panel .default

def remove (r : Rack) (k : Key) : Rack :=
  { r with bays := r.bays.filter fun (k', _) => k' ≠ k }

def place (r : Rack) (k : Key) (b : Bay) : Rack :=
  { r with bays := (k, b) :: (r.remove k).bays }

def addPanel (r : Rack) (s : Settings) : Rack × Nat :=
  ({ r with panels := r.panels.push s }, r.panels.size)

structure Outcome where
  rack : Rack
  log : Log
  value : Except Failure (Option Int)

inductive Wiring where
  | own (update : Settings.Update)
  | shared (key : Key)

inductive Code where
  | words (ws : List Int)
  | text (s : String)
  | source (s : String)

def Code.read : Code → Logged Failure (List Int)
  | words ws => pure ws
  | text s => (Program.parseLogged s).mapError .text
  | source s => (Assembly.assemble [.ofSource s]).mapError .source

def wire (r : Rack) : Wiring → Except Failure (Rack × Nat)
  | .own update =>
    match Settings.default.update update with
    | .ok s => .ok (r.addPanel s)
    | .error cause => .error (.settings cause)
  | .shared k =>
    match r.find? k with
    | some b => .ok (r, b.panel)
    | none => .error .noMachine

def install (r : Rack) (k : Key) (code : Code) (wiring : Wiring) : Outcome :=
  match r.wire wiring with
  | .error e => ⟨r.remove k, #[], .error e⟩
  | .ok (wired, panel) =>
    let read := code.read
    match read.result with
    | .error e => ⟨r.remove k, read.log, .error e⟩
    | .ok ws => ⟨wired.place k ⟨.ofWords ws, panel⟩, read.log, .ok none⟩

def call (r : Rack) (k : Key) (f : Settings → Machine → Answer) : Outcome :=
  match r.find? k with
  | none => ⟨r, #[], .error .noMachine⟩
  | some b =>
    let a := f (r.settings b) b.machine
    ⟨r.place k { b with machine := a.machine }, a.log, a.value⟩

def feed (r : Rack) (k source : Key) : Outcome :=
  match r.find? k, r.find? source with
  | some _, some b =>
    match b.machine.lastOutput? with
    | some v => r.call k fun _ m => (m.addInput v).answer
    | none => ⟨r, #[], .error .noItem⟩
  | _, _ => ⟨r, #[], .error .noMachine⟩

def update (r : Rack) (k : Key) (u : Settings.Update) : Outcome :=
  match r.find? k with
  | none => ⟨r, #[], .error .noMachine⟩
  | some b =>
    match (r.settings b).update u with
    | .ok s => ⟨{ r with panels := r.panels.setIfInBounds b.panel s }, #[], .ok none⟩
    | .error cause => ⟨r, #[], .error (.settings cause)⟩

end Rack
end Intcode
