import Intcode.Command.Prompt
import Intcode.Command.Transcript
import Intcode.Command.Usage
import Intcode.Configuration
import Intcode.Program.File

namespace Intcode.Command

namespace Run

inductive Key where
  | verbose
  | input
  | interactive
  | maxSteps
  | lenientModes
  | trace
  | config
  | help
  deriving DecidableEq, Repr

def verbose : Switch Key :=
  ⟨.verbose, some 'v', "--verbose", none, "Sets logging level to debug"⟩

def input : Switch Key :=
  ⟨.input, some 'i', "--input", some "INTEGER", "Queue an input value"⟩

def interactive : Switch Key :=
  ⟨.interactive, none, "--interactive", none, "Prompt for input when the machine waits"⟩

def maxSteps : Switch Key :=
  ⟨.maxSteps, none, "--max-steps", some "INTEGER", "Stop after this many instructions"⟩

def lenientModes : Switch Key :=
  ⟨.lenientModes, none, "--lenient-modes", none, "Treat unknown parameter modes as positional"⟩

def trace : Switch Key :=
  ⟨.trace, none, "--trace", none, "Dump machine state after every instruction"⟩

def config : Switch Key :=
  ⟨.config, some 'c', "--config", some "PATH", ""⟩

def help : Switch Key :=
  ⟨.help, none, "--help", none, "Show this message and exit."⟩

def synopsis : Synopsis Key where
  command := "intcode-run"
  arguments := "PROGRAM_FILENAME"
  switches := [verbose, input, interactive, maxSteps, lenientModes, trace, config, help]

structure Request where
  verbose : Bool
  inputs : List Int
  interactive : Bool
  maxSteps : Option Int
  lenientModes : Bool
  trace : Bool
  config : Option Path
  program : Path

def integers (names : String) (values : List String) : Except UsageError (List Int) :=
  values.mapM fun v =>
    match integer? v with
    | some n => .ok n
    | none => .error (.noInteger names v)

inductive Misuse where
  | usage (error : UsageError)
  | path (error : FileTree.Error)

def checkPath (t : FileTree) (p : String) : Except Misuse Unit := do
  if !(← (t.existsAt p).mapError .path) then
    throw (.usage (.noPath config.quotedNames p))

-- What is wrong with the values of an option, if something is. Of an option that is given more than
-- once, only the last value counts, except for inputs.
def check (t : FileTree) (as : Arguments Key) : Key → Except Misuse Unit
  | .input => do discard ((integers input.quotedNames (as.values .input)).mapError .usage)
  | .maxSteps => do
    let values := (as.values .maxSteps).getLast?.toList
    discard ((integers maxSteps.quotedNames values).mapError .usage)
  | .config => (as.values .config).getLast?.forM (checkPath t)
  | _ => .ok ()

def request (t : FileTree) (as : Arguments Key) : Except Misuse Request := do
  as.keys.forM (check t as)
  match as.others with
  | [] => throw (.usage (.missing synopsis.arguments))
  | program :: [] =>
    return {
      verbose := as.has .verbose
      inputs := ← (integers input.quotedNames (as.values .input)).mapError .usage
      interactive := as.has .interactive
      maxSteps := (as.values .maxSteps).getLast?.bind integer?
      lenientModes := as.has .lenientModes
      trace := as.has .trace
      config := (as.values .config).getLast?.map .ofString
      program := .ofString program }
  | _ :: more => throw (.usage (.unexpected more))

inductive Failure where
  | configuration (error : Configuration.Error)
  | program (error : Program.LoadError)
  | overlong (error : Decimal.Overlong)

def Failure.message : Failure → String
  | configuration e => e.message
  | program e => e.message
  | overlong e => e.message

def Request.update (r : Request) : Settings.Update where
  stepLimit := r.maxSteps.elim .null .int
  strictModes := if r.lenientModes then .bool false else .null
  trace := if r.trace then .bool true else .null

def Request.settings (r : Request) (t : FileTree) : Except Configuration.Error Settings := do
  let s ← match r.config with
    | some p => Configuration.load t p
    | none => .ok .default
  (s.update r.update).mapError .refused

structure Session where
  events : Array Event
  printed : String
  status : ExitStatus
  failure : Option Failure

namespace Session

def stop (events : Array Event) (status : ExitStatus) (message : String) : Session :=
  ⟨events.push (.record (.info message)), "", status, none⟩

def giveUp (events : Array Event) (printed : String) (f : Failure) : Session :=
  let message := "Execution halted on general error " ++ f.message
  ⟨events.push (.record (.info message)), printed, .failed, some f⟩

end Session

def printOutputs : List Int → String × Option Decimal.Overlong
  | [] => ("", none)
  | v :: vs =>
    match Decimal.write v with
    | .error e => ("", some e)
    | .ok s =>
      let (printed, e) := printOutputs vs
      (s ++ "\n" ++ printed, e)

def finish (events : Array Event) (m : Machine) : Session :=
  match printOutputs m.outputs.toList with
  | (printed, some e) => .giveUp events printed (.overlong e)
  | (printed, none) =>
    match m.farewell with
    | .ok r => ⟨events.push (.record r), printed, .ofMachine m, none⟩
    | .error e => .giveUp events printed (.overlong e)

def conclude (result : Except Execution.Failure Machine) (events : Array Event) : Session :=
  match result with
  | .ok m => finish events m
  | .error .noInput => .stop events .aborted "Execution halted by the user"
  | .error (.interruption (.overlong e)) => .giveUp events "" (.overlong e)
  | .error (.interruption cause) =>
    .stop events .stepLimit ("Execution stopped: " ++ cause.message)

-- What is needed for a run, and what is seen while it is gathered: first the configuration is read,
-- then the program.
def prepare (t : FileTree) (r : Request) : Array Event × Except Failure (Settings × List Int) :=
  let banner : Array Event := #[.record (.info "INTCODE")]
  match r.settings t with
  | .error e => (banner, .error (.configuration e))
  | .ok settings =>
    let loaded := Program.load t r.program
    (banner ++ Event.ofLog loaded.log,
      (loaded.result.mapError .program).map fun ws => (settings, ws))

-- Runs a program file; standard input is read only in an interactive run.
def session (t : FileTree) (r : Request) (stdin : String) (fuel : Nat) : Option Session :=
  match prepare t r with
  | (events, .error f) => some (.giveUp events "" f)
  | (events, .ok (settings, ws)) =>
    let source := if r.interactive then some (Prompt.source stdin) else none
    (execute settings ws r.inputs source fuel).map fun o => conclude o.result (events ++ o.events)

def transcript (r : Request) (s : Session) : Transcript Failure :=
  ⟨s.printed, eventsText (r.verbose || r.trace) s.events, .ok (s.status.code, s.failure)⟩

end Run

def run (t : FileTree) (arguments : List String) (stdin : String) (fuel : Nat) :
    Option (Transcript Run.Failure) :=
  match Arguments.parse Run.synopsis.switches arguments with
  | .error e => some (.ofComplaint (Run.synopsis.complaint (.argument e)))
  | .ok as =>
    if as.has .help then some (.ofHelp Run.synopsis.help)
    else
      match Run.request t as with
      | .error (.usage e) => some (.ofComplaint (Run.synopsis.complaint e))
      | .error (.path e) => some (.ofError (.configuration (.file e)))
      | .ok r => (Run.session t r stdin fuel).map (Run.transcript r)

end Intcode.Command
