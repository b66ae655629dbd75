import Intcode.Assembly.File
import Intcode.Command.Transcript
import Intcode.Command.Usage

namespace Intcode.Command

namespace Assemble

inductive Key where
  | verbose
  | help
  deriving DecidableEq, Repr

def verbose : Switch Key :=
  ⟨.verbose, some 'v', "--verbose", none, "Sets logging level to debug"⟩

def help : Switch Key :=
  ⟨.help, none, "--help", none, "Show this message and exit."⟩

def synopsis : Synopsis Key where
  command := "intcode-asm"
  arguments := "[SOURCES]... PROGRAM"
  switches := [verbose, help]

structure Request where
  verbose : Bool
  sources : List Path
  output : Path

def request (as : Arguments Key) : Except UsageError Request :=
  match as.others.getLast? with
  | none => .error (.missing "PROGRAM")
  | some output => .ok ⟨as.has .verbose, as.others.dropLast.map .ofString, .ofString output⟩

def session (t : FileTree) (r : Request) : FileTree × Transcript Assembly.BuildError :=
  let (t, built) := Assembly.build t r.sources r.output
  let events := Event.ofLog (#[.info "INTCODE ASM"] ++ built.log)
  (t, ⟨"", eventsText r.verbose events, built.result.map fun _ => (0, none)⟩)

end Assemble

def assemble (t : FileTree) (arguments : List String) :
    FileTree × Transcript Assembly.BuildError :=
  match Arguments.parse Assemble.synopsis.switches arguments with
  | .error e => (t, .ofComplaint (Assemble.synopsis.complaint (.argument e)))
  | .ok as =>
    if as.has .help then (t, .ofHelp Assemble.synopsis.help)
    else
      match Assemble.request as with
      | .error e => (t, .ofComplaint (Assemble.synopsis.complaint e))
      | .ok r => Assemble.session t r

end Intcode.Command
