import Intcode.Command.Assemble
import Intcode.Command.Run

namespace Intcode.Main

-- More rounds than a run can take.
def fuel : Nat := 1 <<< 62

def isDirectory (path : String) : IO Bool := do
  try
    discard (IO.FS.Handle.mk (path ++ "/.") .read)
    return true
  catch _ => return false

def look (t : FileTree) (p : Path) : IO FileTree := do
  if ← isDirectory p.text then return t.put (t.place p) .directory
  try
    let bytes ← IO.FS.readBinFile p.text
    return t.put (t.place p) (.file bytes.data.toList)
  catch _ => return t

def lookAll (paths : List String) : IO FileTree := do
  let workingDirectory := toString (← IO.currentDir)
  paths.foldlM (fun t path =>
    let p := Path.ofString path
    (List.range p.parts.length).foldlM (fun t n =>
      look t { p with parts := p.parts.take (n + 1) }) t)
    (.empty (Path.ofString workingDirectory).parts)

def store (before after : FileTree) : IO Unit := do
  for (place, entry) in after.entries.reverse do
    if before.entry? place ≠ some entry then
      let path := Path.text ⟨.root, place⟩
      match entry with
      | .directory => IO.FS.createDirAll path
      | .file bytes => IO.FS.writeBinFile path bytes.toByteArray

def display (stdout stderr : String) : IO Unit := do
  IO.eprint stderr
  IO.print stdout

def report {ε : Type} (message : ε → String) (x : Command.Transcript ε) : IO UInt32 := do
  display x.stdout x.stderr
  match x.ending with
  | .ok (code, _) => return code.toUInt32
  | .error e =>
    IO.eprintln (message e)
    return 1

partial def ask : IO (Option Int) := do
  IO.eprint Command.Prompt.question
  let line ← (← IO.getStdin).getLine
  match Command.Prompt.lines line with
  | [] => return none
  | line :: _ =>
    match Command.Prompt.read line with
    | .ok v => return some v
    | .error again =>
      IO.eprint again
      ask

partial def converse (verbose : Bool) (settings : Settings) (m : Machine) :
    IO (Except Execution.Failure Machine) := do
  if m.status ≠ .waiting then return .ok m
  match ← ask with
  | none => return .error .noInput
  | some v =>
    match (m.addInput v).resume settings fuel with
    | none => return .ok m
    | some r =>
      IO.eprint (Command.eventsText verbose (Event.ofLog r.log))
      match r.interruption with
      | some cause => return .error (.interruption cause)
      | none => converse verbose settings r.machine

def interact (t : FileTree) (r : Command.Run.Request) : IO UInt32 := do
  let verbose := r.verbose || r.trace
  let say events := IO.eprint (Command.eventsText verbose events)
  let finish (s : Command.Run.Session) : IO UInt32 := do
    display s.printed (Command.eventsText verbose s.events)
    return s.status.code.toUInt32
  let (events, prepared) := Command.Run.prepare t r
  say events
  match prepared with
  | .error f => finish (.giveUp #[] "" f)
  | .ok (settings, ws) =>
    match execute settings ws r.inputs none fuel with
    | none => return 0
    | some o =>
      say o.events
      match o.result with
      | .error e => finish (Command.Run.conclude (.error e) #[])
      | .ok m => finish (Command.Run.conclude (← converse verbose settings m) #[])

def interactive? (t : FileTree) (arguments : List String) : Option Command.Run.Request := do
  let as ← (Command.Arguments.parse Command.Run.synopsis.switches arguments).toOption
  if as.has .help then none
  let r ← (Command.Run.request t as).toOption
  if r.interactive then some r else none

def run (arguments : List String) : IO UInt32 := do
  let t ← match Command.Arguments.parse Command.Run.synopsis.switches arguments with
    | .ok as => lookAll (as.others ++ as.values .config)
    | .error _ => pure (.empty [])
  match interactive? t arguments with
  | some r => interact t r
  | none =>
    match Command.run t arguments "" fuel with
    | none => return 0
    | some x => report Command.Run.Failure.message x

def assemble (arguments : List String) : IO UInt32 := do
  let before ← match Command.Arguments.parse Command.Assemble.synopsis.switches arguments with
    | .ok as => lookAll as.others
    | .error _ => pure (.empty [])
  let (after, x) := Command.assemble before arguments
  store before after
  report Assembly.BuildError.message x

end Intcode.Main

def main (arguments : List String) : IO UInt32 :=
  match arguments with
  | "intcode-run" :: arguments => Intcode.Main.run arguments
  | "intcode-asm" :: arguments => Intcode.Main.assemble arguments
  | _ => do
    IO.eprintln "usage: intcode-run ARGUMENTS or intcode-asm ARGUMENTS"
    return 2
