import Intcode.Assembly
import Intcode.FileTree
import Intcode.Program

namespace Intcode.Assembly

def Module.load (t : FileTree) (p : Path) : Logged FileTree.Error Module := do
  .note (.debug ("Collecting file " ++ p.text))
  let contents ← Logged.lift (t.readText p)
  return ⟨p.stem, contents⟩

def Module.loadAll (t : FileTree) (ps : List Path) : Logged FileTree.Error (List Module) :=
  ps.mapM (Module.load t)

inductive BuildError where
  | file (error : FileTree.Error)
  | rejected (cause : Rejection)
  | overlong (error : Decimal.Overlong)
  deriving DecidableEq

def BuildError.message : BuildError → String
  | file e => e.message
  | rejected r => r.message
  | overlong e => e.message

def assembleFiles (t : FileTree) (sources : List Path) : Logged BuildError (List Int) := do
  let ms ← (Module.loadAll t sources).mapError .file
  (assemble ms).mapError .rejected

def writeProgram (t : FileTree) (p : Path) (ws : List Int) : FileTree × Except BuildError Unit :=
  match t.ensureDirectory p.parent (p.parts.length + 1) with
  | (t, some e) => (t, .error (.file e))
  | (t, none) =>
    match Program.format ws with
    | .error e => (t, .error (.overlong e))
    | .ok s =>
      match t.writeText p (s ++ "\n") with
      | .error e => (t, .error (.file e))
      | .ok t => (t, .ok ())

def build (t : FileTree) (sources : List Path) (output : Path) :
    FileTree × Logged BuildError Unit :=
  let assembled := assembleFiles t sources
  match assembled.result with
  | .error e => (t, ⟨assembled.log, .error e⟩)
  | .ok ws =>
    let (t, written) := writeProgram t output ws
    (t, ⟨assembled.log, written⟩)

end Intcode.Assembly
