import Intcode.FileTree
import Intcode.Program

namespace Intcode.Program

inductive LoadError where
  | file (error : FileTree.Error)
  | text (error : Text.ReadError)
  deriving DecidableEq

def LoadError.message : LoadError → String
  | file e => e.message
  | text e => e.message

def load (t : FileTree) (p : Path) : Logged LoadError (List Int) := do
  .note (.debug ("Loading program " ++ p.text))
  let s ← Logged.lift ((t.readText p).mapError .file)
  (parseLogged s).mapError .text

end Intcode.Program
