import Intcode.FileTree
import Intcode.Settings
import Intcode.Toml

namespace Intcode.Configuration

inductive Error where
  | file (error : FileTree.Error)
  | document (error : Toml.Error)
  | noTable (kind : String)
  | refused (refusal : Settings.Refusal)

def Error.message : Error → String
  | file e => e.message
  | document .malformed => "<toml>"
  | document (.overlong e) => e.message
  | noTable kind => "'" ++ kind ++ "' object has no attribute 'get'"
  | refused r => r.message

def updateOf (t : Toml.Table) : Settings.Update :=
  ⟨(t.lookup "step_limit").getD .null, (t.lookup "strict_modes").getD .null,
    (t.lookup "trace").getD .null⟩

def ofTable (t : Toml.Table) : Except Error Settings :=
  match t.lookup "machine" with
  | none => .ok .default
  | some (.table t) => (Settings.default.update (updateOf t)).mapError .refused
  | some v => .error (.noTable v.kind)

def parse (s : String) : Except Error Settings := do
  ofTable (← (Toml.parse s).mapError .document)

def load (t : FileTree) (p : Path) : Except Error Settings := do
  parse (← (t.readText p).mapError .file)

end Intcode.Configuration
