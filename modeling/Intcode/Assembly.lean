import Intcode.Assembly.Grammar
import Intcode.Assembly.Layout

namespace Intcode.Assembly

def Module.parse (m : Module) : Except Rejection (List Statement) :=
  match Grammar.parse m.contents with
  | .ok ss => .ok ss
  | .error (.mismatch place) => .error (.mismatch m.name place)
  | .error (.overlong e) => .error (.overlong e)

def Layout.addModule (l : Layout) (m : Module) : Logged Rejection Layout := do
  .note (.info ("Processing " ++ m.name))
  let ss ← Logged.lift m.parse
  ss.foldlM Layout.add l

def layout (ms : List Module) : Logged Rejection Layout :=
  ms.foldlM Layout.addModule .empty

def assemble (ms : List Module) : Logged Rejection (List Int) := do
  let l ← layout ms
  Logged.lift l.link

def Module.ofSource (contents : String) : Module :=
  ⟨"<source>", contents⟩

end Intcode.Assembly
