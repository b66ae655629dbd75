import Intcode.Instruction

namespace Intcode.Assembly

inductive Target where
  | constant (n : Int)
  | label (name : String)
  deriving DecidableEq, Repr

@[ext]
structure Operand where
  mode : Int
  target : Target
  deriving DecidableEq, Repr

inductive Statement where
  | label (name : String)
  | instruction (op : Opcode) (operands : List Operand)
  | data (values : List Target)
  deriving DecidableEq, Repr

@[ext]
structure Module where
  name : String
  contents : String
  deriving DecidableEq, Repr

end Intcode.Assembly
