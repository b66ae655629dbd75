import Intcode.Decimal

namespace Intcode

namespace Fault

inductive Cause where
  | address (address size : Int)
  | mode (mode : Int)
  | opcode (word : Int)
  | other (message : String)
  deriving DecidableEq, Repr

def Cause.message : Cause → Except Decimal.Overlong String
  | address a size => do
    return "Address " ++ (← Decimal.write a) ++ " outside of memory [0, " ++
      (← Decimal.write size) ++ ")"
  | mode m => do return "Unknown parameter mode " ++ (← Decimal.write m)
  | opcode w => do return "Unknown instruction " ++ (← Decimal.write w)
  | other message => .ok message

end Fault

@[ext]
structure Fault where
  cause : Fault.Cause
  pc : Option Int
  deriving DecidableEq, Repr

namespace Fault

def message (f : Fault) : Except Decimal.Overlong String :=
  f.cause.message

def text (f : Fault) : Except Decimal.Overlong String := do
  let message ← f.message
  match f.pc with
  | none => return message
  | some pc => return message ++ " (pc=" ++ (← Decimal.write pc) ++ ")"

end Fault
end Intcode
