import Intcode.Text.Blank
import Intcode.Text.Digit
import Intcode.Text.Literal

namespace Intcode.Command

def moreDigits? : List Char → Option (List Nat)
  | [] => some []
  | '_' :: c :: cs => do return (← Text.digitValue? c) :: (← moreDigits? cs)
  | c :: cs => do return (← Text.digitValue? c) :: (← moreDigits? cs)

def digits? : List Char → Option (List Nat)
  | [] => none
  | c :: cs => do return (← Text.digitValue? c) :: (← moreDigits? cs)

-- The integer that a text stands for; one with too many digits stands for none.
def integer? (s : String) : Option Int := do
  let (sign, cs) := Text.Literal.splitSign (Text.trim Text.isWhiteSpace s.toList)
  let ds ← digits? cs
  if Decimal.limit < ds.length then none
  return sign.apply (ds.foldl (fun n d => n * 10 + d) 0)

end Intcode.Command
