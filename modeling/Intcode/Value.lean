import Intcode.Text.Quoted
import Intcode.Value.Moment
import Intcode.Value.Number

namespace Intcode

inductive Value where
  | null
  | bool (b : Bool)
  | int (n : Int)
  | number (x : Binary64)
  | string (s : String)
  | moment (m : Moment)
  | list (vs : List Value)
  | table (entries : List (String × Value))

namespace Value

instance : Inhabited Value :=
  ⟨null⟩

def isTrue : Value → Bool
  | null => false
  | bool b => b
  | int n => n != 0
  | number x => !x.isZero
  | string s => s != ""
  | moment _ => true
  | list vs => !vs.isEmpty
  | table es => !es.isEmpty

def kind : Value → String
  | null => "NoneType"
  | bool _ => "bool"
  | int _ => "int"
  | number _ => "float"
  | string _ => "str"
  | moment m => m.kind
  | list _ => "list"
  | table _ => "dict"

def boolText (b : Bool) : String :=
  if b then "True" else "False"

mutual

def text : Value → Except Decimal.Overlong String
  | null => .ok "None"
  | bool b => .ok (boolText b)
  | int n => Decimal.write n
  | number x => .ok x.text
  | string s => .ok (Text.quoted s)
  | moment m => .ok m.text
  | list vs => do return "[" ++ ", ".intercalate (← texts vs) ++ "]"
  | table es => do return "\x7b" ++ ", ".intercalate (← entryTexts es) ++ "\x7d"

def texts : List Value → Except Decimal.Overlong (List String)
  | [] => .ok []
  | v :: vs => do
    let first ← text v
    return first :: (← texts vs)

def entryTexts : List (String × Value) → Except Decimal.Overlong (List String)
  | [] => .ok []
  | (k, v) :: es => do
    let first ← text v
    return (Text.quoted k ++ ": " ++ first) :: (← entryTexts es)

end

end Value
end Intcode
