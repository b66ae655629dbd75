import Intcode.Log
import Intcode.Text.Blank
import Intcode.Text.Literal
import Intcode.Text.Mismatch
import Intcode.Text.Tabs

namespace Intcode.Program

def skip (cs : List Char) : List Char :=
  cs.dropWhile Text.isGap

theorem skip_length_le (cs : List Char) : (skip cs).length ≤ cs.length :=
  (List.dropWhile_sublist _).length_le

def literal? (cs : List Char) : Option Text.Literal :=
  Text.Literal.read? (skip cs)

theorem literal?_rest_length_lt {cs : List Char} {l : Text.Literal} (h : literal? cs = some l) :
    l.rest.length < cs.length :=
  Nat.lt_of_lt_of_le (Text.Literal.rest_length_lt h) (skip_length_le cs)

def nextLiteral? (cs : List Char) : Option Text.Literal :=
  match skip cs with
  | ',' :: cs => literal? cs
  | _ => none

theorem nextLiteral?_rest_length_lt {cs : List Char} {l : Text.Literal}
    (h : nextLiteral? cs = some l) : l.rest.length < cs.length := by
  unfold nextLiteral? at h
  split at h
  · next r eq =>
    have := literal?_rest_length_lt h
    have := skip_length_le cs
    simp only [eq, List.length_cons] at this
    omega
  · contradiction

-- The integers that follow the first one, each after a comma, and what is left. A comma without a
-- literal is left.
def moreWords (cs : List Char) : Except Decimal.Overlong (List Int × List Char) :=
  match _h : nextLiteral? cs with
  | none => .ok ([], cs)
  | some l => do
    let w ← l.value
    let (ws, rest) ← moreWords l.rest
    return (w :: ws, rest)
termination_by cs.length
decreasing_by exact nextLiteral?_rest_length_lt _h

def prepare (s : String) : List Char :=
  Text.expandTabs (Text.trim Text.isBlank s.toList)

def parseChars (cs : List Char) : Except Text.ReadError (List Int) :=
  match literal? cs with
  | none => .error (.mismatch (.ofRest "Expected Re:('[+-]?[0-9]+')" cs cs))
  | some l =>
    match (do let w ← l.value; let (ws, rest) ← moreWords l.rest; return (w :: ws, rest)) with
    | .error e => .error (.overlong e)
    | .ok (ws, rest) =>
      if skip rest = [] then .ok ws
      else .error (.mismatch (.ofRest "Expected end of text" cs (skip rest)))

def parse (s : String) : Except Text.ReadError (List Int) :=
  parseChars (prepare s)

def parseLogged (s : String) : Logged Text.ReadError (List Int) := do
  let ws ← Logged.lift (parse s)
  .note (.debug ("Parsed program of " ++ Decimal.text ws.length ++ " words"))
  return ws

def format (ws : List Int) : Except Decimal.Overlong String := do
  return ",".intercalate (← ws.mapM Decimal.write)

end Intcode.Program
