import Intcode.Assembly.Statement
import Intcode.Assembly.Token
import Intcode.Text.Mismatch
import Intcode.Text.Tabs

namespace Intcode.Assembly.Grammar

abbrev Parsed (α : Type) := Option (α × List Token)

def name (cs : List Char) : String :=
  String.ofList cs

def address : List Token → Except Decimal.Overlong (Parsed Target)
  | ⟨_, .literal sign digits⟩ :: ts => do return some (.constant (← Decimal.read sign digits), ts)
  | ⟨_, .mark '&'⟩ :: ⟨_, .word w _⟩ :: ts => .ok (some (.label (name w), ts))
  | _ => .ok none

def operand : List Token → Except Decimal.Overlong (Parsed Operand)
  | ⟨_, .mark '#'⟩ :: ts => do return (← address ts).map fun (t, ts) => (⟨Mode.immediate, t⟩, ts)
  | ts => do return (← address ts).map fun (t, ts) => (⟨Mode.positional, t⟩, ts)

def skipComma : List Token → List Token
  | ⟨_, .mark ','⟩ :: ts => ts
  | ts => ts

def operands : Nat → List Token → Except Decimal.Overlong (Parsed (List Operand))
  | 0, ts => .ok (some ([], ts))
  | n + 1, ts => do
    let some (o, ts) ← operand ts | return none
    let some (os, ts) ← operands n (skipComma ts) | return none
    return some (o :: os, ts)

theorem address_length_lt {ts rest : List Token} {t : Target}
    (h : address ts = .ok (some (t, rest))) : rest.length < ts.length := by
  unfold address at h
  split at h
  · next sign digits _ =>
    cases hr : Decimal.read sign digits with
    | error e => simp [hr, bind, Except.bind] at h
    | ok n =>
      simp only [hr, bind, Except.bind, pure, Except.pure, Except.ok.injEq, Option.some.injEq,
        Prod.mk.injEq] at h
      simp [← h.2]
  · simp only [Except.ok.injEq, Option.some.injEq, Prod.mk.injEq] at h
    simp only [← h.2, List.length_cons]
    omega
  · simp at h

theorem skipComma_length_le (ts : List Token) : (skipComma ts).length ≤ ts.length := by
  unfold skipComma
  split <;> simp

def addresses (ts : List Token) : Except Decimal.Overlong (List Target × List Token) :=
  match _h : address ts with
  | .error e => .error e
  | .ok none => .ok ([], ts)
  | .ok (some (t, rest)) => do
    let (more, rest) ← addresses (skipComma rest)
    return (t :: more, rest)
termination_by ts.length
decreasing_by exact Nat.lt_of_le_of_lt (skipComma_length_le _) (address_length_lt _h)

def mnemonic? (w : List Char) : Option Opcode :=
  Opcode.all.find? fun op => op.mnemonic.toList == w

def statement : List Token → Except Decimal.Overlong (Parsed Statement)
  | ⟨_, .word w _⟩ :: ⟨_, .mark ':'⟩ :: ts => .ok (some (.label (name w), ts))
  | ⟨_, .word w true⟩ :: ts =>
    match mnemonic? w with
    | some op => do return (← operands op.arity ts).map fun (os, ts) => (.instruction op os, ts)
    | none =>
      if w = "data".toList then do
        match ← addresses ts with
        | ([], _) => return none
        | (vs, ts) => return some (.data vs, ts)
      else .ok none
  | _ => .ok none

-- Statements as long as there are some, and the tokens that are left. The fuel is a bound on their
-- number, and one token for each is enough.
def statements : Nat → List Token → Except Decimal.Overlong (List Statement × List Token)
  | 0, ts => .ok ([], ts)
  | fuel + 1, ts => do
    let some (s, rest) ← statement ts | return ([], ts)
    let (more, rest) ← statements fuel rest
    return (s :: more, rest)

def parseChars (cs : List Char) : Except Text.ReadError (List Statement) :=
  let ts := Token.scan cs
  match statements ts.length ts with
  | .error e => .error (.overlong e)
  | .ok (ss, []) => .ok ss
  | .ok (_, t :: _) =>
    .error (.mismatch (.ofRest "Expected end of text" cs (cs.drop t.offset)))

def parse (s : String) : Except Text.ReadError (List Statement) :=
  parseChars (Text.expandTabs s.toList)

end Intcode.Assembly.Grammar
