import Intcode.Value

namespace Intcode

-- How many instructions one run may take: a positive count, or `once`, which a configuration writes
-- as a truth value.
inductive StepLimit where
  | count (n : Nat) (positive : 0 < n)
  | once
  deriving DecidableEq

namespace StepLimit

def bound : StepLimit → Nat
  | count n _ => n
  | once => 1

theorem bound_pos (l : StepLimit) : 0 < l.bound := by
  cases l with
  | count n positive => exact positive
  | once => exact Nat.one_pos

def ofValue? : Value → Option StepLimit
  | .int n => if h : 0 < n then some (.count n.toNat (by omega)) else none
  | .bool true => some .once
  | _ => none

def value : StepLimit → Value
  | count n _ => .int n
  | once => .bool true

def text : StepLimit → String
  | count n _ => Decimal.text n
  | once => Value.boolText true

end StepLimit

@[ext]
structure Settings where
  stepLimit : Option StepLimit
  strictModes : Value
  trace : Value

namespace Settings

def default : Settings where
  stepLimit := none
  strictModes := .bool true
  trace := .bool false

instance : Inhabited Settings :=
  ⟨default⟩

def isStrict (s : Settings) : Bool :=
  s.strictModes.isTrue

def isTraced (s : Settings) : Bool :=
  s.trace.isTrue

@[ext]
structure Update where
  stepLimit : Value := .null
  strictModes : Value := .null
  trace : Value := .null

inductive Refusal where
  | stepLimit (shown : String)
  | overlong (error : Decimal.Overlong)
  deriving DecidableEq

def Refusal.message : Refusal → String
  | stepLimit shown => "Step limit must be a positive integer, got " ++ shown
  | overlong e => e.message

def newLimit (old : Option StepLimit) : Value → Except Refusal (Option StepLimit)
  | .null => .ok old
  | v =>
    match StepLimit.ofValue? v with
    | some l => .ok (some l)
    | none =>
      match v.text with
      | .ok shown => .error (.stepLimit shown)
      | .error e => .error (.overlong e)

def newValue (old : Value) : Value → Value
  | .null => old
  | v => v

def update (s : Settings) (u : Update) : Except Refusal Settings := do
  let stepLimit ← newLimit s.stepLimit u.stepLimit
  return ⟨stepLimit, newValue s.strictModes u.strictModes, newValue s.trace u.trace⟩

theorem update_eq_ok_iff {s t : Settings} {u : Update} :
    s.update u = .ok t ↔
      newLimit s.stepLimit u.stepLimit = .ok t.stepLimit ∧
        newValue s.strictModes u.strictModes = t.strictModes ∧
          newValue s.trace u.trace = t.trace := by
  unfold update
  cases newLimit s.stepLimit u.stepLimit <;>
    simp [bind, Except.bind, pure, Except.pure, Settings.ext_iff]

def limitValue (s : Settings) : Value :=
  (s.stepLimit.map StepLimit.value).getD .null

end Settings
end Intcode
