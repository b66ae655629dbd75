import Intcode.Machine.Step

namespace Intcode.Machine

def reached? (settings : Settings) (taken : Nat) : Option StepLimit :=
  settings.stepLimit.filter (·.bound ≤ taken)

-- A run that has taken some steps and logged some records. The limit is looked at before each step,
-- and a step that waits counts for it.
def runFrom (settings : Settings) (taken : Nat) (m : Machine) (log : Log) : Nat → Option Report
  | 0 => none
  | fuel + 1 =>
    if m.status = .runnable then
      match reached? settings taken with
      | some l => some ⟨m, log, some (.stepLimit l)⟩
      | none =>
        let r := m.step settings
        match r.interruption with
        | none => runFrom settings (taken + 1) r.machine (log ++ r.log) fuel
        | some e => some ⟨r.machine, log ++ r.log, some e⟩
    else some ⟨m, log, none⟩

def run (settings : Settings) (fuel : Nat) (m : Machine) : Option Report :=
  runFrom settings 0 m #[] fuel

def resume (settings : Settings) (fuel : Nat) (m : Machine) : Option Report :=
  match m.status with
  | .halted | .faulted =>
    some ⟨m, #[.debug ("Resume ignored, machine is " ++ m.status.name)], none⟩
  | .runnable | .waiting => run settings fuel { m with status := .runnable }

theorem runFrom_mono {settings : Settings} {taken : Nat} {m : Machine} {log : Log} {fuel more : Nat}
    {r : Report} (h : runFrom settings taken m log fuel = some r) (le : fuel ≤ more) :
    runFrom settings taken m log more = some r := by
  induction fuel generalizing taken m log more with
  | zero => simp [runFrom] at h
  | succ fuel ih =>
    obtain ⟨more, rfl⟩ : ∃ k, more = k + 1 := ⟨more - 1, by omega⟩
    simp only [runFrom] at h ⊢
    repeat' split at h
    all_goals simp_all

end Intcode.Machine
