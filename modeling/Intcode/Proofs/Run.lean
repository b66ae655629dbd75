import Intcode.Machine.Run
import Intcode.Proofs.Step

namespace Intcode.Machine

variable {settings : Settings} {m m₁ m₂ m₃ : Machine}

inductive Steps (settings : Settings) : Machine → Machine → Prop
  | refl {m : Machine} : Steps settings m m
  | step {m₁ m₂ m₃ : Machine} (runnable : m₁.status = .runnable) (e : Step settings m₁ m₂)
    (es : Steps settings m₂ m₃) : Steps settings m₁ m₃

namespace Steps

theorem outputs_isPrefix (e : Steps settings m₁ m₂) : m₁.outputs.toList <+: m₂.outputs.toList := by
  induction e
  case refl          => exact List.prefix_refl _
  case step e _ hi   => exact e.outputs_isPrefix.trans hi

theorem eq_of_stopped (e : Steps settings m₁ m₂) (h : m₁.status ≠ .runnable) : m₁ = m₂ := by
  cases e
  case refl        => rfl
  case step hr _ _ => exact absurd hr h

-- A chain that ends in a machine which has stopped continues every other chain from its start.
theorem continues (e₁ : Steps settings m m₁) (e₂ : Steps settings m m₂)
    (h : m₂.status ≠ .runnable) : Steps settings m₁ m₂ := by
  induction e₁
  case refl => exact e₂
  case step hr e _ hi =>
    cases e₂
    case refl          => exact absurd hr h
    case step _ e' es' => exact hi (e.deterministic e' ▸ es')

theorem deterministic (e₁ : Steps settings m m₁) (e₂ : Steps settings m m₂)
    (h₁ : m₁.status ≠ .runnable) (h₂ : m₂.status ≠ .runnable) : m₁ = m₂ :=
  (e₁.continues e₂ h₂).eq_of_stopped h₁

end Steps

def Runs (settings : Settings) (m₁ m₂ : Machine) : Prop :=
  ∃ fuel log, m₁.run settings fuel = some ⟨m₂, log, none⟩

def Resumes (settings : Settings) (m₁ m₂ : Machine) : Prop :=
  ∃ fuel log, m₁.resume settings fuel = some ⟨m₂, log, none⟩

theorem reached?_of_unlimited (unlimited : settings.stepLimit = none) (taken : Nat) :
    reached? settings taken = none := by
  simp [reached?, unlimited]

theorem steps_of_runFrom {taken fuel : Nat} {log log' : Log}
    (h : runFrom settings taken m₁ log fuel = some ⟨m₂, log', none⟩) :
    Steps settings m₁ m₂ ∧ m₂.status ≠ .runnable := by
  induction fuel generalizing taken m₁ log
  case zero => simp [runFrom] at h
  case succ fuel hi =>
    unfold runFrom at h
    split at h
    case isFalse hr =>
      obtain ⟨rfl, -⟩ : m₁ = m₂ ∧ log = log' := by simpa using h
      exact ⟨.refl, hr⟩
    case isTrue hr =>
      split at h
      case h_1 => simp at h
      case h_2 =>
        dsimp only at h
        split at h
        case h_2 => simp at h
        case h_1 hn =>
          obtain ⟨es, hs⟩ := hi h
          have e : Step settings m₁ (m₁.step settings).machine :=
            step_returns_iff.mp ⟨(m₁.step settings).log, by rw [←hn]⟩
          exact ⟨.step hr e es, hs⟩

theorem runFrom_of_stopped {taken fuel : Nat} {log : Log} {r : Report} (h : m.status ≠ .runnable)
    (hr : runFrom settings taken m log fuel = some r) : r = ⟨m, log, none⟩ := by
  cases fuel
  case zero => simp [runFrom] at hr
  case succ => simpa [runFrom, h, eq_comm] using hr

-- What each step of a runnable machine keeps, a run keeps, whether or not it returns.
theorem runFrom_keeps {P : Machine → Prop}
    (keeps : ∀ m, m.status = .runnable → P m → P (m.step settings).machine)
    {taken fuel : Nat} {log : Log} {r : Report} (h : runFrom settings taken m log fuel = some r)
    (hm : P m) : P r.machine := by
  induction fuel generalizing taken m log
  case zero => simp [runFrom] at h
  case succ fuel hi =>
    unfold runFrom at h
    split at h
    case isFalse =>
      obtain rfl : _ = r := by simpa using h
      exact hm
    case isTrue hr =>
      split at h
      case h_1 =>
        obtain rfl : _ = r := by simpa using h
        exact hm
      case h_2 =>
        dsimp only at h
        split at h
        case h_1 => exact hi h (keeps m hr hm)
        case h_2 =>
          obtain rfl : _ = r := by simpa using h
          exact keeps m hr hm

theorem Steps.runFrom (unlimited : settings.stepLimit = none) (es : Steps settings m₁ m₂)
    (hs : m₂.status ≠ .runnable) (taken : Nat) (log : Log) :
    ∃ fuel log', runFrom settings taken m₁ log fuel = some ⟨m₂, log', none⟩ := by
  induction es generalizing taken log
  case refl => exact ⟨1, log, by simp [Machine.runFrom, hs]⟩
  case step hr e _ hi =>
    obtain ⟨log₁, h₁⟩ := step_returns_iff.mpr e
    obtain ⟨fuel, log₂, h₂⟩ := hi hs (taken + 1) (log ++ log₁)
    refine ⟨fuel + 1, log₂, ?_⟩
    simp [Machine.runFrom, hr, reached?_of_unlimited unlimited, h₁, h₂]

theorem runs_iff (unlimited : settings.stepLimit = none) :
    Runs settings m₁ m₂ ↔ Steps settings m₁ m₂ ∧ m₂.status ≠ .runnable where
  mp  := fun ⟨_, _, h⟩ => steps_of_runFrom h
  mpr := fun ⟨es, hs⟩ => es.runFrom unlimited hs 0 #[]

namespace Runs

theorem steps : (Runs settings m₁ m₂) → Steps settings m₁ m₂
  | ⟨_, _, h⟩ => (steps_of_runFrom h).left

theorem stopped : (Runs settings m₁ m₂) → m₂.status ≠ .runnable
  | ⟨_, _, h⟩ => (steps_of_runFrom h).right

theorem deterministic (r₁ : Runs settings m m₁) (r₂ : Runs settings m m₂) : m₁ = m₂ :=
  r₁.steps.deterministic r₂.steps r₁.stopped r₂.stopped

end Runs

def Ended (m : Machine) : Prop :=
  m.status = .halted ∨ m.status = .faulted

instance (m : Machine) : Decidable m.Ended :=
  inferInstanceAs (Decidable (_ ∨ _))

def wake (m : Machine) : Machine :=
  { m with status := .runnable }

theorem not_ended_of_runnable (h : m.status = .runnable) : ¬m.Ended := by
  simp [Ended, h]

theorem resume_of_ended (h : m.Ended) (settings : Settings) (fuel : Nat) :
    m.resume settings fuel =
      some ⟨m, #[.debug ("Resume ignored, machine is " ++ m.status.name)], none⟩ := by
  obtain hs | hs := h <;> simp [resume, hs]

theorem resume_of_not_ended (h : ¬m.Ended) (settings : Settings) (fuel : Nat) :
    m.resume settings fuel = m.wake.run settings fuel := by
  obtain ⟨_, _⟩ := not_or.mp h
  cases hs : m.status <;> simp_all [resume, wake]

theorem resume_cases {fuel : Nat} {r : Report} (h : m.resume settings fuel = some r) :
    m.Ended ∧ r.machine = m ∧ r.interruption = none ∨
      ¬m.Ended ∧ m.wake.run settings fuel = some r := by
  by_cases he : m.Ended
  case pos =>
    rw [resume_of_ended he] at h
    obtain rfl : _ = r := by simpa using h
    exact .inl ⟨he, rfl, rfl⟩
  case neg => exact .inr ⟨he, by rwa [resume_of_not_ended he] at h⟩

theorem resumes_iff_of_ended (h : m₁.Ended) : Resumes settings m₁ m₂ ↔ m₁ = m₂ := by
  simp [Resumes, resume_of_ended h]

theorem resumes_iff_of_not_ended (h : ¬m₁.Ended) :
    Resumes settings m₁ m₂ ↔ Runs settings m₁.wake m₂ := by
  simp only [Resumes, resume_of_not_ended h, Runs]

namespace Resumes

theorem deterministic (r₁ : Resumes settings m m₁) (r₂ : Resumes settings m m₂) : m₁ = m₂ := by
  by_cases h : m.Ended
  case pos => exact (resumes_iff_of_ended h).mp r₁ ▸ (resumes_iff_of_ended h).mp r₂
  case neg =>
    exact ((resumes_iff_of_not_ended h).mp r₁).deterministic ((resumes_iff_of_not_ended h).mp r₂)

theorem outputs_isPrefix (r : Resumes settings m₁ m₂) :
    m₁.outputs.toList <+: m₂.outputs.toList := by
  by_cases h : m₁.Ended
  case pos => exact (resumes_iff_of_ended h).mp r ▸ List.prefix_refl _
  case neg => exact ((resumes_iff_of_not_ended h).mp r).steps.outputs_isPrefix

end Resumes
end Intcode.Machine
