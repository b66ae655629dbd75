import Mathlib.Algebra.Order.Floor.Div
import Mathlib.Order.Bounds.Basic
import Intcode.Proofs.Run

namespace Intcode

def Settings.unlimited (s : Settings) : Settings :=
  { s with stepLimit := none }

namespace Machine

variable {settings : Settings} {l : StepLimit} {m m₁ m₂ m₃ : Machine} {n k q : Nat}

def after (settings : Settings) (m : Machine) : Nat → Machine
  | 0     => m
  | n + 1 => ((m.after settings n).step settings).machine

theorem after_succ (settings : Settings) (m : Machine) (n : Nat) :
    m.after settings (n + 1) = (m.step settings).machine.after settings n := by
  induction n
  case zero      => rfl
  case succ n hi => rw [after, hi, after]

inductive StepsIn (settings : Settings) : Nat → Machine → Machine → Prop
  | refl {m : Machine} : StepsIn settings 0 m m
  | step {n : Nat} {m₁ m₂ m₃ : Machine} (runnable : m₁.status = .runnable)
    (e : Step settings m₁ m₂) (es : StepsIn settings n m₂ m₃) : StepsIn settings (n + 1) m₁ m₃

theorem step_unlimited_iff : Step settings.unlimited m₁ m₂ ↔ Step settings m₁ m₂ := by
  rw [←step_returns_iff, ←step_returns_iff]
  rfl

theorem Steps.counted (es : Steps settings m₁ m₂) : ∃ n, StepsIn settings n m₁ m₂ := by
  induction es
  case refl => exact ⟨0, .refl⟩
  case step hr e _ hi =>
    have ⟨n, es⟩ := hi
    exact ⟨n + 1, .step hr e es⟩

theorem Step.machine_eq (e : Step settings m₁ m₂) : (m₁.step settings).machine = m₂ := by
  have ⟨_, h⟩ := step_returns_iff.mpr e
  rw [h]

theorem step_of_uninterrupted (h : (m.step settings).interruption = none) :
    Step settings m (m.step settings).machine :=
  step_returns_iff.mp ⟨(m.step settings).log, by rw [←h]⟩

@[simp] theorem perform_steps (m : Machine) (op : Opcode) (e : Effect) :
    (m.perform op e).steps = m.steps := by
  cases e <;> rfl

theorem Step.steps_eq (e : Step settings m₁ m₂) (h : m₂.status ≠ .waiting) :
    m₂.steps = m₁.steps + 1 := by
  cases e
  case perform =>
    rw [count_status] at h
    simp [count, h]
  case stop => simp [count, stopOn]

namespace StepsIn

theorem limited (es : StepsIn settings.unlimited n m₁ m₂) : StepsIn settings n m₁ m₂ := by
  induction es
  case refl           => exact .refl
  case step hr e _ hi => exact .step hr (step_unlimited_iff.mp e) hi

theorem runnable (es : StepsIn settings n m₁ m₂) (h : m₂.status = .runnable) :
    m₁.status = .runnable := by
  cases es
  case refl        => exact h
  case step hr _ _ => exact hr

theorem runnable_of_succ (es : StepsIn settings (n + 1) m₁ m₂) : m₁.status = .runnable := by
  cases es
  case step hr _ _ => exact hr

theorem snoc (es : StepsIn settings n m₁ m₂) (hr : m₂.status = .runnable)
    (e : Step settings m₂ m₃) : StepsIn settings (n + 1) m₁ m₃ := by
  induction es
  case refl             => exact .step hr e .refl
  case step hr' e' _ hi => exact .step hr' e' (hi hr e)

theorem split (es : StepsIn settings (n + k) m₁ m₃) :
    ∃ m₂, StepsIn settings n m₁ m₂ ∧ StepsIn settings k m₂ m₃ := by
  induction n generalizing m₁
  case zero =>
    rw [Nat.zero_add] at es
    exact ⟨m₁, .refl, es⟩
  case succ n hi =>
    rw [Nat.add_right_comm] at es
    cases es
    case step hr e es =>
      have ⟨m₂, es₁, es₂⟩ := hi es
      exact ⟨m₂, .step hr e es₁, es₂⟩

theorem unsnoc (es : StepsIn settings (n + 1) m₁ m₃) :
    ∃ m₂, StepsIn settings n m₁ m₂ ∧ m₂.status = .runnable ∧ Step settings m₂ m₃ := by
  have ⟨m₂, es₁, es₂⟩ := split (n := n) (k := 1) es
  cases es₂
  case step hr e es =>
    cases es
    case refl => exact ⟨m₂, es₁, hr, e⟩

theorem steps_eq (es : StepsIn settings n m₁ m₂) (h : m₂.status = .runnable) :
    m₂.steps = m₁.steps + n := by
  induction es
  case refl => rfl
  case step n m₁ m₂ m₃ _ e es hi =>
    have hr : m₂.status = .runnable := es.runnable h
    calc m₃.steps
      _ = m₂.steps + n       := hi h
      _ = m₁.steps + 1 + n   := by rw [e.steps_eq (by simp [hr])]
      _ = m₁.steps + (n + 1) := by omega

theorem after_eq (es : StepsIn settings n m₁ m₂) : m₁.after settings n = m₂ := by
  induction es
  case refl        => rfl
  case step e _ hi => rw [after_succ, e.machine_eq, hi]

theorem after_runnable (es : StepsIn settings n m₁ m₂) (h : k < n) :
    (m₁.after settings k).status = .runnable := by
  obtain ⟨j, rfl⟩ := Nat.exists_eq_add_of_lt h
  have ⟨m, es₁, es₂⟩ := split (n := k) (k := j + 1) es
  rw [es₁.after_eq]
  exact es₂.runnable_of_succ

theorem runFrom_add (es : StepsIn settings n m₁ m₂) (taken : Nat) (log : Log)
    (room : ∀ k < n, reached? settings (taken + k) = none) :
    ∃ log', ∀ fuel, Machine.runFrom settings taken m₁ log (n + fuel) =
      Machine.runFrom settings (taken + n) m₂ log' fuel := by
  induction es generalizing taken log
  case refl => exact ⟨log, fun fuel => by rw [Nat.zero_add, Nat.add_zero]⟩
  case step n m₁ m₂ m₃ hr e _ hi =>
    have ⟨log₁, h₁⟩ := step_returns_iff.mpr e
    have hn : reached? settings taken = none := room 0 (Nat.succ_pos n)
    have ⟨log', h⟩ := hi (taken + 1) (log ++ log₁) fun k hk => by
      rw [Nat.add_right_comm]
      exact room (k + 1) (Nat.succ_lt_succ hk)
    refine ⟨log', fun fuel => ?_⟩
    rw [Nat.add_right_comm, Machine.runFrom]
    simp only [hr, if_true, hn, h₁, h fuel]
    rw [Nat.add_right_comm, Nat.add_assoc]

end StepsIn

def Exceeds (settings : Settings) (m₁ m₂ : Machine) : Prop :=
  ∃ fuel log l, m₁.run settings fuel = some ⟨m₂, log, some (.stepLimit l)⟩

-- Runs one after another: so many reach their step limit, and the next one returns.
inductive Retries (settings : Settings) : Nat → Machine → Machine → Prop
  | returns {m₁ m₂ : Machine} (r : Runs settings m₁ m₂) : Retries settings 0 m₁ m₂
  | exceeds {q : Nat} {m₁ m₂ m₃ : Machine} (x : Exceeds settings m₁ m₂)
    (rs : Retries settings q m₂ m₃) : Retries settings (q + 1) m₁ m₃

theorem run_unique {fuel₁ fuel₂ : Nat} {r₁ r₂ : Report} (h₁ : m.run settings fuel₁ = some r₁)
    (h₂ : m.run settings fuel₂ = some r₂) : r₁ = r₂ := by
  have h₁' := runFrom_mono h₁ (Nat.le_max_left fuel₁ fuel₂)
  have h₂' := runFrom_mono h₂ (Nat.le_max_right fuel₁ fuel₂)
  exact Option.some_inj.mp (h₁'.symm.trans h₂')

namespace Exceeds

theorem deterministic (x₁ : Exceeds settings m m₁) (x₂ : Exceeds settings m m₂) : m₁ = m₂ := by
  have ⟨_, _, _, h₁⟩ := x₁
  have ⟨_, _, _, h₂⟩ := x₂
  exact congrArg Report.machine (run_unique h₁ h₂)

theorem not_runs (x : Exceeds settings m m₁) : ¬Runs settings m m₂ := by
  intro ⟨_, _, h₂⟩
  have ⟨_, _, _, h₁⟩ := x
  simpa using congrArg Report.interruption (run_unique h₁ h₂)

end Exceeds

theorem Retries.deterministic {q₁ q₂ : Nat} (r₁ : Retries settings q₁ m m₁)
    (r₂ : Retries settings q₂ m m₂) : q₁ = q₂ ∧ m₁ = m₂ := by
  induction r₁ generalizing q₂
  case returns r =>
    cases r₂
    case returns r'   => exact ⟨rfl, r.deterministic r'⟩
    case exceeds x' _ => exact absurd r x'.not_runs
  case exceeds x _ hi =>
    cases r₂
    case returns r'     => exact absurd r' x.not_runs
    case exceeds x' rs' =>
      obtain ⟨rfl, rfl⟩ := hi (x.deterministic x' ▸ rs')
      exact ⟨rfl, rfl⟩

theorem ceilDiv_sub_one {b : Nat} (hb : 0 < b) (n : Nat) : n ⌈/⌉ b - 1 = (n - 1) / b := by
  rw [Nat.ceilDiv_eq_add_pred_div]
  cases n
  case zero   => rw [Nat.div_eq_of_lt (by omega), Nat.div_eq_of_lt (by omega)]
  case succ n => rw [Nat.add_right_comm, Nat.add_sub_cancel, Nat.add_div_right n hb]; rfl

section Limited

variable (limited : settings.stepLimit = some l)

include limited

theorem reached?_of_lt (h : k < l.bound) : reached? settings k = none := by
  simp [reached?, limited, h]

theorem reached?_bound : reached? settings l.bound = some l := by
  simp [reached?, limited]

-- A machine that stops with the last step that is allowed has not exceeded the limit.
theorem StepsIn.runs (es : StepsIn settings n m₁ m₂) (hn : n ≤ l.bound)
    (hs : m₂.status ≠ .runnable) : Runs settings m₁ m₂ := by
  have ⟨log, h⟩ := es.runFrom_add 0 #[] fun k hk => by
    rw [Nat.zero_add]
    exact reached?_of_lt limited (Nat.lt_of_lt_of_le hk hn)
  refine ⟨n + 1, log, ?_⟩
  rw [run, h]
  simp [Machine.runFrom, hs]

theorem StepsIn.exceeds (es : StepsIn settings l.bound m₁ m₂) (hr : m₂.status = .runnable) :
    Exceeds settings m₁ m₂ := by
  have ⟨log, h⟩ := es.runFrom_add 0 #[] fun k hk => by
    rw [Nat.zero_add]
    exact reached?_of_lt limited hk
  refine ⟨l.bound + 1, log, l, ?_⟩
  rw [run, h]
  simp [Machine.runFrom, hr, reached?_bound limited]

theorem runFrom_terminates (taken : Nat) (m : Machine) (log : Log) :
    ∃ r, runFrom settings taken m log (l.bound - taken + 1) = some r := by
  induction hn : l.bound - taken generalizing taken m log
  case zero =>
    have hb : reached? settings taken = some l := by
      simp only [reached?, limited, Option.filter_some, decide_eq_true_eq]
      rw [if_pos (by omega)]
    by_cases hr : m.status = .runnable <;> simp [runFrom, hr, hb]
  case succ n hi =>
    rw [runFrom]
    split
    case isFalse => exact ⟨_, rfl⟩
    case isTrue =>
      rw [reached?_of_lt limited (by omega)]
      dsimp only
      split
      case h_1 => exact hi (taken + 1) _ _ (by omega)
      case h_2 => exact ⟨_, rfl⟩

-- The induction is on the number of steps, of which each run but the last takes as many as the
-- limit allows.
theorem StepsIn.retries (es : StepsIn settings n m₁ m₂) (hr : m₁.status = .runnable)
    (hs : m₂.status ≠ .runnable) : Retries settings (n ⌈/⌉ l.bound - 1) m₁ m₂ := by
  have hb := l.bound_pos
  induction n using Nat.strong_induction_on generalizing m₁
  case h n hi =>
    by_cases hn : n ≤ l.bound
    case pos =>
      have hq : n ⌈/⌉ l.bound - 1 = 0 := by
        rw [ceilDiv_sub_one hb]
        exact Nat.div_eq_of_lt (by omega)
      rw [hq]
      exact .returns (es.runs limited hn hs)
    case neg =>
      obtain ⟨k, rfl⟩ := Nat.exists_eq_add_of_lt (Nat.lt_of_not_le hn)
      have ⟨m, es₁, es₂⟩ := split (n := l.bound) (k := k + 1) es
      have hm : m.status = .runnable := es₂.runnable_of_succ
      have hq : (l.bound + k + 1) ⌈/⌉ l.bound - 1 = (k + 1) ⌈/⌉ l.bound - 1 + 1 := by
        rw [ceilDiv_sub_one hb, ceilDiv_sub_one hb]
        exact Nat.add_div_left k hb
      rw [hq]
      exact .exceeds (es₁.exceeds limited hm) (hi (k + 1) (by omega) es₂ hm)

end Limited

def Uninterrupted (settings : Settings) (m : Machine) (n : Nat) : Prop :=
  ∀ k < n, (∀ j ≤ k, (m.after settings j).status = .runnable) →
    ((m.after settings k).step settings).interruption = none

theorem Uninterrupted.stepsIn (h : m.Uninterrupted settings n) (hk : k ≤ n)
    (hr : ∀ j < k, (m.after settings j).status = .runnable) :
    StepsIn settings k m (m.after settings k) := by
  induction k
  case zero => exact .refl
  case succ k hi =>
    have es := hi (by omega) fun j hj => hr j (by omega)
    have e := step_of_uninterrupted (h k (by omega) fun j hj => hr j (by omega))
    exact es.snoc (hr k (by omega)) e

def StopsAt (settings : Settings) (m : Machine) (n : Nat) : Prop :=
  IsLeast {k | (m.after settings k).status ≠ .runnable} n

theorem Uninterrupted.exceeds (limited : settings.stepLimit = some l)
    (h : m.Uninterrupted settings l.bound)
    (hr : ∀ k ≤ l.bound, (m.after settings k).status = .runnable) :
    Exceeds settings m (m.after settings l.bound) :=
  (h.stepsIn le_rfl fun k hk => hr k hk.le).exceeds limited (hr l.bound le_rfl)

theorem Uninterrupted.runs (limited : settings.stepLimit = some l)
    (h : m.Uninterrupted settings l.bound)
    (hs : ∃ k ≤ l.bound, (m.after settings k).status ≠ .runnable) :
    ∃ k ≤ l.bound, m.StopsAt settings k ∧ Runs settings m (m.after settings k) := by
  have ⟨k, hk, hs⟩ := hs
  have stops : ∃ k, (m.after settings k).status ≠ .runnable := ⟨k, hs⟩
  have hk' : Nat.find stops ≤ l.bound := (Nat.find_min' stops hs).trans hk
  have es := h.stepsIn hk' fun j hj => not_not.mp (Nat.find_min stops hj)
  exact ⟨Nat.find stops, hk', Nat.isLeast_find stops, es.runs limited hk' (Nat.find_spec stops)⟩

theorem StopsAt.stepsIn (h : m₁.StopsAt settings n) (r : Runs settings.unlimited m₁ m₂) :
    StepsIn settings n m₁ m₂ := by
  have ⟨k, es⟩ := r.steps.counted
  have es := es.limited
  have hs : (m₁.after settings k).status ≠ .runnable := es.after_eq ▸ r.stopped
  have hn : n ≤ k := h.right hs
  have hk : ¬n < k := fun hlt => h.left (es.after_runnable hlt)
  obtain rfl : k = n := by omega
  exact es

theorem limited_runs_slice (limited : settings.stepLimit = some l) (hr : m.status = .runnable) :
    (m.Uninterrupted settings l.bound →
      ((∃ m', Exceeds settings m m') ↔ ∀ k ≤ l.bound, (m.after settings k).status = .runnable) ∧
      (∀ m', Exceeds settings m m' →
        m' = m.after settings l.bound ∧ m'.steps = m.steps + l.bound) ∧
      ((∃ k ≤ l.bound, (m.after settings k).status ≠ .runnable) →
        ∃ k ≤ l.bound, m.StopsAt settings k ∧ Runs settings m (m.after settings k))) ∧
    (∃ r, m.run settings (l.bound + 1) = some r) ∧
    ∀ n m', m.StopsAt settings n → Runs settings.unlimited m m' →
      ∀ q m'', Retries settings q m m'' ↔ q = n ⌈/⌉ l.bound - 1 ∧ m'' = m' := by
  refine ⟨?slice, runFrom_terminates limited 0 m #[], ?retries⟩
  case slice =>
    intro h
    have all {m' : Machine} (x : Exceeds settings m m') :
        ∀ k ≤ l.bound, (m.after settings k).status = .runnable := by
      by_contra hs
      have ⟨_, _, _, r⟩ := h.runs limited (by simpa using hs)
      exact x.not_runs r
    refine ⟨⟨fun ⟨_, x⟩ => all x, fun hr => ⟨_, h.exceeds limited hr⟩⟩, ?_, h.runs limited⟩
    intro m' x
    have hr' := all x
    obtain rfl := x.deterministic (h.exceeds limited hr')
    have es := h.stepsIn le_rfl fun k hk => hr' k hk.le
    exact ⟨rfl, es.steps_eq (hr' _ le_rfl)⟩
  case retries =>
    intro n m' hn r q m''
    have rs := (hn.stepsIn r).retries limited hr r.stopped
    constructor
    case mp => exact fun rs' => rs'.deterministic rs
    case mpr =>
      rintro ⟨rfl, rfl⟩
      exact rs

def countdown : Machine :=
  ofWords [1001, 8, -1, 8, 1005, 8, 0, 99, 4]

def threeSteps : Settings :=
  { Settings.default with stepLimit := some (.count 3 (by decide)) }

-- Two runs of the program exceed the limit. The third halts with the last step that it may take,
-- and returns.
theorem limited_runs_slice_countdown :
    ∃ m, countdown.Uninterrupted threeSteps 3 ∧
      Exceeds threeSteps countdown (countdown.after threeSteps 3) ∧
      countdown.StopsAt threeSteps 9 ∧ Runs threeSteps.unlimited countdown m ∧
      m.status = .halted ∧ Retries threeSteps 2 countdown m := by
  have hu : countdown.Uninterrupted threeSteps 3 := by
    unfold Uninterrupted
    decide +kernel
  have hr : ∀ k < 9, (countdown.after threeSteps k).status = .runnable := by decide +kernel
  have hh : (countdown.after threeSteps 9).status ≠ .runnable := by decide +kernel
  have hn : countdown.StopsAt threeSteps 9 :=
    ⟨hh, fun k hk => Nat.le_of_not_lt fun hlt => hk (hr k hlt)⟩
  have ⟨m, r, hs⟩ : ∃ m, Runs threeSteps.unlimited countdown m ∧ m.status = .halted :=
    ⟨_, ⟨10, _, rfl⟩, rfl⟩
  have limited : threeSteps.stepLimit = some (.count 3 (by decide)) := rfl
  obtain ⟨slice, -, retries⟩ := limited_runs_slice limited (m := countdown) rfl
  have ⟨exceeds, machine, _⟩ := slice hu
  have ⟨m₃, x⟩ := exceeds.mpr fun k hk => hr k (Nat.lt_of_le_of_lt hk (by decide))
  obtain ⟨rfl, -⟩ := machine m₃ x
  have rs := (retries 9 m hn r 2 m).mpr ⟨by decide +kernel, rfl⟩
  exact ⟨m, hu, x, hn, r, hs, rs⟩

end Machine
end Intcode
