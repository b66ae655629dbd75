import Mathlib.Tactic.Common
import Intcode.Machine.Step
import Intcode.Proofs.Result

namespace Intcode

def Effect.Suits (op : Opcode) (inputs : List Int) : Effect → Prop
  | store _ _     => op.writeTarget? = some 3
  | take _ v      => op = .input ∧ inputs.head? = some v
  | emit _        => op = .output
  | jump _ | pass => op = .jumpIfTrue ∨ op = .jumpIfFalse
  | wait          => op = .input ∧ inputs = []
  | halt          => op = .halt

theorem Instruction.effect_suits
    {i : Instruction} {memory : Memory} {strict : Bool} {inputs : List Int} {op : Opcode}
    {e : Effect} (h : i.effect memory strict inputs op = .ok e) : e.Suits op inputs := by
  cases op
  case input =>
    cases inputs
    case nil =>
      obtain rfl : Effect.wait = e := by simpa [effect, takeInput] using h
      exact ⟨rfl, rfl⟩
    case cons =>
      obtain ⟨a, -, rfl⟩ := by simpa [effect, takeInput, Result.bind_eq_ok_iff] using h
      exact ⟨rfl, rfl⟩
  case output =>
    obtain ⟨v, -, rfl⟩ := by simpa [effect, Result.bind_eq_ok_iff] using h
    rfl
  case jumpIfTrue | jumpIfFalse =>
    simp only [effect, jumpIf, Result.bind_eq_ok_iff] at h
    obtain ⟨a, -, h⟩ := h
    split at h
    case isTrue =>
      obtain ⟨b, -, rfl⟩ := by simpa [Result.bind_eq_ok_iff] using h
      simp [Effect.Suits]
    case isFalse =>
      obtain rfl : Effect.pass = e := by simpa using h
      simp [Effect.Suits]
  case halt =>
    obtain rfl : Effect.halt = e := by simpa [effect] using h
    rfl
  all_goals
    simp only [effect, combine, Result.bind_eq_ok_iff] at h
    obtain ⟨a, -, b, -, dst, -, h⟩ := h
    obtain rfl : Effect.store dst _ = e := by simpa using h
    rfl

namespace Machine

variable {settings : Settings} {m m₁ m₂ : Machine}

theorem fetch_spec {op : Opcode} {i : Instruction} (h : m.fetch = .ok (op, i)) :
    i.address = m.pc ∧ m.memory.Valid m.pc ∧ 0 ≤ m.memory.get m.pc ∧
      m.memory.get m.pc % 100 = op.code := by
  have ⟨word, hw, h⟩ := Result.bind_eq_ok_iff.mp h
  have ⟨j, hd, h⟩ := Result.bind_eq_ok_iff.mp h
  have hv : m.memory.Valid m.pc := by
    by_contra hv
    simp [Memory.read_of_not_valid hv] at hw
  obtain rfl : m.memory.get m.pc = word := by simpa [Memory.read_of_valid hv] using hw
  have hn : 0 ≤ m.memory.get m.pc := by
    by_contra hn
    simp [Instruction.decode_of_neg (Int.not_le.mp hn)] at hd
  obtain rfl : _ = j := by simpa [Instruction.decode_of_nonneg hn] using hd
  dsimp only at h
  split at h
  case h_2 => simp at h
  case h_1 op' ho =>
    obtain ⟨rfl, rfl⟩ : op' = op ∧ _ = i := by simpa using h
    exact ⟨rfl, hv, hn, (Opcode.code_of_ofCode? ho).symm⟩

theorem next_eq_ok_iff {strict : Bool} {op : Opcode} {e : Effect} :
    m.next strict = .ok (op, e) ↔
      ∃ i, m.fetch = .ok (op, i) ∧ i.effect m.memory strict m.inputs op = .ok e := by
  unfold next
  constructor
  case mp =>
    intro h
    have ⟨⟨op, i⟩, hf, h⟩ := Result.bind_eq_ok_iff.mp h
    have ⟨e, he, h⟩ := Result.bind_eq_ok_iff.mp h
    obtain ⟨rfl, rfl⟩ : op = _ ∧ e = _ := by simpa using h
    exact ⟨i, hf, he⟩
  case mpr =>
    rintro ⟨i, hf, he⟩
    simp only [hf, Result.ok_bind, he, Result.pure_eq_ok]

@[simp] theorem count_memory (m : Machine) : m.count.memory = m.memory := by
  unfold count; split <;> rfl

@[simp] theorem count_pc (m : Machine) : m.count.pc = m.pc := by
  unfold count; split <;> rfl

@[simp] theorem count_status (m : Machine) : m.count.status = m.status := by
  unfold count; split <;> rfl

@[simp] theorem count_fault (m : Machine) : m.count.fault = m.fault := by
  unfold count; split <;> rfl

@[simp] theorem count_inputs (m : Machine) : m.count.inputs = m.inputs := by
  unfold count; split <;> rfl

@[simp] theorem count_outputs (m : Machine) : m.count.outputs = m.outputs := by
  unfold count; split <;> rfl

-- A traced step shows the program counter that it leaves behind, so that has to be writable.
def Showable (settings : Settings) (m : Machine) : Prop :=
  settings.isTraced = true → Decimal.Writable m.pc

theorem describe_eq_ok_iff : (∃ r, m.describe = .ok r) ↔ Decimal.Writable m.pc := by
  unfold describe
  constructor
  case mp =>
    intro ⟨_, h⟩
    by_contra hw
    simp [Decimal.write, hw, bind, Except.bind] at h
  case mpr =>
    intro h
    simp [Decimal.write_of_writable h, bind, Except.bind, pure, Except.pure]

theorem conclude_returns_iff {log : Log} :
    (∃ log', conclude settings m₁ log = ⟨m₂, log', none⟩) ↔
      m₂ = m₁.count ∧ m₁.Showable settings := by
  unfold conclude
  split
  case isFalse ht => simp [Showable, ht, eq_comm]
  case isTrue ht =>
    have hd := describe_eq_ok_iff (m := m₁.count)
    rw [count_pc] at hd
    simp only [Showable, ht, true_implies, ←hd, trace]
    cases m₁.count.describe <;> simp [eq_comm]

inductive Step (settings : Settings) (m : Machine) : Machine → Prop
  | perform {op : Opcode} {e : Effect} (next : m.next settings.isStrict = .ok (op, e))
    (showable : (m.perform op e).Showable settings) : Step settings m (m.perform op e).count
  | stop {cause : Fault.Cause} {text : String} (next : m.next settings.isStrict = .error cause)
    (worded : Fault.text ⟨cause, some m.pc⟩ = .ok text) (showable : m.Showable settings) :
    Step settings m (m.stopOn ⟨cause, some m.pc⟩).count

theorem step_returns_iff :
    (∃ log, m₁.step settings = ⟨m₂, log, none⟩) ↔ Step settings m₁ m₂ := by
  constructor
  case mp =>
    intro ⟨log, h⟩
    unfold step at h
    split at h
    case h_1 hn =>
      have ⟨he, hs⟩ := conclude_returns_iff.mp ⟨log, h⟩
      exact he ▸ .perform hn hs
    case h_2 hn =>
      dsimp only at h
      split at h
      case h_1 hw =>
        have ⟨he, hs⟩ := conclude_returns_iff.mp ⟨log, h⟩
        exact he ▸ .stop hn hw hs
      case h_2 => simp at h
  case mpr =>
    intro h
    unfold step
    cases h
    case perform hn hs =>
      rw [hn]
      exact conclude_returns_iff.mpr ⟨rfl, hs⟩
    case stop hn hw hs =>
      simp only [hn, hw]
      exact conclude_returns_iff.mpr ⟨rfl, hs⟩

namespace Step

theorem deterministic (e₁ : Step settings m m₁) (e₂ : Step settings m m₂) : m₁ = m₂ := by
  have ⟨_, h₁⟩ := step_returns_iff.mpr e₁
  have ⟨_, h₂⟩ := step_returns_iff.mpr e₂
  exact congrArg Report.machine (h₁.symm.trans h₂)

theorem showable : (Step settings m₁ m₂) → m₂.Showable settings
  | perform _ h => by simpa [Showable] using h
  | stop _ _ h  => by simpa [Showable, stopOn] using h

theorem outputs_isPrefix : (Step settings m₁ m₂) → m₁.outputs.toList <+: m₂.outputs.toList
  | perform (e := e) _ _ => by cases e <;> simp [Machine.perform]
  | stop .. => by simp [stopOn]

end Step
end Machine
end Intcode
