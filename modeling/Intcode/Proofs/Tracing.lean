import Intcode.Proofs.Lifecycle
import Intcode.Proofs.Memory
import Intcode.Proofs.StepLimit

namespace Intcode

structure Settings.Traces (s s' : Settings) : Prop where
  off    : s.isTraced = false
  on     : s'.isTraced = true
  limit  : s'.stepLimit = s.stepLimit
  strict : s'.isStrict = s.isStrict

namespace Machine

variable {s s' : Settings} {m m₁ m₂ : Machine} {n : Nat}

def line (m : Machine) : Record :=
  .debug ("PC:" ++ Decimal.text m.pc ++ " ST:" ++ m.status.name ++ " IN:" ++
    Decimal.text m.inputs.length ++ " OUT:" ++ Decimal.text m.outputs.size)

theorem describe_of_writable (h : Decimal.Writable m.pc) : m.describe = .ok m.line := by
  simp [describe, line, Decimal.write_of_writable h]

def plainLog (s : Settings) (m : Machine) : Nat → Log
  | 0     => #[]
  | n + 1 => (m.step s).log ++ (m.step s).machine.plainLog s n

def annotatedLog (s : Settings) (m : Machine) : Nat → Log
  | 0     => #[]
  | n + 1 => (m.step s).log.push (m.step s).machine.line ++ (m.step s).machine.annotatedLog s n

-- Two runs of a machine take the same steps and return the same machine, and the second one logs a
-- line more than the first after each step.
structure Annotates (s s' : Settings) (m : Machine) (n : Nat) (r r' : Report) : Prop where
  steps     : StepsIn s n m r.machine
  steps'    : StepsIn s' n m r.machine
  machine   : r'.machine = r.machine
  returns   : r'.interruption = none
  plain     : r.log = m.plainLog s n
  annotated : r'.log = m.annotatedLog s n

theorem conclude_untraced (off : s.isTraced = false) (m : Machine) (log : Log) :
    conclude s m log = ⟨m.count, log, none⟩ := by
  simp [conclude, off]

theorem conclude_traced (on : s.isTraced = true) (h : Decimal.Writable m.pc) (log : Log) :
    conclude s m log = ⟨m.count, log.push m.count.line, none⟩ := by
  have hd := describe_of_writable (m := m.count) (by simpa using h)
  simp [conclude, on, trace, hd]

namespace Step

theorem concludes (e : Step s m₁ m₂) :
    ∃ m log, m₂ = m.count ∧ ∀ t : Settings, t.isStrict = s.isStrict →
      m₁.step t = conclude t m log := by
  cases e
  case perform op e hn _ =>
    exact ⟨_, e.records m₁.pc, rfl, fun t ht => by simp only [step, ht, hn]⟩
  case stop cause text hn hw _ =>
    exact ⟨_, #[.debug ("Fault: " ++ text)], rfl, fun t ht => by simp only [step, ht, hn, hw]⟩

theorem traced (e : Step s m₁ m₂) (tr : s.Traces s') (h : Decimal.Writable m₂.pc) :
    m₁.step s' = ⟨m₂, (m₁.step s).log.push m₂.line, none⟩ := by
  obtain ⟨m, log, rfl, hc⟩ := e.concludes
  rw [count_pc] at h
  rw [hc s' tr.strict, hc s rfl, conclude_untraced tr.off, conclude_traced tr.on h]

theorem writable (e : Step s m₁ m₂) (fits : m₁.memory.size ≤ Decimal.powerOfTen Decimal.limit) :
    Decimal.Writable m₁.pc := by
  cases e
  case stop hw _ => exact Fault.writable_of_text hw
  case perform hn _ =>
    have ⟨_, hf, _⟩ := next_eq_ok_iff.mp hn
    have ⟨_, valid, _⟩ := fetch_spec hf
    exact valid.writable fits

theorem runnable_or_pc_eq (e : Step s m₁ m₂) (hr : m₁.status = .runnable) :
    m₂.status = .runnable ∨ m₂.pc = m₁.pc := by
  cases e
  case stop => exact .inr (by simp [stopOn])
  case perform e _ _ =>
    cases e
    case wait | halt => exact .inr (by simp [Machine.perform])
    all_goals exact .inl (by simpa [Machine.perform] using hr)

theorem memory_size (e : Step s m₁ m₂) : m₂.memory.size = m₁.memory.size :=
  e.machine_eq ▸ step_memory_size s m₁

end Step

-- If the machine goes on after a step, then the next one says that the program counter can be
-- written, and otherwise that has not changed.
theorem writable_of_stepsIn (e : Step s m m₁) (es : StepsIn s n m₁ m₂) (hr : m.status = .runnable)
    (hs : m₂.status ≠ .runnable) (fits : m.memory.size ≤ Decimal.powerOfTen Decimal.limit) :
    Decimal.Writable m₁.pc := by
  obtain hr₁ | hp := e.runnable_or_pc_eq hr
  case inr => exact hp ▸ e.writable fits
  case inl =>
    cases es
    case refl        => exact absurd hr₁ hs
    case step _ e' _ => exact e'.writable (e.memory_size ▸ fits)

-- The induction is on the rounds of the run that is not traced. Whether the step of a round can be
-- described is known from the rounds after it.
theorem runFrom_traced (tr : s.Traces s') {taken fuel : Nat} {log log₁ : Log}
    (fits : m₁.memory.size ≤ Decimal.powerOfTen Decimal.limit)
    (h : runFrom s taken m₁ log fuel = some ⟨m₂, log₁, none⟩) :
    ∃ n, StepsIn s n m₁ m₂ ∧ StepsIn s' n m₁ m₂ ∧ log₁ = log ++ m₁.plainLog s n ∧
      ∀ log', runFrom s' taken m₁ log' fuel = some ⟨m₂, log' ++ m₁.annotatedLog s n, none⟩ := by
  induction fuel generalizing taken m₁ log
  case zero => simp [runFrom] at h
  case succ fuel hi =>
    by_cases hr : m₁.status = .runnable
    case neg =>
      obtain ⟨rfl, rfl⟩ : m₂ = m₁ ∧ log₁ = log := by simpa using runFrom_of_stopped hr h
      exact ⟨0, .refl, .refl, by simp [plainLog], by simp [runFrom, hr, annotatedLog]⟩
    case pos =>
      have hl : reached? s' taken = reached? s taken := by rw [reached?, tr.limit, reached?]
      simp only [runFrom, hr, if_true] at h
      split at h
      case h_1 => simp at h
      case h_2 ht =>
        split at h
        case h_2 => simp at h
        case h_1 he =>
          have e := step_of_uninterrupted he
          obtain ⟨-, hs⟩ := steps_of_runFrom h
          obtain ⟨n, es, es', plain, annotated⟩ := hi (e.memory_size ▸ fits) h
          have traced := e.traced tr (writable_of_stepsIn e es hr hs fits)
          have e' := step_returns_iff.mp ⟨_, traced⟩
          refine ⟨n + 1, .step hr e es, .step hr e' es', ?_, fun log' => ?_⟩
          · rw [plain, plainLog, Array.append_assoc]
          · simp only [runFrom, hr, if_true, hl, ht, traced, annotated, annotatedLog,
              Array.append_assoc]

theorem run_traced (tr : s.Traces s') {fuel : Nat} {r : Report}
    (fits : m.memory.size ≤ Decimal.powerOfTen Decimal.limit) (h : m.run s fuel = some r)
    (hn : r.interruption = none) :
    ∃ n r', m.run s' fuel = some r' ∧ Annotates s s' m n r r' := by
  obtain ⟨m₂, log, _⟩ := r
  obtain rfl : _ = none := hn
  have ⟨n, es, es', plain, annotated⟩ := runFrom_traced tr fits h
  rw [Array.empty_append] at plain
  refine ⟨n, _, annotated #[], ?_⟩
  rw [Array.empty_append]
  exact ⟨es, es', rfl, rfl, plain, rfl⟩

-- For every machine in whatever status. That there are not more cells than program counters which
-- can be written is true of every memory that there is room for.
theorem tracing_adds_lines (tr : s.Traces s') {fuel : Nat} {r : Report}
    (fits : m.memory.size ≤ Decimal.powerOfTen Decimal.limit) (hn : r.interruption = none) :
    (m.run s fuel = some r → ∃ n r', m.run s' fuel = some r' ∧ Annotates s s' m n r r') ∧
    (m.resume s fuel = some r →
      m.Ended ∧ m.resume s' fuel = some r ∨
        ¬m.Ended ∧ ∃ n r', m.resume s' fuel = some r' ∧ Annotates s s' m.wake n r r') := by
  refine ⟨fun h => run_traced tr fits h hn, fun h => ?_⟩
  by_cases he : m.Ended
  case pos => exact .inl ⟨he, by rw [resume_of_ended he] at h ⊢; exact h⟩
  case neg =>
    rw [resume_of_not_ended he] at h ⊢
    exact .inr ⟨he, run_traced tr fits h hn⟩

def tracedSteps : Settings :=
  { Settings.default with trace := .bool true }

def resumed : Machine :=
  { ofWords [3, 0, 1106, 0, 6, -1, 99] with status := .waiting, inputs := [5] }

theorem tracing_adds_lines_resumed :
    Settings.default.Traces tracedSteps ∧
      resumed.memory.size ≤ Decimal.powerOfTen Decimal.limit ∧
      ∃ n r r', resumed.resume .default 4 = some r ∧ r.machine.status = .halted ∧
        resumed.resume tracedSteps 4 = some r' ∧
        Annotates .default tracedSteps resumed.wake n r r' ∧
        r'.log = #[
          .debug "PC:2 ST:RUNNABLE IN:0 OUT:0",
          .debug "PC:6 ST:RUNNABLE IN:0 OUT:0",
          .debug "Halted at 6",
          .debug "PC:6 ST:HALTED IN:0 OUT:0"] := by
  have tr : Settings.default.Traces tracedSteps := ⟨rfl, rfl, rfl, rfl⟩
  have fits : resumed.memory.size ≤ Decimal.powerOfTen Decimal.limit := by decide +kernel
  obtain ⟨r, h, hs, hn⟩ : ∃ r, resumed.resume .default 4 = some r ∧
      r.machine.status = .halted ∧ r.interruption = none := ⟨_, rfl, rfl, rfl⟩
  obtain ⟨he, -⟩ | ⟨-, n, r', h', annotates⟩ := (tracing_adds_lines tr fits hn).right h
  case inl => exact absurd he (by decide)
  case inr =>
    have hl : (resumed.resume tracedSteps 4).map (·.log) = some #[
        .debug "PC:2 ST:RUNNABLE IN:0 OUT:0",
        .debug "PC:6 ST:RUNNABLE IN:0 OUT:0",
        .debug "Halted at 6",
        .debug "PC:6 ST:HALTED IN:0 OUT:0"] := by decide +kernel
    rw [h', Option.map_some] at hl
    exact ⟨tr, fits, n, r, r', h, hs, h', annotates, Option.some.inj hl⟩

end Machine
end Intcode
