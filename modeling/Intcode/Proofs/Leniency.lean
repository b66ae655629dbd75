import Intcode.Proofs.InstructionTable
import Intcode.Proofs.Lockstep

namespace Intcode

def Fault.Cause.IsMode : Cause → Prop
  | mode _ => True
  | _      => False

structure Settings.Relaxes (s s' : Settings) : Prop where
  strict  : s.isStrict = true
  lenient : s'.isStrict = false
  limit   : s'.stepLimit = s.stepLimit
  traced  : s'.isTraced = s.isTraced

theorem Memory.resolve_lenient (memory : Memory) (raw mode : Int) :
    Result.Agree Fault.Cause.IsMode (memory.resolve true raw mode)
      (memory.resolve false raw mode) := by
  by_cases hi : mode = Mode.immediate
  case pos => exact .inr (by simp [resolve, hi])
  case neg =>
    by_cases hp : mode = Mode.positional
    case pos => exact .inr (by simp [resolve, hp])
    case neg => exact .inl ⟨.mode mode, by simp [resolve, hi, hp], trivial⟩

variable {strict lenient : Settings}

theorem Lockstep.leniency (rx : Settings.Relaxes strict lenient) :
    Lockstep Fault.Cause.IsMode id strict lenient where
  limit   := rx.limit
  traced  := rx.traced
  read    := fun _ _ => .refl _ _
  resolve := fun memory raw mode => by
    rw [rx.strict, rx.lenient]
    exact memory.resolve_lenient raw mode
  set     := fun _ _ _ _ => rfl

namespace Machine

variable {m m₁ m₂ : Machine} {f : Fault}

theorem mode_notMem_checks (m : Machine) (d : Int) : .mode d ∉ m.checks false := by
  have reading (n : Nat) : .mode d ∉ m.reading false n := by
    by_cases hm : m.mode n = 1 <;> simp [Machine.reading, hm]
  have writing (n : Nat) : .mode d ∉ m.writing n := by simp [Machine.writing]
  cases ho : m.opcode?
  case none => simp [checks, ho]
  case some op =>
    simp only [checks, ho]
    cases op
    case input       => by_cases hi : m.inputs = [] <;> simp [parameterChecks, hi, writing]
    case jumpIfTrue  => by_cases ha : m.operand 1 = 0 <;> simp [parameterChecks, ha, reading]
    case jumpIfFalse => by_cases ha : m.operand 1 = 0 <;> simp [parameterChecks, ha, reading]
    all_goals simp [parameterChecks, reading, writing]

theorem not_isMode_of_next {c : Fault.Cause} (h : m.next false = .error c) : ¬c.IsMode := by
  cases ho : m.offense? false
  case none =>
    obtain ⟨_, _, -, hn, -⟩ := next_of_no_offense ho
    simp [hn] at h
  case some k =>
    obtain rfl : k.cause m.memory = c := by simpa [next_of_offense ho] using h
    rw [offense?, Memory.offense?] at ho
    have hk : k ∈ m.checks false := List.mem_of_find?_eq_some ho
    cases k
    case mode d      => exact absurd hk (m.mode_notMem_checks d)
    case cell | word => exact id

theorem Records.not_isMode (hl : lenient.isStrict = false) (h : m.Records lenient f) :
    ¬f.cause.IsMode := by
  obtain ⟨_, _, hn, rfl, -⟩ := h.stops
  rw [hl] at hn
  exact not_isMode_of_next hn

theorem run_not_isMode (hl : lenient.isStrict = false) {fuel : Nat} {r : Report}
    (h : m.run lenient fuel = some r) (hm : m.fault = none) :
    ∀ f, r.machine.fault = some f → ¬f.cause.IsMode := by
  refine run_fault (fun m cause _ hn _ => ?_) h hm
  rw [hl] at hn
  exact not_isMode_of_next hn

theorem Step.fault_eq (e : Step strict m₁ m₂) (h : m₂.status ≠ .faulted) : m₂.fault = m₁.fault := by
  cases e
  case perform => simp
  case stop    => simp [stopOn] at h

theorem StepsIn.fault_eq {n : Nat} (es : StepsIn strict n m₁ m₂) (h : m₂.status = .runnable) :
    m₂.fault = m₁.fault := by
  induction es
  case refl         => rfl
  case step e es hi => exact (hi h).trans (e.fault_eq (by simp [es.runnable h]))

-- A run that ends with a fault has come to it with its last step.
theorem records_of_run {fuel : Nat} {r : Report} (h : m.run strict fuel = some r)
    (hn : r.interruption = none) (hm : m.fault = none) (hf : r.machine.fault = some f) :
    ∃ k m', r.machine.steps = m.steps + k + 1 ∧ StepsIn strict k m m' ∧ m'.status = .runnable ∧
      m'.Records strict f := by
  obtain ⟨m₂, log, _⟩ := r
  obtain rfl : _ = none := hn
  have ⟨n, es⟩ := (steps_of_runFrom h).left.counted
  cases n
  case zero =>
    cases es
    simp [hm] at hf
  case succ k =>
    have ⟨m', es, hr, e⟩ := es.unsnoc
    have hm' : m'.fault = none := (es.fault_eq hr).trans hm
    have hs : m₂.status = .faulted := by
      by_contra hs
      simp [e.fault_eq hs, hm'] at hf
    refine ⟨k, m', ?_, es, hr, ?_⟩
    · rw [e.steps_eq (by simp [hs]), es.steps_eq hr]
    · rw [Records, ←hm', e.machine_eq]
      exact hf

theorem lenient_extends_strict (rx : Settings.Relaxes strict lenient) (ws inputs : List Int) :
    (∀ fuel r, ((ofWords ws).setInputs inputs).run strict fuel = some r →
      r.Avoids Fault.Cause.IsMode →
        ((ofWords ws).setInputs inputs).run lenient fuel = some r) ∧
    (∀ fuel r f, ((ofWords ws).setInputs inputs).run strict fuel = some r →
      r.interruption = none → r.machine.fault = some f → f.cause.IsMode →
        ∃ k m', r.machine.steps = k + 1 ∧
          StepsIn strict k ((ofWords ws).setInputs inputs) m' ∧
          StepsIn lenient k ((ofWords ws).setInputs inputs) m' ∧
          m'.Records strict f ∧ ∀ f', m'.Records lenient f' → ¬f'.cause.IsMode) ∧
    ∀ fuel r f, ((ofWords ws).setInputs inputs).run lenient fuel = some r →
      r.machine.fault = some f → ¬f.cause.IsMode := by
  refine ⟨?same, ?parts, ?never⟩
  case same => exact fun _ _ h avoids => (Lockstep.leniency rx).runFrom h avoids
  case parts =>
    intro fuel r f h hn hf _
    have ⟨k, m', hs, es, hr, records⟩ := records_of_run h hn rfl hf
    have hs : r.machine.steps = 0 + k + 1 := hs
    rw [Nat.zero_add] at hs
    have es' := (Lockstep.leniency rx).stepsIn es hr
    exact ⟨k, m', hs, es, es', records, fun _ h => h.not_isMode rx.lenient⟩
  case never => exact fun _ _ f h => run_not_isMode rx.lenient h rfl f

def lenientModes : Settings :=
  { Settings.default with strictModes := .bool false }

-- A digit for the parameter that is written to does not matter to strict modes either. The second
-- program makes an output before it comes to an unknown mode, where a lenient machine goes on.
theorem lenient_extends_strict_outputs :
    Settings.Relaxes .default lenientModes ∧
    (∃ r, ((ofWords [21101, 20, 22, 0, 99]).setInputs []).run lenientModes 3 = some r ∧
      r.machine.status = .halted ∧ r.machine.memory.toList = [42, 20, 22, 0, 99]) ∧
    ∃ r m', ((ofWords [104, 7, 204, 0, 99]).setInputs []).run .default 3 = some r ∧
      r.machine.fault = some ⟨.mode 2, some 2⟩ ∧ r.machine.steps = 2 ∧
      StepsIn lenientModes 1 ((ofWords [104, 7, 204, 0, 99]).setInputs []) m' ∧
      m'.outputs = #[7] ∧ ∀ f, m'.Records lenientModes f → ¬f.cause.IsMode := by
  have rx : Settings.Relaxes .default lenientModes := ⟨rfl, rfl, rfl, rfl⟩
  refine ⟨rx, ?same, ?parts⟩
  case same =>
    obtain ⟨r, h, hn, hf, hs, hm⟩ :
        ∃ r, ((ofWords [21101, 20, 22, 0, 99]).setInputs []).run .default 3 = some r ∧
          r.interruption = none ∧ r.machine.fault = none ∧ r.machine.status = .halted ∧
          r.machine.memory.toList = [42, 20, 22, 0, 99] :=
      ⟨_, rfl, rfl, rfl, rfl, rfl⟩
    have ⟨same, _, _⟩ := lenient_extends_strict rx [21101, 20, 22, 0, 99] []
    exact ⟨r, same 3 r h (.inl ⟨hn, by simp [hf]⟩), hs, hm⟩
  case parts =>
    obtain ⟨r, h, hn, hf, hs⟩ :
        ∃ r, ((ofWords [104, 7, 204, 0, 99]).setInputs []).run .default 3 = some r ∧
          r.interruption = none ∧ r.machine.fault = some ⟨.mode 2, some 2⟩ ∧
          r.machine.steps = 2 :=
      ⟨_, rfl, rfl, rfl, rfl⟩
    have ⟨_, parts, _⟩ := lenient_extends_strict rx [104, 7, 204, 0, 99] []
    obtain ⟨k, m', hk, -, es, -, never⟩ := parts 3 r _ h hn hf trivial
    obtain rfl : k = 1 := by omega
    have ho : (((ofWords [104, 7, 204, 0, 99]).setInputs []).after lenientModes 1).outputs = #[7] :=
      rfl
    exact ⟨r, m', h, hf, hs, es, es.after_eq ▸ ho, never⟩

end Machine
end Intcode
