import Intcode.Proofs.InPlace
import Intcode.Proofs.Run

namespace Intcode

namespace Fault

def Cause.numbers : Cause → List Int
  | address a size => [a, size]
  | mode m         => [m]
  | opcode w       => [w]
  | other _        => []

def numbers (f : Fault) : List Int :=
  f.cause.numbers ++ f.pc.toList

theorem Cause.message_cases (cause : Cause) :
    (∃ t, cause.message = .ok t) ∧ (∀ n ∈ cause.numbers, Decimal.Writable n) ∨
      cause.message = .error .writing ∧ ∃ n ∈ cause.numbers, ¬Decimal.Writable n := by
  cases cause
  case address a size =>
    by_cases ha : Decimal.Writable a <;> by_cases hs : Decimal.Writable size <;>
      simp [message, numbers, Decimal.write, ha, hs]
  case mode n | opcode n =>
    by_cases hn : Decimal.Writable n <;> simp [message, numbers, Decimal.write, hn]
  case other => simp [message, numbers]

theorem text_cases (f : Fault) :
    (∃ t, f.text = .ok t) ∧ (∀ n ∈ f.numbers, Decimal.Writable n) ∨
      f.text = .error .writing ∧ ∃ n ∈ f.numbers, ¬Decimal.Writable n := by
  obtain ⟨cause, pc⟩ := f
  simp only [text, message, numbers]
  obtain ⟨⟨t, ht⟩, hw⟩ | ⟨ht, n, hn, hw⟩ := cause.message_cases
  case inr => exact .inr ⟨by simp [ht], n, by simp [hn], hw⟩
  case inl =>
    cases pc
    case none => exact .inl ⟨by simp [ht], by simpa using hw⟩
    case some pc =>
      by_cases hp : Decimal.Writable pc
      case pos =>
        exact .inl ⟨by simp [ht, Decimal.write, hp], by simpa [or_imp, forall_and, hp] using hw⟩
      case neg => exact .inr ⟨by simp [ht, Decimal.write, hp], pc, by simp, hp⟩

theorem writable_of_text {cause : Cause} {pc : Int} {t : String}
    (h : text ⟨cause, some pc⟩ = .ok t) : Decimal.Writable pc := by
  obtain ⟨-, hw⟩ | ⟨he, -⟩ := text_cases ⟨cause, some pc⟩
  case inl => exact hw pc (by simp [numbers])
  case inr => simp [he] at h

theorem exists_not_writable_of_text {f : Fault} {e : Decimal.Overlong} (h : f.text = .error e) :
    ∃ n ∈ f.numbers, ¬Decimal.Writable n := by
  obtain ⟨⟨_, ht⟩, -⟩ | ⟨-, hw⟩ := f.text_cases
  case inl => simp [ht] at h
  case inr => exact hw

end Fault

namespace Machine

variable {settings : Settings} {m m₁ m₂ : Machine} {f : Fault} {c : Interruption}

@[simp] theorem perform_fault (m : Machine) (op : Opcode) (e : Effect) :
    (m.perform op e).fault = m.fault := by
  cases e <;> rfl

-- A step that does not return: what it has done cannot be described, or it would stop the machine
-- on a fault that cannot be put into words, and then it has done nothing.
inductive Breaks (settings : Settings) (m : Machine) : Machine → Prop
  | perform {op : Opcode} {e : Effect} (next : m.next settings.isStrict = .ok (op, e))
    (hidden : ¬(m.perform op e).Showable settings) : Breaks settings m (m.perform op e).count
  | stop {cause : Fault.Cause} (next : m.next settings.isStrict = .error cause)
    (wordless : Fault.text ⟨cause, some m.pc⟩ = .error .writing) : Breaks settings m m

theorem conclude_of_hidden {log : Log} (h : ¬m.Showable settings) :
    conclude settings m log = ⟨m.count, log, some (.overlong .writing)⟩ := by
  have ⟨ht, hw⟩ : settings.isTraced = true ∧ ¬Decimal.Writable m.pc := by
    simpa [Showable] using h
  simp [conclude, ht, trace, describe, Decimal.write, hw]

theorem step_of_wordless {cause : Fault.Cause} (hn : m.next settings.isStrict = .error cause)
    (hw : Fault.text ⟨cause, some m.pc⟩ = .error .writing) :
    m.step settings = ⟨m, #[], some (.overlong .writing)⟩ := by
  simp [step, hn, hw]

-- A step either returns or breaks off, and then it is for an integer that is too long.
theorem step_cases (settings : Settings) (m : Machine) :
    ∃ m' log, m.step settings = ⟨m', log, none⟩ ∧ Step settings m m' ∨
      m.step settings = ⟨m', log, some (.overlong .writing)⟩ ∧ Breaks settings m m' := by
  cases hn : m.next settings.isStrict
  case ok p =>
    obtain ⟨op, e⟩ := p
    by_cases hs : (m.perform op e).Showable settings
    case pos =>
      obtain ⟨log, h⟩ := step_returns_iff.mpr (.perform hn hs)
      exact ⟨_, log, .inl ⟨h, .perform hn hs⟩⟩
    case neg =>
      have h : m.step settings =
          ⟨(m.perform op e).count, e.records m.pc, some (.overlong .writing)⟩ := by
        rw [step, hn]
        exact conclude_of_hidden hs
      exact ⟨_, _, .inr ⟨h, .perform hn hs⟩⟩
  case error cause =>
    obtain ⟨⟨_, hw⟩, -⟩ | ⟨hw, -⟩ := Fault.text_cases ⟨cause, some m.pc⟩
    case inl =>
      have e : Step settings m _ := .stop hn hw fun _ => Fault.writable_of_text hw
      obtain ⟨log, h⟩ := step_returns_iff.mpr e
      exact ⟨_, log, .inl ⟨h, e⟩⟩
    case inr => exact ⟨_, _, .inr ⟨step_of_wordless hn hw, .stop hn hw⟩⟩

-- Whether or not it returns, a step leaves what its instruction or a fault makes of the machine, or
-- else the machine as it was.
theorem step_keeps {P : Machine → Prop}
    (perform : ∀ op e, m.next settings.isStrict = .ok (op, e) → P (m.perform op e).count)
    (stop : ∀ cause text, m.next settings.isStrict = .error cause →
      Fault.text ⟨cause, some m.pc⟩ = .ok text → P (m.stopOn ⟨cause, some m.pc⟩).count)
    (same : P m) : P (m.step settings).machine := by
  obtain ⟨_, _, ⟨hs, e⟩ | ⟨hs, b⟩⟩ := step_cases settings m
  all_goals rw [hs]
  case inl =>
    cases e
    case perform hn _ => exact perform _ _ hn
    case stop hn hw _ => exact stop _ _ hn hw
  case inr =>
    cases b
    case perform hn _ => exact perform _ _ hn
    case stop         => exact same

theorem run_fault {P : Fault → Prop}
    (stop : ∀ (m : Machine) cause text, m.next settings.isStrict = .error cause →
      Fault.text ⟨cause, some m.pc⟩ = .ok text → P ⟨cause, some m.pc⟩)
    {fuel : Nat} {r : Report} (h : m.run settings fuel = some r) (hm : m.fault = none) :
    ∀ f, r.machine.fault = some f → P f := by
  refine runFrom_keeps (P := fun m => ∀ f, m.fault = some f → P f) ?_ h (by simp [hm])
  intro m _ hm
  apply step_keeps (P := fun m => ∀ f, m.fault = some f → P f)
  case perform => simpa using fun _ _ _ => hm
  case stop    => simpa [stopOn] using stop m
  case same    => exact hm

-- A step records a fault if it leaves one in a machine that had none. What fault the machine has
-- before a step plays no part in it, so that is asked of the machine without it.
def Records (settings : Settings) (m : Machine) (f : Fault) : Prop :=
  ({ m with fault := none }.step settings).machine.fault = some f

theorem Records.stops (h : m.Records settings f) :
    ∃ cause text, m.next settings.isStrict = .error cause ∧ f = ⟨cause, some m.pc⟩ ∧
      f.text = .ok text := by
  obtain ⟨m', _, ⟨hs, e⟩ | ⟨hs, b⟩⟩ := step_cases settings { m with fault := none }
  all_goals rw [Records, hs] at h
  case inl =>
    cases e
    case perform => simp at h
    case stop cause text hn hw _ =>
      obtain rfl : _ = f := by simpa [stopOn] using h
      exact ⟨cause, text, hn, rfl, hw⟩
  case inr =>
    cases b
    case perform => simp at h
    case stop    => simp at h

theorem Records.step_eq (h : m.Records settings f) :
    ∃ log, m.step settings =
      ⟨{ m with status := .faulted, steps := m.steps + 1, fault := some f }, log, none⟩ := by
  obtain ⟨cause, text, hn, rfl, hw⟩ := h.stops
  have e : Step settings m (m.stopOn ⟨cause, some m.pc⟩).count :=
    .stop hn hw fun _ => Fault.writable_of_text hw
  exact step_returns_iff.mpr e

theorem Breaks.eq_of_untraced (b : Breaks settings m₁ m₂) (ht : settings.isTraced = false) :
    m₁ = m₂ ∧ ∃ cause, m₁.next settings.isStrict = .error cause ∧
      Fault.text ⟨cause, some m₁.pc⟩ = .error .writing := by
  cases b
  case perform hs       => exact absurd (fun h => by simp [ht] at h) hs
  case stop cause hn hw => exact ⟨rfl, cause, hn, hw⟩

theorem runFrom_interruption {taken fuel : Nat} {log : Log} {r : Report}
    (h : runFrom settings taken m log fuel = some r) (hc : r.interruption = some c) :
    (∃ l, settings.stepLimit = some l ∧ c = .stepLimit l) ∨ c = .overlong .writing := by
  induction fuel generalizing taken m log
  case zero => simp [runFrom] at h
  case succ fuel hi =>
    unfold runFrom at h
    split at h
    case isFalse =>
      obtain rfl : _ = r := by simpa using h
      simp at hc
    case isTrue =>
      split at h
      case h_1 l hl =>
        obtain rfl : _ = r := by simpa using h
        obtain ⟨hl, -⟩ : settings.stepLimit = some l ∧ _ := by simpa [reached?] using hl
        exact .inl ⟨l, hl, by simpa using hc.symm⟩
      case h_2 =>
        dsimp only at h
        split at h
        case h_1 => exact hi h
        case h_2 e he =>
          obtain rfl : _ = r := by simpa using h
          obtain rfl : e = c := by simpa using hc
          obtain ⟨_, _, ⟨hs, -⟩ | ⟨hs, -⟩⟩ := step_cases settings m
          case inl => simp [hs] at he
          case inr => exact .inr (by simpa [hs] using he.symm)

end Machine

namespace InPlace

open Machine

variable {settings : Settings} {m : Machine} {log : Log} {f : Fault} {x : Raised} {s : Running}

theorem stateAfter_ending (log : Log) (r : Report) :
    Result.stateAfter (ending log r) = ⟨r.machine, log ++ r.log⟩ := by
  unfold ending
  split <;> rfl

theorem ending_eq_error {r : Report} (h : ending log r = .error x s) :
    ∃ c, r.interruption = some c ∧ x = .interruption c ∧ s = ⟨r.machine, log ++ r.log⟩ := by
  unfold ending at h
  split at h
  case h_1 => simp at h
  case h_2 c hc =>
    obtain ⟨rfl, rfl⟩ := by simpa using h
    exact ⟨c, hc, rfl, rfl⟩

-- A step that records a fault leaves everything else as it was, whatever the instruction did first.
theorem step_of_recorded
    (h : (Result.stateAfter ((step settings).run ⟨{ m with fault := none }, log⟩)).machine.fault =
      some f) :
    f.pc = some m.pc ∧ ∃ log', (step settings).run ⟨m, log⟩ =
      .ok () ⟨{ m with status := .faulted, steps := m.steps + 1, fault := some f }, log'⟩ := by
  have hr : m.Records settings f := by rwa [step_run, stateAfter_ending] at h
  obtain ⟨_, _, -, rfl, -⟩ := hr.stops
  have ⟨log', hs⟩ := hr.step_eq
  exact ⟨rfl, log ++ log', by rw [step_run, hs]; rfl⟩

theorem step_of_raised (untraced : settings.isTraced = false)
    (h : (step settings).run ⟨m, log⟩ = .error x s) :
    x = .interruption (.overlong .writing) ∧ s = ⟨m, log⟩ ∧
      ∃ cause, m.next settings.isStrict = .error cause ∧
        ∃ n ∈ Fault.numbers ⟨cause, some m.pc⟩, ¬Decimal.Writable n := by
  rw [step_run] at h
  obtain ⟨c, hc, rfl, rfl⟩ := ending_eq_error h
  obtain ⟨_, log', ⟨hs, -⟩ | ⟨hs, b⟩⟩ := step_cases settings m
  case inl => simp [hs] at hc
  case inr =>
    obtain ⟨rfl, cause, hn, hw⟩ := b.eq_of_untraced untraced
    have hw' := Fault.exists_not_writable_of_text hw
    obtain rfl : log' = #[] := by
      rw [step_of_wordless hn hw] at hs
      exact (congrArg Report.log hs).symm
    exact ⟨by simpa [hs] using hc.symm, by simp [hs], cause, hn, hw'⟩

theorem run_of_raised {taken fuel : Nat} (h : (run settings taken fuel).run ⟨m, log⟩ = .error x s) :
    (∃ l, settings.stepLimit = some l ∧ x = .interruption (.stepLimit l)) ∨
      x = .interruption (.overlong .writing) := by
  have e := run_ends settings taken m log fuel
  rw [h] at e
  generalize ho : m.runFrom settings taken log fuel = o at e
  cases e
  case interrupted c => simpa using runFrom_interruption ho rfl

theorem resume_of_raised {fuel : Nat} (h : (resume settings fuel).run ⟨m, log⟩ = .error x s) :
    (∃ l, settings.stepLimit = some l ∧ x = .interruption (.stepLimit l)) ∨
      x = .interruption (.overlong .writing) := by
  rw [resume_run] at h
  split at h
  case isTrue  => simp at h
  case isFalse => exact run_of_raised h

end InPlace

namespace Machine

theorem faults_contained (settings : Settings) (m : Machine) (log : Log) :
    ((InPlace.step settings).run ⟨m, log⟩ = InPlace.ending log (m.step settings) ∧
      ∀ fuel, InPlace.Ends (m.run settings fuel) ((InPlace.run settings 0 fuel).run ⟨m, #[]⟩) ∧
        InPlace.Ends (m.resume settings fuel) ((InPlace.resume settings fuel).run ⟨m, #[]⟩)) ∧
    (∀ f, (Result.stateAfter
        ((InPlace.step settings).run ⟨{ m with fault := none }, log⟩)).machine.fault = some f →
      f.pc = some m.pc ∧ ∃ log', (InPlace.step settings).run ⟨m, log⟩ =
        .ok () ⟨{ m with status := .faulted, steps := m.steps + 1, fault := some f }, log'⟩) ∧
    (settings.isTraced = false → ∀ x s, (InPlace.step settings).run ⟨m, log⟩ = .error x s →
      x = .interruption (.overlong .writing) ∧ s = ⟨m, log⟩ ∧
        ∃ cause, m.next settings.isStrict = .error cause ∧
          ∃ n ∈ Fault.numbers ⟨cause, some m.pc⟩, ¬Decimal.Writable n) ∧
    ∀ fuel x s, (InPlace.run settings 0 fuel).run ⟨m, log⟩ = .error x s ∨
        (InPlace.resume settings fuel).run ⟨m, log⟩ = .error x s →
      (∃ l, settings.stepLimit = some l ∧ x = .interruption (.stepLimit l)) ∨
        x = .interruption (.overlong .writing) := by
  refine ⟨⟨InPlace.step_run settings _, fun fuel => ⟨?run, ?resume⟩⟩,
    fun _ => InPlace.step_of_recorded, fun ht _ _ => InPlace.step_of_raised ht, ?raised⟩
  case run    => exact InPlace.run_ends settings 0 m #[] fuel
  case resume => exact InPlace.resume_ends settings m fuel
  case raised =>
    rintro fuel x s (h | h)
    case inl => exact InPlace.run_of_raised h
    case inr => exact InPlace.resume_of_raised h

-- An input with no cell to go to stays where it is, and a negative word with one digit too many is
-- not even a fault.
theorem faults_contained_overlong :
    (∃ log, (InPlace.step .default).run ⟨(ofWords [3, 7]).setInputs [20, 22], #[]⟩ =
      .ok () ⟨{ (ofWords [3, 7]).setInputs [20, 22] with
        status := .faulted
        steps  := 1
        fault  := some ⟨.address 7 2, some 0⟩ }, log⟩) ∧
      ∃ w : Int, w = -Decimal.powerOfTen Decimal.limit ∧
        (InPlace.step .default).run ⟨ofWords [w], #[]⟩ =
          .error (.interruption (.overlong .writing)) ⟨ofWords [w], #[]⟩ := by
  refine ⟨?fault, ?overlong⟩
  case fault =>
    obtain ⟨-, recorded, -⟩ := faults_contained .default ((ofWords [3, 7]).setInputs [20, 22]) #[]
    exact (recorded ⟨.address 7 2, some 0⟩ rfl).right
  case overlong =>
    obtain ⟨w, hp⟩ : ∃ w : Int, w = -Decimal.powerOfTen Decimal.limit := ⟨_, rfl⟩
    have hw : ¬Decimal.Writable w := by
      rw [Decimal.writable_iff_lt]
      omega
    have hn : (ofWords [w]).next Settings.default.isStrict = .error (.opcode w) := by
      have hm : (ofWords [w]).memory.read (ofWords [w]).pc = .ok w := rfl
      have negative : w < 0 := by
        have : 0 < Decimal.powerOfTen Decimal.limit := by
          rw [Decimal.powerOfTen, Nat.pow_eq]
          exact Nat.pow_pos (by decide)
        omega
      simp only [next, fetch, hm, Result.ok_bind, Instruction.decode_of_neg negative,
        Result.error_bind]
    have ht : Fault.text ⟨.opcode w, some (ofWords [w]).pc⟩ = .error .writing := by
      simp [Fault.text, Fault.message, Fault.Cause.message, Decimal.write, hw]
    obtain ⟨⟨hs, -⟩, -, broken, -⟩ := faults_contained .default (ofWords [w]) #[]
    rw [step_of_wordless hn ht] at hs
    obtain ⟨-, unchanged, -⟩ := broken rfl _ _ hs
    exact ⟨w, hp, hs.trans (congrArg _ unchanged)⟩

end Machine
end Intcode
