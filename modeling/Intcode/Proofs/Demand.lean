import Intcode.Execution
import Intcode.Proofs.InstructionTable
import Intcode.Proofs.Suspension

namespace Intcode

namespace Machine

variable {settings : Settings} {m m₁ m₂ w : Machine} {strict : Bool} {v : Int}

theorem ended_of_stopped (hr : m.status ≠ .runnable) (hw : m.status ≠ .waiting) : m.Ended := by
  cases hs : m.status
  all_goals simp_all [Ended]

theorem Step.inputs_isSuffix : (Step settings m₁ m₂) → m₂.inputs <:+ m₁.inputs
  | perform (e := e) _ _ => by cases e <;> simp [Machine.perform, List.tail_suffix]
  | stop .. => by simp [stopOn]

theorem Steps.inputs_isSuffix (es : Steps settings m₁ m₂) : m₂.inputs <:+ m₁.inputs := by
  induction es
  case refl        => exact List.suffix_refl _
  case step e _ hi => exact hi.trans e.inputs_isSuffix

theorem Step.stalled (e : Step settings m₁ m₂) (hr : m₁.status = .runnable)
    (hw : m₂.status = .waiting) : m₂.Stalled := by
  cases e
  case perform e hn _ =>
    cases e
    case wait =>
      have h : m₁.suspend.Stalled := stalled_of_next_eq_wait hn
      simpa [Machine.perform, count, suspend] using h
    all_goals simp [Machine.perform, hr] at hw
  case stop => simp [stopOn] at hw

theorem Steps.stalled (es : Steps settings m₁ m₂) (hr : m₁.status = .runnable)
    (hw : m₂.status = .waiting) : m₂.Stalled := by
  induction es
  case refl => simp [hr] at hw
  case step m₁ m₂ m₃ _ e es hi =>
    by_cases hr' : m₂.status = .runnable
    case pos => exact hi hr' hw
    case neg =>
      obtain rfl := es.eq_of_stopped hr'
      exact e.stalled hr hw

def HasTarget (m : Machine) : Prop :=
  m.memory.Valid (m.pc + 1) ∧ m.memory.Valid (m.memory.get (m.pc + 1))

theorem hasTarget_iff :
    m.HasTarget ↔ m.memory.outside? [m.pc + 1, m.memory.get (m.pc + 1)] = none := by
  simp [HasTarget, Memory.outside?_eq_none_iff]

theorem Stalled.opcode? (h : m.Stalled) : m.opcode? = some .input := by
  have ⟨_, _, hf⟩ := h
  have ⟨_, _, _, hc⟩ := fetch_spec hf
  have hw : m.word 0 = m.memory.get m.pc := by simp [word]
  rw [Machine.opcode?, hw, hc, Opcode.ofCode?_code]

theorem Stalled.offense?_addInput (h : m.Stalled) (v : Int) (strict : Bool) :
    (m.addInput v).wake.offense? strict =
      (m.memory.outside? [m.pc + 1, m.memory.get (m.pc + 1)]).map .cell := by
  have ⟨_, _, hf⟩ := h
  have ⟨_, hv, hn, _⟩ := fetch_spec hf
  have ho : (m.addInput v).wake.opcode? = some .input := h.opcode?
  have hw : 0 ≤ (m.addInput v).wake.word 0 := by simpa [word, wake, addInput] using hn
  rw [offense?_eq ho hv hw, ←Memory.offense?_map_cell]
  simp [parameterChecks, writing, word, wake, addInput]

-- A stalled machine was resumed with one input. It has taken it, or else stopped right there,
-- because it had nowhere to store it.
inductive Consumes (w : Machine) (v : Int) (m : Machine) : Prop
  | taken (target : w.HasTarget) (inputs : m.inputs = [])
  | kept {a : Int} (target : ¬w.HasTarget) (outside : ¬w.memory.Valid a)
    (fault : m.fault = some ⟨.address a w.memory.size, some w.pc⟩) (status : m.status = .faulted)
    (steps : m.steps = w.steps + 1) (inputs : m.inputs = [v])

theorem Stalled.consumes (h : w.Stalled) (hw : w.status = .waiting)
    (r : Resumes settings (w.addInput v) m) : w.Consumes v m := by
  have hi : (w.addInput v).wake.inputs = [v] := by simp [wake, addInput, h.left]
  have hc := h.offense?_addInput v settings.isStrict
  have r := (resumes_iff_of_not_ended (by simp [Ended, addInput, hw])).mp r
  cases r.steps
  case refl => exact absurd rfl r.stopped
  case step m₁ _ e es =>
    cases ho : w.memory.outside? [w.pc + 1, w.memory.get (w.pc + 1)]
    all_goals rw [ho] at hc
    case none =>
      obtain ⟨op, _, hop, hn, hf⟩ := next_of_no_offense hc
      obtain rfl := Option.some.inj (h.opcode?.symm.trans hop)
      cases e
      case stop hn' _ _ => simp [hn] at hn'
      case perform hn' _ =>
        obtain ⟨rfl, rfl⟩ := by simpa [hn] using hn'
        have hs := es.inputs_isSuffix
        rw [hf] at hs
        exact .taken (hasTarget_iff.mpr ho) (by simpa [follow, row, hi] using hs)
    case some a =>
      have hn := next_of_offense hc
      cases e
      case perform hn' _ => simp [hn] at hn'
      case stop hn' _ _ =>
        obtain rfl := by simpa [hn] using hn'
        obtain rfl := es.eq_of_stopped (by simp [stopOn])
        obtain ⟨-, outside⟩ := Memory.mem_of_outside?_eq_some ho
        have target : ¬w.HasTarget := by simp [hasTarget_iff, ho]
        exact .kept target outside rfl (by simp [stopOn]) rfl (by simp [stopOn, hi])

end Machine

namespace Execution

open Machine (Runs Resumes)

variable {settings : Settings} {program inputs : List Int} {s : Nat → Int} {k : Nat}
variable {m m' : Machine}

def Returns (settings : Settings) (program inputs : List Int) (m : Machine) : Prop :=
  ∃ fuel events, execute settings program inputs none fuel = some ⟨events, 0, .ok m⟩

theorem returns_iff :
    Returns settings program inputs m ↔
      Runs settings ((Machine.ofWords program).setInputs inputs) m := by
  unfold Returns execute
  constructor
  case mp =>
    intro ⟨fuel, events, h⟩
    split at h
    case h_1 => simp at h
    case h_2 r hr =>
      dsimp only at h
      split at h
      case h_1      => simp at h
      case h_2 hn _ =>
        obtain ⟨-, rfl⟩ : _ ∧ r.machine = m := by simpa using h
        exact ⟨fuel, r.log, by rw [hr, ←hn]⟩
      case h_3 => simp_all
  case mpr =>
    intro ⟨fuel, log, h⟩
    exact ⟨fuel, Event.ofLog log, by simp [h]⟩

def asked (s : Nat → Int) (k : Nat) : List Int :=
  (List.range k).map s

structure Demand (settings : Settings) (program inputs : List Int) (s : Nat → Int) (k : Nat)
    (m : Machine) : Prop where
  returns : Returns settings program (inputs ++ asked s k) m
  waits   : ∀ j < k, ∃ w, Returns settings program (inputs ++ asked s j) w ∧
    w.status = .waiting ∧ w.inputs = []
  takes   : ∀ j, k = j + 1 → ∃ w, Returns settings program (inputs ++ asked s j) w ∧
    w.Consumes (s j) m

namespace Demand

theorem initial (r : Runs settings ((Machine.ofWords program).setInputs inputs) m) :
    Demand settings program inputs s 0 m where
  returns := returns_iff.mpr (by simpa [asked] using r)
  waits   := by simp
  takes   := by simp

-- A machine that waits has stalled, and the next value is what it has stalled for.
theorem ask (unlimited : settings.stepLimit = none) (d : Demand settings program inputs s k m)
    (hw : m.status = .waiting) (r : Resumes settings (m.addInput (s k)) m') :
    Demand settings program inputs s (k + 1) m' := by
  have rk := returns_iff.mp d.returns
  have stalled : m.Stalled := rk.steps.stalled rfl hw
  constructor
  case returns =>
    have hs : (Machine.ofWords program).Showable settings := Machine.ofWords_showable program
    rw [Machine.runs_ofWords_iff] at rk
    rw [returns_iff, Machine.runs_ofWords_iff, asked, List.range_succ, List.map_append,
      ←List.append_assoc, Machine.resumes_addInputs_append_iff unlimited hs]
    exact ⟨m, rk, r⟩
  case waits =>
    intro j hj
    obtain hj | rfl := Nat.lt_succ_iff_lt_or_eq.mp hj
    case inl => exact d.waits j hj
    case inr => exact ⟨m, d.returns, hw, stalled.left⟩
  case takes =>
    intro j hj
    obtain rfl : k = j := by omega
    exact ⟨m, d.returns, stalled.consumes hw r⟩

theorem supply (unlimited : settings.stepLimit = none) {fuel rounds k' : Nat}
    {events events' : Array Event} (d : Demand settings program inputs s k m)
    (h : Execution.supply settings (.ofStream s) fuel k m events rounds =
      some ⟨events', k', .ok m'⟩) :
    Demand settings program inputs s k' m' ∧ m'.status ≠ .waiting := by
  induction rounds generalizing k m events
  case zero => simp [Execution.supply] at h
  case succ rounds hi =>
    unfold Execution.supply at h
    split at h
    case isFalse hw =>
      obtain ⟨-, rfl, rfl⟩ : _ ∧ k = k' ∧ m = m' := by simpa using h
      exact ⟨d, hw⟩
    case isTrue hw =>
      simp only [Source.ofStream] at h
      split at h
      case h_1 => simp at h
      case h_2 r hr =>
        split at h
        case h_1 => simp at h
        case h_2 hn => exact hi (d.ask unlimited hw ⟨fuel, r.log, by rw [hr, ←hn]⟩) h

theorem of_execute (unlimited : settings.stepLimit = none) {fuel : Nat} {events : Array Event}
    (h : execute settings program inputs (some (.ofStream s)) fuel = some ⟨events, k, .ok m⟩) :
    Demand settings program inputs s k m ∧ m.status ≠ .waiting := by
  unfold execute at h
  split at h
  case h_1 => simp at h
  case h_2 r hr =>
    dsimp only at h
    split at h
    case h_1 => simp at h
    case h_2 => simp_all
    case h_3 hn hs =>
      obtain rfl := Option.some.inj hs
      exact (initial ⟨fuel, r.log, by rw [hr, ←hn]⟩).supply unlimited h

end Demand

theorem execute_on_demand (unlimited : settings.stepLimit = none) {fuel : Nat}
    {events : Array Event}
    (h : execute settings program inputs (some (.ofStream s)) fuel = some ⟨events, k, .ok m⟩) :
    (m.Ended ∧ ∀ m', Returns settings program (inputs ++ asked s k) m' ↔ m' = m) ∧
    (∀ j < k, ∃ w, Returns settings program (inputs ++ asked s j) w ∧
      w.status = .waiting ∧ w.inputs = []) ∧
    ∀ j, k = j + 1 → ∃ w, Returns settings program (inputs ++ asked s j) w ∧
      w.Consumes (s j) m := by
  have ⟨d, hw⟩ := Demand.of_execute unlimited h
  have r := returns_iff.mp d.returns
  refine ⟨⟨?ended, fun m' => ⟨?unique, ?returns⟩⟩, d.waits, d.takes⟩
  case ended   => exact Machine.ended_of_stopped r.stopped hw
  case unique  => exact fun r' => (returns_iff.mp r').deterministic r
  case returns => exact fun he => he ▸ d.returns

theorem execute_on_demand_sum :
    ∃ events m,
      execute .default [3, 0, 3, 1, 1, 0, 1, 0, 4, 0, 99] [20] (some (.ofStream fun k => k + 22)) 6 =
        some ⟨events, 1, .ok m⟩ ∧ m.outputs = #[42] ∧ m.Ended ∧
      Returns .default [3, 0, 3, 1, 1, 0, 1, 0, 4, 0, 99] [20, 22] m ∧
      ∃ w, Returns .default [3, 0, 3, 1, 1, 0, 1, 0, 4, 0, 99] [20] w ∧ w.status = .waiting := by
  have ⟨events, m, h, ho⟩ : ∃ events m,
      execute .default [3, 0, 3, 1, 1, 0, 1, 0, 4, 0, 99] [20] (some (.ofStream fun k => k + 22)) 6 =
        some ⟨events, 1, .ok m⟩ ∧ m.outputs = #[42] := ⟨_, _, rfl, rfl⟩
  have ⟨⟨ended, batch⟩, waits, _⟩ := execute_on_demand rfl h
  have ⟨w, r, hw, _⟩ := waits 0 Nat.one_pos
  exact ⟨events, m, h, ho, ended, (batch m).mpr rfl, w, r, hw⟩

example : ∃ events m,
    execute .default [3, 7] [] (some (.ofStream fun _ => 5)) 3 = some ⟨events, 1, .ok m⟩ ∧
      m.status = .faulted ∧ m.inputs = [5] :=
  ⟨_, _, rfl, rfl, rfl⟩

end Execution
end Intcode
