import Intcode.Proofs.InstructionTable
import Intcode.Proofs.Lifecycle

namespace Intcode

-- What becomes of an instruction. It is abandoned if it should have faulted, but the fault has an
-- integer that is too long to be written.
inductive Outcome where
  | stored (v : Int)
  | made (v : Int)
  | done
  | faulted
  | stalled
  | abandoned
  deriving DecidableEq

namespace Outcome

def stored? : Outcome → Option Int
  | stored v => some v
  | _        => none

def made? : Outcome → Option Int
  | made v => some v
  | _      => none

def isExecuted : Outcome → Bool
  | stalled | abandoned => false
  | _                   => true

end Outcome

structure Round where
  settings : Settings
  before   : Machine

namespace Round

def after (r : Round) : Machine :=
  (r.before.step r.settings).machine

def completion (r : Round) : Opcode → Outcome
  | .input  =>
    if r.after.status = .waiting then .stalled else .stored (r.after.memory.get (r.before.word 1))
  | .output => .made (r.before.operand 1)
  | _       => .done

def outcome (r : Round) : Outcome :=
  match r.before.offense? r.settings.isStrict, r.before.opcode? with
  | none, some op => r.completion op
  | _, _          => if r.after.status = .faulted then .faulted else .abandoned

end Round

namespace Machine

variable {settings : Settings} {m m₁ m₂ m₃ : Machine} {op : Opcode} {e : Effect}

def roundsFrom (settings : Settings) (taken : Nat) (m : Machine) : Nat → List Round
  | 0        => []
  | fuel + 1 =>
    if m.status = .runnable ∧ reached? settings taken = none then
      let r := m.step settings
      ⟨settings, m⟩ ::
        if r.interruption = none then roundsFrom settings (taken + 1) r.machine fuel else []
    else []

def rounds (settings : Settings) (m : Machine) (fuel : Nat) : List Round :=
  roundsFrom settings 0 m fuel

-- Of the inputs that there were and were given, some were stored and the others are left. What was
-- read for an output was added to the outputs, and what was carried out to the number of steps.
structure Conserves (m : Machine) (vs : List Int) (rs : List Round) (m' : Machine) : Prop where
  inputs  : rs.filterMap (·.outcome.stored?) ++ m'.inputs = m.inputs ++ vs
  outputs : m'.outputs.toList = m.outputs.toList ++ rs.filterMap (·.outcome.made?)
  steps   : m'.steps = m.steps + rs.countP (·.outcome.isExecuted)

namespace Conserves

theorem refl (m : Machine) : m.Conserves [] [] m where
  inputs  := by simp
  outputs := by simp
  steps   := by simp

theorem trans {vs₁ vs₂ : List Int} {rs₁ rs₂ : List Round} (h₁ : m₁.Conserves vs₁ rs₁ m₂)
    (h₂ : m₂.Conserves vs₂ rs₂ m₃) : m₁.Conserves (vs₁ ++ vs₂) (rs₁ ++ rs₂) m₃ where
  inputs  := by rw [List.filterMap_append, List.append_assoc, h₂.inputs, ←List.append_assoc,
    h₁.inputs, List.append_assoc]
  outputs := by rw [h₂.outputs, h₁.outputs, List.filterMap_append, List.append_assoc]
  steps   := by rw [h₂.steps, h₁.steps, List.countP_append, Nat.add_assoc]

theorem of_outcome {r : Round} {o : Outcome} (ho : r.outcome = o)
    (inputs : o.stored?.toList ++ m₂.inputs = m₁.inputs)
    (outputs : m₂.outputs.toList = m₁.outputs.toList ++ o.made?.toList)
    (steps : m₂.steps = m₁.steps + o.isExecuted.toNat) : m₁.Conserves [] [r] m₂ where
  inputs  := by rw [←inputs, ←ho, List.append_nil]; cases hv : r.outcome.stored? <;> simp [hv]
  outputs := by rw [outputs, ←ho]; cases hv : r.outcome.made? <;> simp [hv]
  steps   := by rw [steps, ←ho]; cases hv : r.outcome.isExecuted <;> simp [hv]

end Conserves

theorem step_machine_of_next (hn : m.next settings.isStrict = .ok (op, e)) :
    (m.step settings).machine = (m.perform op e).count := by
  by_cases hs : (m.perform op e).Showable settings
  case pos =>
    have ⟨_, h⟩ := step_returns_iff.mpr (.perform hn hs)
    rw [h]
  case neg =>
    have h : m.step settings = conclude settings (m.perform op e) (e.records m.pc) := by
      rw [step, hn]
    rw [h, conclude_of_hidden hs]

end Machine

namespace Round

open Machine

variable {r : Round} {c : Check} {op : Opcode}

theorem outcome_of_offense (h : r.before.offense? r.settings.isStrict = some c) :
    r.outcome = if r.after.status = .faulted then .faulted else .abandoned := by
  simp [outcome, h]

theorem outcome_of_no_offense (h : r.before.offense? r.settings.isStrict = none)
    (ho : r.before.opcode? = some op) : r.outcome = r.completion op := by
  simp [outcome, h, ho]

theorem after_of_offense (h : r.before.offense? r.settings.isStrict = some c) :
    r.after = { r.before with
        status := .faulted
        steps  := r.before.steps + 1
        fault  := some ⟨c.cause r.before.memory, some r.before.pc⟩ } ∨
      r.before.step r.settings = ⟨r.before, #[], some (.overlong .writing)⟩ := by
  have hn := next_of_offense h
  obtain ⟨⟨_, ht⟩, -⟩ | ⟨ht, -⟩ :=
    Fault.text_cases ⟨c.cause r.before.memory, some r.before.pc⟩
  case inr => exact .inr (step_of_wordless hn ht)
  case inl =>
    have ⟨_, hs⟩ := step_returns_iff.mpr (.stop hn ht fun _ => Fault.writable_of_text ht)
    exact .inl (by rw [after, hs]; rfl)

theorem after_of_no_offense (h : r.before.offense? r.settings.isStrict = none) :
    ∃ op, r.before.opcode? = some op ∧ r.after = r.before.follow (r.before.row op) ∧
      ∀ c ∈ r.before.parameterChecks r.settings.isStrict op, c.Passes r.before.memory := by
  have ⟨op, e, ho, hn, hf⟩ := next_of_no_offense h
  refine ⟨op, ho, by rw [after, step_machine_of_next hn, hf], fun c hc => ?_⟩
  exact passes_of_no_offense h c (by simp [checks, ho, hc])

-- What is abandoned has not happened, and the call does not return.
theorem step_of_abandoned (h : r.outcome = .abandoned) :
    r.before.step r.settings = ⟨r.before, #[], some (.overlong .writing)⟩ := by
  cases hc : r.before.offense? r.settings.isStrict
  case some c =>
    rw [outcome_of_offense hc] at h
    obtain ha | ha := after_of_offense hc
    case inl => simp [ha] at h
    case inr => exact ha
  case none =>
    have ⟨op, ho, _, _⟩ := after_of_no_offense hc
    rw [outcome_of_no_offense hc ho] at h
    unfold completion at h
    split at h
    case h_1 => split at h <;> simp at h
    all_goals simp at h

theorem conserves_input (hr : r.before.status = .runnable)
    (ha : r.after = r.before.follow (r.before.row .input)) (ho : r.outcome = r.completion .input)
    (hp : ∀ c ∈ r.before.parameterChecks r.settings.isStrict .input, c.Passes r.before.memory) :
    r.before.Conserves [] [r] r.after := by
  rw [completion, ha] at ho
  rw [ha]
  cases hi : r.before.inputs
  case nil =>
    have hs : r.outcome = .stalled := by simp [ho, follow, row, hi]
    apply Conserves.of_outcome hs
    all_goals simp [follow, row, hi, Outcome.stored?, Outcome.made?, Outcome.isExecuted]
  case cons v vs =>
    have valid : r.before.memory.Valid (r.before.word 1) :=
      hp (.cell _) (by simp [parameterChecks, writing, hi])
    have hs : r.outcome = .stored v := by
      simp [ho, follow, row, hi, hr, Memory.get_set_self valid]
    apply Conserves.of_outcome hs
    all_goals simp [follow, row, hi, hr, Outcome.stored?, Outcome.made?, Outcome.isExecuted]

theorem conserves (hr : r.before.status = .runnable) : r.before.Conserves [] [r] r.after := by
  cases hc : r.before.offense? r.settings.isStrict
  case some c =>
    have ho := outcome_of_offense hc
    obtain ha | ha := after_of_offense hc
    case inl =>
      have hs : r.outcome = .faulted := by simp [ho, ha]
      rw [ha]
      exact .of_outcome hs rfl (List.append_nil _).symm rfl
    case inr =>
      have ha : r.after = r.before := by rw [after, ha]
      have hs : r.outcome = .abandoned := by simp [ho, ha, hr]
      rw [ha]
      exact .of_outcome hs rfl (List.append_nil _).symm rfl
  case none =>
    have ⟨op, hop, ha, hp⟩ := after_of_no_offense hc
    have ho := outcome_of_no_offense hc hop
    cases op
    case input => exact conserves_input hr ha ho hp
    all_goals
      rw [ha]
      apply Conserves.of_outcome ho
      all_goals
        simp [follow, row, hr, completion, Outcome.stored?, Outcome.made?, Outcome.isExecuted]

end Round

namespace Machine

variable {settings : Settings} {m : Machine} {r : Report} {fuel : Nat}

theorem runFrom_conserves {taken : Nat} {log : Log}
    (h : runFrom settings taken m log fuel = some r) :
    m.Conserves [] (roundsFrom settings taken m fuel) r.machine := by
  induction fuel generalizing taken m log
  case zero => simp [runFrom] at h
  case succ fuel hi =>
    unfold runFrom at h
    split at h
    case isFalse hr =>
      obtain rfl : _ = r := by simpa using h
      simpa [roundsFrom, hr] using Conserves.refl m
    case isTrue hr =>
      split at h
      case h_1 hl =>
        obtain rfl : _ = r := by simpa using h
        simpa [roundsFrom, hl] using Conserves.refl m
      case h_2 hl =>
        -- The first round and those after it, if there are any.
        have hc : m.Conserves [] [⟨settings, m⟩] (m.step settings).machine :=
          Round.conserves (r := ⟨settings, m⟩) hr
        dsimp only at h
        split at h
        case h_1 hn => simpa [roundsFrom, hr, hl, hn] using hc.trans (hi h)
        case h_2 hn =>
          obtain rfl : _ = r := by simpa using h
          simpa [roundsFrom, hr, hl, hn] using hc

end Machine

def Operation.supplied : Operation → List Int
  | setInputs vs => vs
  | addInput v   => [v]
  | _            => []

namespace Session

inductive Turn (s : Session) : Operation → List Round → Session → Prop
  | run {fuel : Nat} {r : Report} (h : s.machine.run s.settings fuel = some r) :
    Turn s .run (s.machine.rounds s.settings fuel) { s with machine := r.machine }
  | resume {fuel : Nat} {r : Report} (h : s.machine.resume s.settings fuel = some r) :
    Turn s .resume (if s.machine.Ended then [] else s.machine.wake.rounds s.settings fuel)
      { s with machine := r.machine }
  | other {op : Operation} {s' : Session} (c : Call s op s') (run : op ≠ .run)
    (resume : op ≠ .resume) : Turn s op [] s'

inductive Turns : Session → List Operation → List Round → Session → Prop
  | nil {s : Session} : Turns s [] [] s
  | cons {s₁ s₂ s₃ : Session} {op : Operation} {ops : List Operation} {rs rs' : List Round}
    (t : Turn s₁ op rs s₂) (ts : Turns s₂ ops rs' s₃) : Turns s₁ (op :: ops) (rs ++ rs') s₃

variable {s s₁ s₂ : Session} {op : Operation} {ops : List Operation} {rs : List Round}

theorem Call.exists_turn (c : Call s₁ op s₂) : ∃ rs, Turn s₁ op rs s₂ := by
  have c' := c
  cases c
  case run h    => exact ⟨_, .run h⟩
  case resume h => exact ⟨_, .resume h⟩
  all_goals exact ⟨[], .other c' (by simp) (by simp)⟩

theorem Turn.call : (Turn s₁ op rs s₂) → Call s₁ op s₂
  | run h       => .run h
  | resume h    => .resume h
  | other c _ _ => c

theorem calls_iff_exists_turns : Calls s₁ ops s₂ ↔ ∃ rs, Turns s₁ ops rs s₂ := by
  constructor
  case mp =>
    intro cs
    induction cs
    case nil => exact ⟨[], .nil⟩
    case cons c _ hi =>
      have ⟨_, t⟩ := c.exists_turn
      have ⟨_, ts⟩ := hi
      exact ⟨_, .cons t ts⟩
  case mpr =>
    rintro ⟨_, ts⟩
    induction ts
    case nil         => exact .nil
    case cons t _ hi => exact .cons t.call hi

-- An operation keeps what there is, unless it gives up the inputs or all but the inputs.
theorem Turn.conserves (t : Turn s₁ op rs s₂) (hi : ∀ vs, op ≠ .setInputs vs)
    (hl : ∀ ws, op ≠ .load ws) : s₁.machine.Conserves op.supplied rs s₂.machine := by
  cases t
  case run h => exact Machine.runFrom_conserves h
  case resume h =>
    obtain ⟨he, hm, -⟩ | ⟨he, h⟩ := Machine.resume_cases h
    case inl =>
      rw [if_pos he, hm]
      exact .refl _
    case inr =>
      have hc := Machine.runFrom_conserves h
      rw [if_neg he]
      exact ⟨hc.inputs, hc.outputs, hc.steps⟩
  case other run resume c =>
    cases c
    case setInputs vs    => exact absurd rfl (hi vs)
    case load ws         => exact absurd rfl (hl ws)
    case run             => exact absurd rfl run
    case resume          => exact absurd rfl resume
    case update | refuse => exact .refl _
    case addInput        => exact ⟨rfl, by simp [Machine.addInput], rfl⟩

theorem Turns.conserves (ts : Turns s₁ ops rs s₂) (hi : ∀ vs, .setInputs vs ∉ ops)
    (hl : ∀ ws, .load ws ∉ ops) :
    s₁.machine.Conserves (ops.flatMap Operation.supplied) rs s₂.machine := by
  induction ts
  case nil => exact .refl _
  case cons t _ ih =>
    have hc := t.conserves (fun vs h => hi vs (h ▸ List.mem_cons_self))
      fun ws h => hl ws (h ▸ List.mem_cons_self)
    have hcs := ih (fun vs h => hi vs (List.mem_cons_of_mem _ h))
      fun ws h => hl ws (List.mem_cons_of_mem _ h)
    exact hc.trans hcs

-- For every program that is given some inputs once and never loaded again, whatever else is done
-- with it, and whether or not each run returns.
theorem inputs_outputs_conserved {ws vs : List Int} {settings : Settings}
    (cs : Calls ⟨.ofWords ws, settings⟩ (.setInputs vs :: ops) s) (hi : ∀ vs, .setInputs vs ∉ ops)
    (hl : ∀ ws, .load ws ∉ ops) :
    (∃ rs, Turns ⟨.ofWords ws, settings⟩ (.setInputs vs :: ops) rs s) ∧
    (∀ rs, Turns ⟨.ofWords ws, settings⟩ (.setInputs vs :: ops) rs s →
      rs.filterMap (·.outcome.stored?) ++ s.machine.inputs =
        vs ++ ops.flatMap Operation.supplied ∧
      s.machine.outputs.toList = rs.filterMap (·.outcome.made?) ∧
      s.machine.steps = rs.countP (·.outcome.isExecuted) ∧
      ∀ r ∈ rs, r.outcome = .abandoned →
        r.before.step r.settings = ⟨r.before, #[], some (.overlong .writing)⟩) ∧
    (∀ later s', Calls s later s' → (∀ vs, .setInputs vs ∉ later) → (∀ ws, .load ws ∉ later) →
      s.machine.outputs.toList <+: s'.machine.outputs.toList) ∧
    ∀ ws' s', Call s (.load ws') s' →
      s'.machine = { Machine.ofWords ws' with inputs := s.machine.inputs } := by
  refine ⟨calls_iff_exists_turns.mp cs, ?conserved, ?appended, ?reset⟩
  case conserved =>
    intro rs ts
    obtain _ | ⟨t, ts⟩ := ts
    cases t
    case other c =>
      cases c
      have hc := ts.conserves hi hl
      have steps := hc.steps.trans (Nat.zero_add _)
      exact ⟨hc.inputs, hc.outputs, steps, fun r _ => r.step_of_abandoned⟩
  case appended =>
    intro later s' cs' hi' hl'
    have ⟨_, ts⟩ := calls_iff_exists_turns.mp cs'
    exact ⟨_, (ts.conserves hi' hl').outputs.symm⟩
  case reset =>
    rintro ws' s' c
    cases c
    rfl

theorem inputs_outputs_conserved_stalled :
    ∃ s rs, Turns ⟨.ofWords [3, 0, 4, 0, 3, 0, 99], .default⟩
        [.setInputs [5], .update ⟨.int 1, .null, .null⟩, .run, .run, .run, .addInput 7, .addInput 8,
          .resume, .resume] rs s ∧
      rs.map Round.outcome = [.stored 5, .made 5, .stalled, .stored 7, .done] ∧
      rs.filterMap (·.outcome.stored?) ++ s.machine.inputs = [5, 7, 8] ∧
      s.machine.outputs.toList = rs.filterMap (·.outcome.made?) ∧
      s.machine.steps = rs.countP (·.outcome.isExecuted) ∧
      ∃ s', Call s (.load [99]) s' ∧
        s'.machine = { Machine.ofWords [99] with inputs := s.machine.inputs } := by
  let limited : Settings := ⟨some (.count 1 Nat.one_pos), .bool true, .bool false⟩
  let halted : Machine := ⟨.ofList [7, 0, 4, 0, 3, 0, 99], 6, .halted, 4, none, [8], #[5]⟩
  have ts : Turns ⟨.ofWords [3, 0, 4, 0, 3, 0, 99], .default⟩
      [.setInputs [5], .update ⟨.int 1, .null, .null⟩, .run, .run, .run, .addInput 7, .addInput 8,
        .resume, .resume] _ ⟨halted, limited⟩ :=
    .cons (.other .setInputs (by simp) (by simp)) <|
      .cons (.other (.update rfl) (by simp) (by simp)) <|
      .cons (@Turn.run _ 2 _ rfl) <| .cons (@Turn.run _ 2 _ rfl) <| .cons (@Turn.run _ 2 _ rfl) <|
      .cons (.other .addInput (by simp) (by simp)) <|
      .cons (.other .addInput (by simp) (by simp)) <|
      .cons (@Turn.resume _ 2 _ rfl) <| .cons (@Turn.resume _ 2 _ rfl) .nil
  have cs := calls_iff_exists_turns.mpr ⟨_, ts⟩
  obtain ⟨-, conserved, -, reset⟩ := inputs_outputs_conserved cs (by simp) (by simp)
  obtain ⟨inputs, outputs, steps, -⟩ := conserved _ ts
  exact ⟨⟨halted, limited⟩, _, ts, by decide, inputs, outputs, steps, _, .load, reset _ _ .load⟩

end Session
end Intcode
