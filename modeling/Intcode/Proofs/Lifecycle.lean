import Intcode.Proofs.Containment

namespace Intcode

namespace Machine

variable {settings : Settings} {m m₁ m₂ : Machine} {op : Opcode} {e : Effect}

structure At (m : Machine) (op : Opcode) : Prop where
  valid  : m.memory.Valid m.pc
  nonneg : 0 ≤ m.memory.get m.pc
  code   : m.memory.get m.pc % 100 = op.code

theorem At.of_eq (h : m₁.At op) (hm : m₂.memory = m₁.memory) (hp : m₂.pc = m₁.pc) : m₂.At op where
  valid  := by rw [hm, hp]; exact h.valid
  nonneg := by rw [hm, hp]; exact h.nonneg
  code   := by rw [hm, hp]; exact h.code

theorem at_of_fetch {i : Instruction} (h : m.fetch = .ok (op, i)) : m.At op := by
  have ⟨_, valid, nonneg, code⟩ := fetch_spec h
  exact ⟨valid, nonneg, code⟩

-- What is true of a machine at all times: if it has stopped, then where it is and why.
structure Coherent (m : Machine) : Prop where
  halted  : m.status = .halted → m.At .halt
  waiting : m.status = .waiting → m.At .input
  faulted : m.fault ≠ none ↔ m.status = .faulted
  located : ∀ f, m.fault = some f → f.pc = some m.pc

namespace Coherent

theorem of_runnable (hr : m.status = .runnable) (hf : m.fault = none) : m.Coherent where
  halted h  := by simp [hr] at h
  waiting h := by simp [hr] at h
  faulted   := by simp [hr, hf]
  located   := by simp [hf]

theorem fault_eq_none (h : m.Coherent) (hs : m.status ≠ .faulted) : m.fault = none := by
  by_contra hf
  exact hs (h.faulted.mp hf)

theorem of_eq (h : m₁.Coherent) (hm : m₂.memory = m₁.memory) (hp : m₂.pc = m₁.pc)
    (hs : m₂.status = m₁.status) (hf : m₂.fault = m₁.fault) : m₂.Coherent where
  halted e  := (h.halted (hs ▸ e)).of_eq hm hp
  waiting e := (h.waiting (hs ▸ e)).of_eq hm hp
  faulted   := by rw [hf, hs]; exact h.faulted
  located   := by rw [hf, hp]; exact h.located

theorem count (h : m.Coherent) : m.count.Coherent :=
  h.of_eq (count_memory m) (count_pc m) (count_status m) (count_fault m)

theorem stopOn (m : Machine) (cause : Fault.Cause) : (m.stopOn ⟨cause, some m.pc⟩).Coherent where
  halted h  := by simp [Machine.stopOn] at h
  waiting h := by simp [Machine.stopOn] at h
  faulted   := by simp [Machine.stopOn]
  located   := by simp [Machine.stopOn]

-- An instruction that stops the machine changes neither the memory nor the program counter, so the
-- machine is still at it.
theorem perform {strict : Bool} (h : m.Coherent) (hr : m.status = .runnable)
    (hn : m.next strict = .ok (op, e)) : (m.perform op e).Coherent := by
  have hf : m.fault = none := h.fault_eq_none (by simp [hr])
  have ⟨i, hi, he⟩ := next_eq_ok_iff.mp hn
  have hs := Instruction.effect_suits he
  have ha := at_of_fetch hi
  cases e
  case wait =>
    obtain ⟨rfl, -⟩ := hs
    exact {
      halted  := by simp [Machine.perform]
      waiting := fun _ => ha.of_eq rfl rfl
      faulted := by simp [Machine.perform, hf]
      located := by simp [Machine.perform, hf]
    }
  case halt =>
    obtain rfl : op = .halt := hs
    exact {
      halted  := fun _ => ha.of_eq rfl rfl
      waiting := by simp [Machine.perform]
      faulted := by simp [Machine.perform, hf]
      located := by simp [Machine.perform, hf]
    }
  all_goals exact of_runnable hr hf

theorem step (h : m.Coherent) (hr : m.status = .runnable) :
    (m.step settings).machine.Coherent := by
  apply step_keeps
  case perform => exact fun _ _ hn => (h.perform hr hn).count
  case stop    => exact fun cause _ _ _ => (stopOn m cause).count
  case same    => exact h

theorem run {fuel : Nat} {r : Report} (h : m.Coherent) (hr : m.run settings fuel = some r) :
    r.machine.Coherent :=
  runFrom_keeps (fun _ hr h => h.step hr) hr h

theorem resume {fuel : Nat} {r : Report} (h : m.Coherent) (hr : m.resume settings fuel = some r) :
    r.machine.Coherent := by
  obtain ⟨-, he, -⟩ | ⟨he, hr⟩ := resume_cases hr
  case inl => exact he ▸ h
  case inr =>
    have hf : m.fault = none := h.fault_eq_none fun hs => he (.inr hs)
    have hw : m.wake.Coherent := of_runnable rfl hf
    exact hw.run hr

end Coherent

theorem run_of_stopped {fuel : Nat} {r : Report} (h : m.status ≠ .runnable)
    (hr : m.run settings fuel = some r) : r.machine = m := by
  rw [runFrom_of_stopped h hr]

theorem step_memory_size (settings : Settings) (m : Machine) :
    (m.step settings).machine.memory.size = m.memory.size := by
  apply step_keeps (P := (·.memory.size = m.memory.size))
  case perform =>
    intro op e _
    cases e <;> simp [perform]
  case stop => simp [stopOn]
  case same => rfl

theorem run_memory_size {fuel : Nat} {r : Report} (h : m.run settings fuel = some r) :
    r.machine.memory.size = m.memory.size :=
  runFrom_keeps (P := (·.memory.size = m.memory.size))
    (fun m' _ hm => (step_memory_size settings m').trans hm) h rfl

theorem resume_memory_size {fuel : Nat} {r : Report} (h : m.resume settings fuel = some r) :
    r.machine.memory.size = m.memory.size := by
  obtain ⟨-, he, -⟩ | ⟨-, h⟩ := resume_cases h
  case inl => rw [he]
  case inr =>
    calc r.machine.memory.size
      _ = m.wake.memory.size := run_memory_size h
      _ = m.memory.size      := rfl

end Machine

inductive Operation where
  | setInputs (vs : List Int)
  | addInput (v : Int)
  | run
  | resume
  | load (ws : List Int)
  | update (u : Settings.Update)

@[ext]
structure Session where
  machine  : Machine
  settings : Settings

namespace Session

-- What an operation leaves behind: that of a run which is interrupted, too, and of an update which
-- is refused.
inductive Call (s : Session) : Operation → Session → Prop
  | setInputs {vs : List Int} :
    Call s (.setInputs vs) { s with machine := s.machine.setInputs vs }
  | addInput {v : Int} :
    Call s (.addInput v) { s with machine := s.machine.addInput v }
  | run {fuel : Nat} {r : Report} (h : s.machine.run s.settings fuel = some r) :
    Call s .run { s with machine := r.machine }
  | resume {fuel : Nat} {r : Report} (h : s.machine.resume s.settings fuel = some r) :
    Call s .resume { s with machine := r.machine }
  | load {ws : List Int} :
    Call s (.load ws) { s with machine := s.machine.load (.ofList ws) }
  | update {u : Settings.Update} {t : Settings} (h : s.settings.update u = .ok t) :
    Call s (.update u) { s with settings := t }
  | refuse {u : Settings.Update} {e : Settings.Refusal} (h : s.settings.update u = .error e) :
    Call s (.update u) s

inductive Calls : Session → List Operation → Session → Prop
  | nil {s : Session} : Calls s [] s
  | cons {s₁ s₂ s₃ : Session} {op : Operation} {ops : List Operation} (c : Call s₁ op s₂)
    (cs : Calls s₂ ops s₃) : Calls s₁ (op :: ops) s₃

variable {s s₁ s₂ : Session} {op : Operation} {ops : List Operation}

namespace Call

theorem coherent (c : Call s₁ op s₂) (h : s₁.machine.Coherent) : s₂.machine.Coherent := by
  cases c
  case setInputs | addInput => exact h.of_eq rfl rfl rfl rfl
  case run hr               => exact h.run hr
  case resume hr            => exact h.resume hr
  case load                 => exact .of_runnable rfl rfl
  case update | refuse      => exact h

theorem memory_size (c : Call s₁ op s₂) (hl : ∀ ws, op ≠ .load ws) :
    s₂.machine.memory.size = s₁.machine.memory.size := by
  cases c
  case run h    => exact Machine.run_memory_size h
  case resume h => exact Machine.resume_memory_size h
  case load ws  => exact absurd rfl (hl ws)
  all_goals rfl

-- All but the inputs stays of a machine that has ended, and of one that waits unless it is resumed.
theorem rests (c : Call s₁ op s₂) (hl : ∀ ws, op ≠ .load ws)
    (h : s₁.machine.Ended ∨ s₁.machine.status = .waiting ∧ op ≠ .resume) :
    ∃ vs, s₂.machine = s₁.machine.setInputs vs := by
  have hs : s₁.machine.status ≠ .runnable := by
    obtain h | ⟨h, -⟩ := h
    · exact fun hr => Machine.not_ended_of_runnable hr h
    · simp [h]
  cases c
  case setInputs vs    => exact ⟨vs, rfl⟩
  case addInput v      => exact ⟨s₁.machine.inputs ++ [v], rfl⟩
  case run hr          => exact ⟨s₁.machine.inputs, Machine.run_of_stopped hs hr⟩
  case load ws         => exact absurd rfl (hl ws)
  case update | refuse => exact ⟨s₁.machine.inputs, rfl⟩
  case resume hr =>
    have he : s₁.machine.Ended := by simpa using h
    obtain ⟨-, hm, -⟩ | ⟨hn, -⟩ := Machine.resume_cases hr
    case inl => exact ⟨s₁.machine.inputs, hm⟩
    case inr => exact absurd he hn

end Call

namespace Calls

theorem coherent (cs : Calls s₁ ops s₂) (h : s₁.machine.Coherent) : s₂.machine.Coherent := by
  induction cs
  case nil         => exact h
  case cons c _ hi => exact hi (c.coherent h)

theorem memory_size (cs : Calls s₁ ops s₂) (hl : ∀ ws, .load ws ∉ ops) :
    s₂.machine.memory.size = s₁.machine.memory.size := by
  induction cs
  case nil => rfl
  case cons c _ hi =>
    have h := hi fun ws hw => hl ws (List.mem_cons_of_mem _ hw)
    exact h.trans (c.memory_size fun ws hw => hl ws (hw ▸ List.mem_cons_self))

theorem rests (cs : Calls s₁ ops s₂) (hl : ∀ ws, .load ws ∉ ops)
    (h : s₁.machine.Ended ∨ s₁.machine.status = .waiting ∧ .resume ∉ ops) :
    ∃ vs, s₂.machine = s₁.machine.setInputs vs := by
  induction cs
  case nil s => exact ⟨s.machine.inputs, rfl⟩
  case cons s₁ s₂ _ op ops c _ hi =>
    have hc : s₁.machine.Ended ∨ s₁.machine.status = .waiting ∧ op ≠ .resume :=
      h.imp_right fun ⟨hs, hr⟩ => ⟨hs, fun ho => hr (ho ▸ List.mem_cons_self)⟩
    have ⟨vs, hv⟩ := c.rests (fun ws hw => hl ws (hw ▸ List.mem_cons_self)) hc
    -- The operations that follow find the machine in the same status.
    have h₂ : s₂.machine.Ended ∨ s₂.machine.status = .waiting ∧ .resume ∉ ops := by
      rw [hv]
      exact h.imp_right fun ⟨hs, hr⟩ => ⟨hs, fun ho => hr (List.mem_cons_of_mem _ ho)⟩
    have ⟨vs', hv'⟩ := hi (fun ws hw => hl ws (List.mem_cons_of_mem _ hw)) h₂
    exact ⟨vs', by rw [hv', hv]; rfl⟩

end Calls

theorem lifecycle {ws : List Int} {settings : Settings} (cs : Calls ⟨.ofWords ws, settings⟩ ops s) :
    s.machine.Coherent ∧
      ∀ later s', Calls s later s' → (∀ ws, .load ws ∉ later) →
        (s.machine.Ended → ∃ vs, s'.machine = s.machine.setInputs vs) ∧
        (s.machine.status = .waiting → .resume ∉ later →
          ∃ vs, s'.machine = s.machine.setInputs vs) ∧
        s'.machine.memory.size = s.machine.memory.size := by
  constructor
  case left => exact cs.coherent (.of_runnable rfl rfl)
  case right =>
    intro later s' cs' hl
    refine ⟨?ended, ?waiting, cs'.memory_size hl⟩
    case ended   => exact fun he => cs'.rests hl (.inl he)
    case waiting => exact fun hw hr => cs'.rests hl (.inr ⟨hw, hr⟩)

-- A program that reads an input and halts. It waits, is refused a step limit of zero and given one
-- of one, is resumed and so interrupted, runs on, and then takes no notice of what follows.
theorem lifecycle_halted :
    ∃ s s', Calls ⟨.ofWords [3, 0, 99], .default⟩
        [.run, .update ⟨.int 0, .null, .null⟩, .update ⟨.int 1, .null, .null⟩, .addInput 5, .resume,
          .run] s ∧
      Calls s [.addInput 7, .resume, .run] s' ∧
      s.machine.status = .halted ∧ s.machine.At .halt ∧
      ∃ vs, s'.machine = s.machine.setInputs vs := by
  let halted : Session :=
    ⟨⟨.ofList [5, 0, 99], 2, .halted, 2, none, [], #[]⟩,
      ⟨some (.count 1 Nat.one_pos), .bool true, .bool false⟩⟩
  have cs : Calls ⟨.ofWords [3, 0, 99], .default⟩
      [.run, .update ⟨.int 0, .null, .null⟩, .update ⟨.int 1, .null, .null⟩, .addInput 5, .resume,
        .run] halted :=
    .cons (@Call.run _ 2 _ rfl) <| .cons (.refuse rfl) <| .cons (.update rfl) <| .cons .addInput <|
      .cons (@Call.resume _ 2 _ rfl) <| .cons (@Call.run _ 2 _ rfl) .nil
  have cs' : Calls halted [.addInput 7, .resume, .run] _ :=
    .cons .addInput <| .cons (@Call.resume _ 1 _ rfl) <| .cons (@Call.run _ 1 _ rfl) .nil
  have ⟨coherent, rests⟩ := lifecycle cs
  have ⟨ended, _, _⟩ := rests _ _ cs' (by simp)
  exact ⟨halted, _, cs, cs', rfl, coherent.halted rfl, ended (.inl rfl)⟩

end Session
end Intcode
