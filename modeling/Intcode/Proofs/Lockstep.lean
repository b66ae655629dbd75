import Intcode.Proofs.Containment
import Intcode.Proofs.StepLimit

namespace Intcode

namespace Result

variable {ε α β : Type} {Bad : ε → Prop} {x y : Except ε α} {f g : α → Except ε β}

def Agree (Bad : ε → Prop) (x y : Except ε α) : Prop :=
  (∃ e, x = .error e ∧ Bad e) ∨ x = y

namespace Agree

theorem refl (Bad : ε → Prop) (x : Except ε α) : Agree Bad x x :=
  .inr rfl

theorem bind (h : Agree Bad x y) (hf : ∀ a, Agree Bad (f a) (g a)) :
    Agree Bad (x >>= f) (y >>= g) := by
  obtain ⟨e, rfl, hb⟩ | rfl := h
  case inl => exact .inl ⟨e, rfl, hb⟩
  case inr =>
    cases x
    case error => exact refl _ _
    case ok a  => exact hf a

theorem eq (h : Agree Bad x y) (good : ∀ e, x = .error e → ¬Bad e) : x = y := by
  obtain ⟨e, he, hb⟩ | h := h
  case inl => exact absurd hb (good e he)
  case inr => exact h

end Agree
end Result

theorem Memory.check_eq_read (memory : Memory) (a : Int) :
    memory.check a = memory.read a >>= fun _ => .ok () := by
  by_cases h : memory.Valid a
  case pos => rw [check_of_valid h, read_of_valid h, Result.ok_bind]
  case neg => rw [check_of_not_valid h, read_of_not_valid h, Result.error_bind]

def Effect.target? : Effect → Option Int
  | store a _ | take a _ => some a
  | _                    => none

namespace Instruction

variable {i : Instruction} {memory : Memory} {strict : Bool} {a n : Int}

theorem destination_valid (h : i.destination memory n = .ok a) : memory.Valid a := by
  have ⟨b, _, h⟩ := Result.bind_eq_ok_iff.mp h
  have ⟨_, hc, h⟩ := Result.bind_eq_ok_iff.mp h
  obtain rfl : b = a := by simpa using h
  by_contra hv
  simp [Memory.check_of_not_valid hv] at hc

-- An address is checked before it is written to.
theorem effect_target_valid {inputs : List Int} {op : Opcode} {e : Effect}
    (h : i.effect memory strict inputs op = .ok e) (ht : e.target? = some a) :
    memory.Valid a := by
  have hs := effect_suits h
  cases e
  case store b v =>
    obtain rfl : b = a := by simpa [Effect.target?] using ht
    cases op
    case input | output | jumpIfTrue | jumpIfFalse | halt =>
      simp [Effect.Suits, Opcode.writeTarget?] at hs
    all_goals
      simp only [effect, combine, Result.bind_eq_ok_iff] at h
      obtain ⟨_, -, _, -, dst, hd, h⟩ := h
      obtain ⟨rfl, -⟩ : dst = b ∧ _ := by simpa using h
      exact destination_valid hd
  case take b v =>
    obtain rfl : b = a := by simpa [Effect.target?] using ht
    obtain ⟨rfl, hi⟩ := hs
    cases inputs
    case nil => simp at hi
    case cons =>
      simp only [effect, takeInput, Result.bind_eq_ok_iff] at h
      obtain ⟨dst, hd, h⟩ := h
      obtain ⟨rfl, -⟩ : dst = b ∧ _ := by simpa using h
      exact destination_valid hd
  all_goals simp [Effect.target?] at ht

end Instruction

def Machine.mapMemory (g : Memory → Memory) (m : Machine) : Machine :=
  { m with memory := g m.memory }

structure Lockstep (Bad : Fault.Cause → Prop) (g : Memory → Memory) (s s' : Settings) : Prop where
  limit   : s'.stepLimit = s.stepLimit
  traced  : s'.isTraced = s.isTraced
  read    : ∀ (memory : Memory) a, Result.Agree Bad (memory.read a) ((g memory).read a)
  resolve : ∀ (memory : Memory) raw mode,
    Result.Agree Bad (memory.resolve s.isStrict raw mode) ((g memory).resolve s'.isStrict raw mode)
  set     : ∀ (memory : Memory) a v, memory.Valid a → g (memory.set a v) = (g memory).set a v

-- A run that has returned without a fault of some kind, or has reached its step limit.
def Report.Avoids (Bad : Fault.Cause → Prop) (r : Report) : Prop :=
  (r.interruption = none ∧ ∀ f, r.machine.fault = some f → ¬Bad f.cause) ∨
    ∃ l, r.interruption = some (.stepLimit l)

namespace Lockstep

open Result (Agree)

variable {Bad : Fault.Cause → Prop} {g : Memory → Memory} {s s' : Settings}
variable {m m₁ m₂ : Machine} {op : Opcode} {e : Effect}

section Access

variable (l : Lockstep Bad g s s') (i : Instruction) (memory : Memory)

include l

theorem check (a : Int) : Agree Bad (memory.check a) ((g memory).check a) := by
  simp only [Memory.check_eq_read]
  exact (l.read memory a).bind fun _ => .refl _ _

theorem operand₁ :
    Agree Bad (i.operand₁ memory s.isStrict) (i.operand₁ (g memory) s'.isStrict) :=
  (l.read memory _).bind fun raw => l.resolve memory raw i.mode₁

theorem operand₂ :
    Agree Bad (i.operand₂ memory s.isStrict) (i.operand₂ (g memory) s'.isStrict) :=
  (l.read memory _).bind fun raw => l.resolve memory raw i.mode₂

theorem destination (n : Int) :
    Agree Bad (i.destination memory n) (i.destination (g memory) n) :=
  (l.read memory _).bind fun a => (l.check memory a).bind fun _ => .refl _ _

theorem combine (f : Int → Int → Int) :
    Agree Bad (i.combine memory s.isStrict f) (i.combine (g memory) s'.isStrict f) :=
  (l.operand₁ i memory).bind fun _ => (l.operand₂ i memory).bind fun _ =>
    (l.destination i memory 3).bind fun _ => .refl _ _

theorem jumpIf (p : Int → Bool) :
    Agree Bad (i.jumpIf memory s.isStrict p) (i.jumpIf (g memory) s'.isStrict p) := by
  refine (l.operand₁ i memory).bind fun a => ?_
  split
  case isTrue  => exact (l.operand₂ i memory).bind fun _ => .refl _ _
  case isFalse => exact .refl _ _

theorem effect (inputs : List Int) (op : Opcode) :
    Agree Bad (i.effect memory s.isStrict inputs op)
      (i.effect (g memory) s'.isStrict inputs op) := by
  cases op
  case input =>
    cases inputs
    case nil  => exact .refl _ _
    case cons => exact (l.destination i memory 1).bind fun _ => .refl _ _
  case output                   => exact (l.operand₁ i memory).bind fun _ => .refl _ _
  case jumpIfTrue | jumpIfFalse => exact l.jumpIf i memory _
  case halt                     => exact .refl _ _
  all_goals exact l.combine i memory _

end Access

theorem next (l : Lockstep Bad g s s') (m : Machine) :
    Agree Bad (m.next s.isStrict) ((m.mapMemory g).next s'.isStrict) := by
  have hf : Agree Bad m.fetch (m.mapMemory g).fetch :=
    (l.read m.memory m.pc).bind fun _ => .refl _ _
  exact hf.bind fun (op, i) => (l.effect i m.memory m.inputs op).bind fun _ => .refl _ _

theorem perform (l : Lockstep Bad g s s') (hn : m.next s.isStrict = .ok (op, e)) :
    (m.mapMemory g).perform op e = (m.perform op e).mapMemory g := by
  have ⟨_, _, he⟩ := Machine.next_eq_ok_iff.mp hn
  cases e
  case store a v | take a v =>
    have hv : m.memory.Valid a := Instruction.effect_target_valid he rfl
    simp [Machine.perform, Machine.mapMemory, l.set _ _ v hv]
  all_goals rfl

theorem count (m : Machine) : (m.mapMemory g).count = m.count.mapMemory g := by
  by_cases h : m.status = .waiting <;> simp [Machine.count, Machine.mapMemory, h]

theorem conclude (l : Lockstep Bad g s s') (m : Machine) (log : Log) :
    Machine.conclude s' (m.mapMemory g) log =
      { Machine.conclude s m log with
          machine := (Machine.conclude s m log).machine.mapMemory g } := by
  have hd : (m.count.mapMemory g).describe = m.count.describe := rfl
  simp only [Machine.conclude, l.traced, count, Machine.trace, hd]
  split
  case isFalse => rfl
  case isTrue  => split <;> rfl

-- A step leaves both machines in lockstep, unless it is one of those that are left open.
theorem step (l : Lockstep Bad g s s') (good : ∀ c, m.next s.isStrict = .error c → ¬Bad c) :
    (m.mapMemory g).step s' = { m.step s with machine := (m.step s).machine.mapMemory g } := by
  have hn : (m.mapMemory g).next s'.isStrict = m.next s.isStrict := ((l.next m).eq good).symm
  have hp : (m.mapMemory g).pc = m.pc := rfl
  simp only [Machine.step, hn, hp]
  cases hm : m.next s.isStrict
  case ok p =>
    dsimp only
    rw [l.perform hm]
    exact l.conclude _ _
  case error c =>
    dsimp only
    cases Fault.text ⟨c, some m.pc⟩
    case ok    => exact l.conclude (m.stopOn _) _
    case error => rfl

theorem step_of_not_faulted (l : Lockstep Bad g s s') (e : Machine.Step s m₁ m₂)
    (hf : m₂.status ≠ .faulted) : Machine.Step s' (m₁.mapMemory g) (m₂.mapMemory g) := by
  have good : ∀ c, m₁.next s.isStrict = .error c → ¬Bad c := by
    intro c hn
    cases e
    case perform hn' _ => simp [hn] at hn'
    case stop          => simp [Machine.stopOn] at hf
  obtain ⟨log, hs⟩ := Machine.step_returns_iff.mpr e
  exact Machine.step_returns_iff.mp ⟨log, by rw [l.step good, hs]⟩

theorem stepsIn (l : Lockstep Bad g s s') {n : Nat} (es : Machine.StepsIn s n m₁ m₂)
    (hr : m₂.status = .runnable) : Machine.StepsIn s' n (m₁.mapMemory g) (m₂.mapMemory g) := by
  induction es
  case refl => exact .refl
  case step hr₁ e es hi =>
    have e' := l.step_of_not_faulted e (by simp [es.runnable hr])
    exact .step hr₁ e' (hi hr)

-- A run that comes to such a fault ends with it, or breaks off.
theorem not_avoids {taken fuel : Nat} {log : Log} {r : Report} {c : Fault.Cause}
    (hn : m.next s.isStrict = .error c) (hb : Bad c) (hr : m.status = .runnable)
    (hl : Machine.reached? s taken = none) (h : m.runFrom s taken log (fuel + 1) = some r) :
    ¬r.Avoids Bad := by
  simp only [Machine.runFrom, hr, if_true, hl] at h
  obtain ⟨⟨_, hw⟩, -⟩ | ⟨hw, -⟩ := Fault.text_cases ⟨c, some m.pc⟩
  case inl =>
    obtain ⟨_, hs⟩ := Machine.step_returns_iff.mpr (.stop hn hw fun _ => Fault.writable_of_text hw)
    simp only [hs] at h
    obtain rfl := Machine.runFrom_of_stopped (by simp [Machine.stopOn]) h
    simp [Report.Avoids, Machine.stopOn, hb]
  case inr =>
    simp only [Machine.step_of_wordless hn hw] at h
    obtain rfl : _ = r := by simpa using h
    simp [Report.Avoids]

theorem reached? (l : Lockstep Bad g s s') (taken : Nat) :
    Machine.reached? s' taken = Machine.reached? s taken := by
  rw [Machine.reached?, l.limit, Machine.reached?]

theorem runFrom (l : Lockstep Bad g s s') {taken fuel : Nat} {log : Log} {r : Report}
    (h : m.runFrom s taken log fuel = some r) (avoids : r.Avoids Bad) :
    (m.mapMemory g).runFrom s' taken log fuel =
      some { r with machine := r.machine.mapMemory g } := by
  induction fuel generalizing taken m log
  case zero => simp [Machine.runFrom] at h
  case succ fuel hi =>
    have hs : (m.mapMemory g).status = m.status := rfl
    by_cases hr : m.status = .runnable
    case neg =>
      obtain rfl := Machine.runFrom_of_stopped hr h
      simp [Machine.runFrom, hs, hr]
    case pos =>
      cases ht : Machine.reached? s taken
      case some =>
        simp only [Machine.runFrom, hs, hr, if_true, l.reached?, ht] at h ⊢
        obtain rfl : _ = r := by simpa using h
        rfl
      case none =>
        have good : ∀ c, m.next s.isStrict = .error c → ¬Bad c :=
          fun c hn hb => not_avoids hn hb hr ht h avoids
        simp only [Machine.runFrom, hs, hr, if_true, l.reached?, ht, l.step good] at h ⊢
        split at h
        case h_1 hn => simpa only [hn] using hi h
        case h_2 hn =>
          obtain rfl : _ = r := by simpa using h
          rfl

end Lockstep
end Intcode
