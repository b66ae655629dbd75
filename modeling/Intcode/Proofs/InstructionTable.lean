import Intcode.Proofs.Containment
import Intcode.Proofs.Memory

namespace Intcode

structure Row where
  store  : Option (Int × Int) := none
  taken  : Nat                := 0
  made   : List Int           := []
  pc     : Int
  status : Option Status      := none

namespace Machine

variable {settings : Settings} {m : Machine} {strict : Bool} {op : Opcode} {c : Check}

def word (m : Machine) (n : Nat) : Int :=
  m.memory.get (m.pc + n)

def mode (m : Machine) (n : Nat) : Int :=
  m.word 0 / Decimal.powerOfTen (n + 1) % 10

def operand (m : Machine) (n : Nat) : Int :=
  if m.mode n = 1 then m.word n else m.memory.get (m.word n)

def opcode? (m : Machine) : Option Opcode :=
  Opcode.ofCode? (m.word 0 % 100)

def reading (m : Machine) (strict : Bool) (n : Nat) : List Check :=
  [.cell (m.pc + n)] ++ (if strict then [.mode (m.mode n)] else []) ++
    if m.mode n = 1 then [] else [.cell (m.word n)]

def writing (m : Machine) (n : Nat) : List Check :=
  [.cell (m.pc + n), .cell (m.word n)]

def parameterChecks (m : Machine) (strict : Bool) : Opcode → List Check
  | .add | .mul | .lessThan | .equals => m.reading strict 1 ++ m.reading strict 2 ++ m.writing 3
  | .input       => if m.inputs = [] then [] else m.writing 1
  | .output      => m.reading strict 1
  | .jumpIfTrue  => m.reading strict 1 ++ if m.operand 1 ≠ 0 then m.reading strict 2 else []
  | .jumpIfFalse => m.reading strict 1 ++ if m.operand 1 = 0 then m.reading strict 2 else []
  | .halt        => []

def checks (m : Machine) (strict : Bool) : List Check :=
  [.cell m.pc, .word (m.word 0)] ++ (m.opcode?.map (m.parameterChecks strict)).getD []

-- The table. Nothing in a row depends on what the instruction stores, even if that is a word of the
-- instruction itself.
def row (m : Machine) : Opcode → Row
  | .add         => { store := some (m.word 3, m.operand 1 + m.operand 2), pc := m.pc + 4 }
  | .mul         => { store := some (m.word 3, m.operand 1 * m.operand 2), pc := m.pc + 4 }
  | .input       =>
    match m.inputs with
    | []     => { pc := m.pc, status := some .waiting }
    | v :: _ => { store := some (m.word 1, v), taken := 1, pc := m.pc + 2 }
  | .output      => { made := [m.operand 1], pc := m.pc + 2 }
  | .jumpIfTrue  => { pc := if m.operand 1 ≠ 0 then m.operand 2 else m.pc + 3 }
  | .jumpIfFalse => { pc := if m.operand 1 = 0 then m.operand 2 else m.pc + 3 }
  | .lessThan    =>
    { store := some (m.word 3, if m.operand 1 < m.operand 2 then 1 else 0), pc := m.pc + 4 }
  | .equals      =>
    { store := some (m.word 3, if m.operand 1 = m.operand 2 then 1 else 0), pc := m.pc + 4 }
  | .halt        => { pc := m.pc, status := some .halted }

-- The machine after a row. A machine that waits has not carried out an instruction.
def follow (m : Machine) (r : Row) : Machine where
  memory  := match r.store with
    | some (a, v) => m.memory.set a v
    | none        => m.memory
  pc      := r.pc
  status  := r.status.getD m.status
  steps   := if r.status.getD m.status = .waiting then m.steps else m.steps + 1
  fault   := m.fault
  inputs  := m.inputs.drop r.taken
  outputs := m.outputs ++ r.made

structure Confined (op : Opcode) (m m' : Machine) : Prop where
  size    : m'.memory.size = m.memory.size
  cell    : ∀ a, m.memory.Valid a → m'.memory.get a ≠ m.memory.get a →
    ∃ n, op.writeTarget? = some n ∧ a = m.word n
  inputs  : m'.inputs = m.inputs ∨ m'.inputs = m.inputs.tail ∧ m.inputs ≠ []
  outputs : m'.outputs = m.outputs ∨ ∃ v, m'.outputs = m.outputs.push v
  fault   : m'.fault = m.fault

def instruction (m : Machine) : Instruction :=
  ⟨m.pc, m.word 0 % 100, m.mode 1, m.mode 2⟩

theorem read_operand (m : Machine) (strict : Bool) (n : Nat) :
    (do m.memory.resolve strict (← m.memory.read (m.pc + n)) (m.mode n)) =
      (do m.memory.examine (m.reading strict n); return m.operand n) := by
  simp only [reading, operand, word, Memory.examine_append, Memory.read_eq_examine,
    Memory.resolve_eq_examine, bind_assoc, pure_bind]

theorem operand₁_eq (m : Machine) (strict : Bool) :
    m.instruction.operand₁ m.memory strict =
      (do m.memory.examine (m.reading strict 1); return m.operand 1) :=
  m.read_operand strict 1

theorem operand₂_eq (m : Machine) (strict : Bool) :
    m.instruction.operand₂ m.memory strict =
      (do m.memory.examine (m.reading strict 2); return m.operand 2) :=
  m.read_operand strict 2

theorem destination_eq (m : Machine) (n : Nat) :
    m.instruction.destination m.memory n =
      (do m.memory.examine (m.writing n); return m.word n) := by
  have hw : m.writing n = [.cell (m.pc + n)] ++ [.cell (m.word n)] := rfl
  simp only [hw, Instruction.destination, Instruction.parameter, instruction, word,
    Memory.examine_append, Memory.read_eq_examine, Memory.check_eq_examine, bind_assoc, pure_bind]

theorem combine_eq (m : Machine) (strict : Bool) (f : Int → Int → Int) :
    m.instruction.combine m.memory strict f =
      (do
        m.memory.examine (m.reading strict 1 ++ m.reading strict 2 ++ m.writing 3)
        return .store (m.word 3) (f (m.operand 1) (m.operand 2))) := by
  have hd : m.instruction.destination m.memory 3 = _ := m.destination_eq 3
  simp only [Instruction.combine, operand₁_eq, operand₂_eq, hd, Memory.examine_append, bind_assoc,
    pure_bind]

theorem jumpIf_eq (m : Machine) (strict : Bool) (p : Int → Bool) :
    m.instruction.jumpIf m.memory strict p =
      (do
        m.memory.examine
          (m.reading strict 1 ++ if p (m.operand 1) then m.reading strict 2 else [])
        return if p (m.operand 1) then .jump (m.operand 2) else .pass) := by
  simp only [Instruction.jumpIf, operand₁_eq, operand₂_eq, Memory.examine_append, bind_assoc,
    pure_bind]
  cases p (m.operand 1) <;> simp

theorem count_eq (m : Machine) :
    m.count = { m with steps := if m.status = .waiting then m.steps else m.steps + 1 } := by
  unfold count
  split <;> rfl

-- The effect of an instruction is its row, and all of its checks come first.
theorem exists_effect (m : Machine) (strict : Bool) (op : Opcode) :
    ∃ e, m.instruction.effect m.memory strict m.inputs op =
        (do m.memory.examine (m.parameterChecks strict op); return e) ∧
      (m.perform op e).count = m.follow (m.row op) := by
  cases op
  case halt => exact ⟨.halt, rfl, count_eq _⟩
  case output =>
    refine ⟨.emit (m.operand 1), ?_, ?_⟩
    · simp only [Instruction.effect, operand₁_eq, parameterChecks, bind_assoc, pure_bind]
    · exact count_eq _
  case input =>
    cases hi : m.inputs
    case nil =>
      refine ⟨.wait, ?_, ?_⟩
      · simp [Instruction.effect, Instruction.takeInput, parameterChecks, hi]
      · simp [perform, count_eq, follow, row, hi]
    case cons v vs =>
      refine ⟨.take (m.word 1) v, ?_, ?_⟩
      · have hd : m.instruction.destination m.memory 1 = _ := m.destination_eq 1
        simp [Instruction.effect, Instruction.takeInput, hd, parameterChecks, hi]
      · simp [perform, count_eq, follow, row, hi, Opcode.size, Opcode.arity]
  case jumpIfTrue =>
    refine ⟨if m.operand 1 ≠ 0 then .jump (m.operand 2) else .pass, ?_, ?_⟩
    · simp [Instruction.effect, jumpIf_eq, parameterChecks]
    · by_cases ha : m.operand 1 = 0 <;>
        simp [perform, count_eq, follow, row, ha, Opcode.size, Opcode.arity]
  case jumpIfFalse =>
    refine ⟨if m.operand 1 = 0 then .jump (m.operand 2) else .pass, ?_, ?_⟩
    · simp [Instruction.effect, jumpIf_eq, parameterChecks]
    · by_cases ha : m.operand 1 = 0 <;>
        simp [perform, count_eq, follow, row, ha, Opcode.size, Opcode.arity]
  all_goals exact ⟨_, m.combine_eq strict _, count_eq _⟩

theorem fetch_eq (m : Machine) :
    m.fetch =
      (do
        m.memory.examine [.cell m.pc, .word (m.word 0)]
        match m.opcode? with
        | some op => return (op, m.instruction)
        | none    => throw (.opcode (m.word 0))) := by
  have hc : [.cell m.pc, .word (m.word 0)] = [Check.cell m.pc] ++ [.word (m.word 0)] := rfl
  have hw : m.word 0 = m.memory.get m.pc := by simp [word]
  rw [hc, Memory.examine_append, fetch, Memory.read_eq_examine, ←hw]
  simp only [bind_assoc, pure_bind]
  congr 1
  funext _
  by_cases hn : 0 ≤ m.word 0
  case neg =>
    have hp : ¬(Check.word (m.word 0)).Passes m.memory := fun h => hn h.left
    rw [Instruction.decode_of_neg (Int.not_le.mp hn), Memory.examine_of_not_passes hp,
      Result.error_bind, Result.error_bind, Check.cause]
  case pos =>
    rw [Instruction.decode_of_nonneg hn, Result.ok_bind]
    cases ho : m.opcode?
    all_goals rw [opcode?] at ho
    case none =>
      have hp : ¬(Check.word (m.word 0)).Passes m.memory := by simp [Check.Passes, ho]
      simp [ho, Memory.examine_of_not_passes hp, Check.cause]
    case some op =>
      have hp : (Check.word (m.word 0)).Passes m.memory := ⟨hn, by simp [ho]⟩
      simp [ho, Memory.examine_of_passes hp, instruction, mode, Decimal.powerOfTen]

def offense? (m : Machine) (strict : Bool) : Option Check :=
  m.memory.offense? (m.checks strict)

theorem checks_eq (ho : m.opcode? = some op) (strict : Bool) :
    m.checks strict = [.cell m.pc, .word (m.word 0)] ++ m.parameterChecks strict op := by
  rw [checks, ho, Option.map_some, Option.getD_some]

theorem offense?_eq (ho : m.opcode? = some op) (hv : m.memory.Valid m.pc) (hn : 0 ≤ m.word 0)
    (strict : Bool) : m.offense? strict = m.memory.offense? (m.parameterChecks strict op) := by
  have known : (Opcode.ofCode? (m.word 0 % 100)).isSome := Option.isSome_of_eq_some ho
  have passes : ∀ c ∈ [.cell m.pc, .word (m.word 0)], Check.Passes m.memory c := by
    simp [Check.Passes, hv, hn, known]
  rw [offense?, checks_eq ho, Memory.offense?_append, Memory.offense?_eq_none_iff.mpr passes,
    Option.none_or]

theorem next_eq (ho : m.opcode? = some op) (strict : Bool) :
    ∃ e, m.next strict = (do m.memory.examine (m.checks strict); return (op, e)) ∧
      (m.perform op e).count = m.follow (m.row op) := by
  have ⟨e, he, hf⟩ := m.exists_effect strict op
  refine ⟨e, ?_, hf⟩
  simp only [next, fetch_eq, ho, checks_eq ho, Memory.examine_append, he, bind_assoc, pure_bind]

theorem next_of_offense (h : m.offense? strict = some c) :
    m.next strict = .error (c.cause m.memory) := by
  have hc : m.memory.examine (m.checks strict) = .error (c.cause m.memory) := by
    rw [offense?] at h
    rw [Memory.examine, h]
  cases ho : m.opcode?
  case some op =>
    obtain ⟨e, hn, -⟩ := next_eq ho strict
    rw [hn, hc, Result.error_bind]
  case none =>
    -- The word is not one of an instruction, so no parameter is looked at.
    rw [checks, ho, Option.map_none, Option.getD_none, List.append_nil] at hc
    rw [next, fetch_eq, hc, Result.error_bind, Result.error_bind]

theorem passes_of_no_offense (h : m.offense? strict = none) :
    ∀ c ∈ m.checks strict, c.Passes m.memory :=
  Memory.offense?_eq_none_iff.mp h

theorem next_of_no_offense (h : m.offense? strict = none) :
    ∃ op e, m.opcode? = some op ∧ m.next strict = .ok (op, e) ∧
      (m.perform op e).count = m.follow (m.row op) := by
  have ⟨_, known⟩ : (Check.word (m.word 0)).Passes m.memory :=
    passes_of_no_offense h _ (by simp [checks])
  have ⟨op, ho⟩ : ∃ op, m.opcode? = some op := Option.isSome_iff_exists.mp known
  have ⟨e, hn, hf⟩ := next_eq ho strict
  refine ⟨op, e, ho, ?_, hf⟩
  rw [offense?] at h
  rw [hn, Memory.examine, h]
  rfl

theorem store_row {a v : Int} (h : (m.row op).store = some (a, v)) (strict : Bool) :
    (∃ n, op.writeTarget? = some n ∧ a = m.word n) ∧ .cell a ∈ m.parameterChecks strict op := by
  cases op
  case input =>
    cases hi : m.inputs
    case nil => simp [row, hi] at h
    case cons =>
      obtain ⟨rfl, rfl⟩ := by simpa [row, hi] using h
      exact ⟨⟨1, rfl, rfl⟩, by simp [parameterChecks, writing, hi]⟩
  case output | jumpIfTrue | jumpIfFalse | halt => simp [row] at h
  all_goals
    obtain ⟨rfl, rfl⟩ := by simpa [row] using h
    exact ⟨⟨3, rfl, rfl⟩, by simp [parameterChecks, writing]⟩

theorem taken_row (m : Machine) (op : Opcode) :
    (m.row op).taken = 0 ∨ (m.row op).taken = 1 ∧ m.inputs ≠ [] := by
  cases op
  case input => cases hi : m.inputs <;> simp [row, hi]
  all_goals simp [row]

theorem made_row (m : Machine) (op : Opcode) :
    (m.row op).made = [] ∨ ∃ v, (m.row op).made = [v] := by
  cases op
  case input => cases hi : m.inputs <;> simp [row, hi]
  all_goals simp [row]

theorem follow_confined (h : ∀ c ∈ m.parameterChecks strict op, c.Passes m.memory) :
    Confined op m (m.follow (m.row op)) where
  fault   := rfl
  size    := by
    simp only [follow]
    split <;> simp
  cell    := by
    intro a ha hne
    simp only [follow] at hne
    split at hne
    case h_2 => exact absurd rfl hne
    case h_1 b v hs =>
      have ⟨⟨n, hn, hb⟩, hc⟩ := store_row hs strict
      have valid : m.memory.Valid b := h _ hc
      refine ⟨n, hn, ?_⟩
      by_contra hab
      exact hne (Memory.get_set_of_ne valid.left ha.left (fun e => hab (e ▸ hb)) v)
  inputs  := by
    obtain ht | ⟨ht, hi⟩ := m.taken_row op
    case inl => exact .inl (by simp [follow, ht])
    case inr => exact .inr ⟨by simp [follow, ht], hi⟩
  outputs := by
    obtain hm | ⟨v, hm⟩ := m.made_row op
    case inl => exact .inl (by simp [follow, hm])
    case inr => exact .inr ⟨v, by simp [follow, hm]⟩

theorem records_of_offense (h : m.offense? settings.isStrict = some c)
    (hw : ∀ n ∈ Fault.numbers ⟨c.cause m.memory, some m.pc⟩, Decimal.Writable n) :
    m.Records settings ⟨c.cause m.memory, some m.pc⟩ := by
  have hn : { m with fault := none }.next settings.isStrict = .error (c.cause m.memory) :=
    next_of_offense h
  obtain ⟨⟨text, ht⟩, -⟩ | ⟨-, n, hm, hl⟩ := Fault.text_cases ⟨c.cause m.memory, some m.pc⟩
  case inr => exact absurd (hw n hm) hl
  case inl =>
    have ⟨log, hs⟩ := step_returns_iff.mpr (.stop hn ht fun _ => Fault.writable_of_text ht)
    rw [Records, hs, count_fault]
    rfl

theorem Records.exists_offense {f : Fault} (h : m.Records settings f) :
    ∃ c, m.offense? settings.isStrict = some c := by
  obtain ⟨cause, _, hn, -, -⟩ := h.stops
  by_contra hc
  obtain ⟨_, _, -, ho, -⟩ := next_of_no_offense (Option.eq_none_iff_forall_ne_some.mpr
    fun c h => hc ⟨c, h⟩)
  simp [ho] at hn

theorem step_of_no_offense (ht : settings.isTraced = false)
    (h : m.offense? settings.isStrict = none) :
    ∃ op log, m.opcode? = some op ∧ m.step settings = ⟨m.follow (m.row op), log, none⟩ := by
  have ⟨op, e, ho, hn, hf⟩ := next_of_no_offense h
  have hs : (m.perform op e).Showable settings := fun h => by simp [ht] at h
  have ⟨log, he⟩ := step_returns_iff.mpr (.perform hn hs)
  exact ⟨op, log, ho, hf ▸ he⟩

-- For every machine that is not traced, unless its fault has an integer that is too long to be
-- written: it stops exactly if one of its checks does not pass, on the first of those that do not,
-- and otherwise it is left as its row says.
theorem step_follows_table (settings : Settings) (m : Machine) (ht : settings.isTraced = false)
    (hw : ∀ c, m.offense? settings.isStrict = some c →
      ∀ n ∈ Fault.numbers ⟨c.cause m.memory, some m.pc⟩, Decimal.Writable n) :
    ((∃ f, m.Records settings f) ↔ ∃ c ∈ m.checks settings.isStrict, ¬c.Passes m.memory) ∧
    (∀ c, m.offense? settings.isStrict = some c →
      ∃ log, m.step settings =
        ⟨{ m with
            status := .faulted
            steps  := m.steps + 1
            fault  := some ⟨c.cause m.memory, some m.pc⟩ }, log, none⟩) ∧
    (m.offense? settings.isStrict = none →
      ∃ op log, m.opcode? = some op ∧
        m.step settings = ⟨m.follow (m.row op), log, none⟩ ∧
        Confined op m (m.follow (m.row op))) := by
  refine ⟨?faults, ?stops, ?follows⟩
  case faults =>
    rw [←Memory.offense?_isSome_iff]
    constructor
    case mp  => exact fun ⟨_, h⟩ => h.exists_offense
    case mpr => exact fun ⟨c, h⟩ => ⟨_, records_of_offense h (hw c h)⟩
  case stops =>
    intro c h
    exact (records_of_offense h (hw c h)).step_eq
  case follows =>
    intro h
    have ⟨op, log, ho, hs⟩ := step_of_no_offense ht h
    have hp : ∀ c ∈ m.parameterChecks settings.isStrict op, c.Passes m.memory :=
      fun c hc => passes_of_no_offense h c (by simp [checks, ho, hc])
    exact ⟨op, log, ho, hs, follow_confined hp⟩

-- An unknown mode is found before the address outside that it would have led to; a jump that is not
-- taken has no use for a target that is not there; and an instruction that overwrites its own word
-- is as long as it was.
theorem step_follows_table_edges :
    (∃ log, (ofWords [1201, 9, 9, 9]).step .default =
      ⟨{ ofWords [1201, 9, 9, 9] with
          status := .faulted
          steps  := 1
          fault  := some ⟨.mode 2, some 0⟩ }, log, none⟩) ∧
    (∃ log, (ofWords [105, 0]).step .default =
      ⟨{ ofWords [105, 0] with pc := 3, steps := 1 }, log, none⟩) ∧
    (∃ log, (ofWords [1101, 20, 22, 0]).step .default =
      ⟨{ ofWords [42, 20, 22, 0] with pc := 4, steps := 1 }, log, none⟩) := by
  refine ⟨?mode, ?jump, ?overwrite⟩
  case mode =>
    have ho : (ofWords [1201, 9, 9, 9]).offense? true = some (.mode 2) := by decide
    have hw : ∀ n ∈ Fault.numbers ⟨.mode 2, some 0⟩, Decimal.Writable n := by decide
    obtain ⟨-, stops, -⟩ := step_follows_table .default (ofWords [1201, 9, 9, 9]) rfl
      fun c hc => Option.some.inj (ho.symm.trans hc) ▸ hw
    exact stops _ ho
  case jump =>
    have ho : (ofWords [105, 0]).offense? true = none := by decide
    obtain ⟨-, -, follows⟩ := step_follows_table .default (ofWords [105, 0]) rfl
      fun _ hc => nomatch ho.symm.trans hc
    obtain ⟨op, log, hop, hs, -⟩ := follows ho
    obtain rfl : .jumpIfTrue = op := Option.some.inj hop
    exact ⟨log, hs⟩
  case overwrite =>
    have ho : (ofWords [1101, 20, 22, 0]).offense? true = none := by decide
    obtain ⟨-, -, follows⟩ := step_follows_table .default (ofWords [1101, 20, 22, 0]) rfl
      fun _ hc => nomatch ho.symm.trans hc
    obtain ⟨op, log, hop, hs, -⟩ := follows ho
    obtain rfl : .add = op := Option.some.inj hop
    exact ⟨log, hs⟩

end Machine
end Intcode
