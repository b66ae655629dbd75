import Mathlib
import Intcode.Proofs.Assembly.Grammar
import Intcode.Proofs.Assembly.Layout
import Intcode.Proofs.InstructionTable

namespace Intcode

def Machine.outOfMemory (m : Machine) (a : Int) : Machine :=
  { m with
    fault  := some ⟨.address a m.memory.size, some m.pc⟩
    status := .faulted
    steps  := m.steps + 1 }

namespace Assembly

namespace Operand

variable (place : String → Int)

def address (o : Operand) : Int :=
  o.target.word place

def value (memory : Memory) (o : Operand) : Int :=
  if o.mode = Mode.immediate then o.address place else memory.get (o.address place)

def reads (o : Operand) : List Int :=
  if o.mode = Mode.immediate then [] else [o.address place]

end Operand

def meaning (place : String → Int) (next : Int) (m : Machine) : Opcode → List Operand → Machine
  | .add,         [a, b, dst] => stored dst (value a + value b)
  | .mul,         [a, b, dst] => stored dst (value a * value b)
  | .lessThan,    [a, b, dst] => stored dst (if value a < value b then 1 else 0)
  | .equals,      [a, b, dst] => stored dst (if value a = value b then 1 else 0)
  | .input,       [dst]       =>
    match m.inputs with
    | []      => { m with status := .waiting }
    | v :: vs => { stored dst v with inputs := vs }
  | .output,      [a]         => { passed with outputs := m.outputs.push (value a) }
  | .jumpIfTrue,  [a, target] => if value a ≠ 0 then { passed with pc := value target } else passed
  | .jumpIfFalse, [a, target] => if value a = 0 then { passed with pc := value target } else passed
  | .halt,        []          => { m with status := .halted, steps := m.steps + 1 }
  | _,            _           => m
where
  value (o : Operand) : Int :=
    o.value place m.memory
  passed : Machine :=
    { m with pc := next, steps := m.steps + 1 }
  stored (dst : Operand) (v : Int) : Machine :=
    { passed with memory := m.memory.set (dst.address place) v }

-- The addresses that an instruction has to read from or to write to, in this order.
def accesses (place : String → Int) (m : Machine) : Opcode → List Operand → List Int
  | .add, [a, b, dst] | .mul, [a, b, dst] | .lessThan, [a, b, dst] | .equals, [a, b, dst] =>
    a.reads place ++ b.reads place ++ [dst.address place]
  | .input, [dst] => if m.inputs = [] then [] else [dst.address place]
  | .output, [a] => a.reads place
  | .jumpIfTrue, [a, target] =>
    a.reads place ++ if a.value place m.memory ≠ 0 then target.reads place else []
  | .jumpIfFalse, [a, target] =>
    a.reads place ++ if a.value place m.memory = 0 then target.reads place else []
  | _, _ => []

def modeDigit (op : Opcode) (os : List Operand) (n : Nat) : Int :=
  if op.writeTarget? = some n then 0 else (os[n - 1]?.map (·.mode)).getD 0

theorem instructionWord_eq {op : Opcode} {os : List Operand} (h : os.length = op.arity) :
    instructionWord op os = op.code + modeDigit op os 1 * 100 + modeDigit op os 2 * 1000 := by
  cases op
  case halt =>
    obtain rfl := List.length_eq_zero_iff.mp h
    rfl
  case input | output =>
    obtain ⟨a, rfl⟩ := List.length_eq_one_iff.mp h
    simp [instructionWord, instructionWord.digit, modeDigit, Opcode.writeTarget?]
  case jumpIfTrue | jumpIfFalse =>
    obtain ⟨a, b, rfl⟩ := List.length_eq_two.mp h
    simp [instructionWord, instructionWord.digit, modeDigit, Opcode.writeTarget?, Int.add_assoc]
  all_goals
    obtain ⟨a, b, dst, rfl⟩ := List.length_eq_three.mp h
    simp [instructionWord, instructionWord.digit, modeDigit, Opcode.writeTarget?, Int.add_assoc]

theorem modeDigit_bounds (op : Opcode) {os : List Operand} (h : ∀ o ∈ os, o.WellFormed) (n : Nat) :
    0 ≤ modeDigit op os n ∧ modeDigit op os n < 10 := by
  unfold modeDigit
  split
  case isTrue => decide
  case isFalse =>
    cases ho : os[n - 1]?
    case none => decide
    case some o =>
      cases (h o (List.mem_of_getElem? ho)).mode
      all_goals simp_all [Mode.positional, Mode.immediate]

theorem instructionWord_mod {op : Opcode} {os : List Operand}
    (h : (Statement.instruction op os).WellFormed) : instructionWord op os % 100 = op.code := by
  have ⟨_, _⟩ := op.code_bounds
  rw [instructionWord_eq h.left]
  omega

theorem instructionWord_nonneg {op : Opcode} {os : List Operand}
    (h : (Statement.instruction op os).WellFormed) : 0 ≤ instructionWord op os := by
  have ⟨_, _⟩ := op.code_bounds
  have ⟨_, _⟩ := modeDigit_bounds op h.right 1
  have ⟨_, _⟩ := modeDigit_bounds op h.right 2
  rw [instructionWord_eq h.left]
  omega

theorem writable_instructionWord {op : Opcode} {os : List Operand}
    (h : (Statement.instruction op os).WellFormed) : Decimal.Writable (instructionWord op os) := by
  have ⟨_, _⟩ := op.code_bounds
  have ⟨_, _⟩ := modeDigit_bounds op h.right 1
  have ⟨_, _⟩ := modeDigit_bounds op h.right 2
  have hp : 10000 ≤ Decimal.powerOfTen Decimal.limit := Decimal.powerOfTen_le (by decide : 4 ≤ _)
  rw [Decimal.writable_iff_lt, instructionWord_eq h.left]
  omega

structure Loaded (place : String → Int) (m : Machine) (op : Opcode) (os : List Operand) : Prop where
  wellFormed : (Statement.instruction op os).WellFormed
  valid      : ∀ k ≤ os.length, m.memory.Valid (m.pc + k)
  word       : m.word 0 = instructionWord op os
  parameter  : ∀ {k : Nat} {o : Operand}, os[k]? = some o → m.word (k + 1) = o.address place

namespace Loaded

variable {place : String → Int} {m : Machine} {op : Opcode} {os : List Operand}
variable {o : Operand} {k : Nat}

theorem opcode? (h : Loaded place m op os) : m.opcode? = some op := by
  rw [Machine.opcode?, h.word, instructionWord_mod h.wellFormed, Opcode.ofCode?_code]

theorem index_lt_two (h : Loaded place m op os) (ho : os[k]? = some o)
    (hr : op.writeTarget? ≠ some (k + 1)) : k < 2 := by
  have hk : k < op.arity := h.wellFormed.left ▸ (List.getElem?_eq_some_iff.mp ho).fst
  cases op <;> simp [Opcode.writeTarget?, Opcode.arity] at hr hk <;> omega

theorem mode (h : Loaded place m op os) (ho : os[k]? = some o)
    (hr : op.writeTarget? ≠ some (k + 1)) : m.mode (k + 1) = o.mode := by
  have hc := op.code_bounds
  have hd : modeDigit op os (k + 1) = o.mode := by simp [modeDigit, hr, ho]
  have h₁ := modeDigit_bounds op h.wellFormed.right 1
  have h₂ := modeDigit_bounds op h.wellFormed.right 2
  have hk := h.index_lt_two ho hr
  rw [←hd, Machine.mode, h.word, instructionWord_eq h.wellFormed.left]
  obtain rfl | rfl : k = 0 ∨ k = 1 := by omega
  all_goals
    simp only [Decimal.powerOfTen, Nat.zero_add, Nat.reduceAdd, Nat.pow_eq, Nat.reducePow]
    omega

theorem operand (h : Loaded place m op os) (ho : os[k]? = some o)
    (hr : op.writeTarget? ≠ some (k + 1)) : m.operand (k + 1) = o.value place m.memory := by
  rw [Machine.operand, h.mode ho hr, h.parameter ho]
  rfl

theorem offense?_parameter (h : Loaded place m op os) (ho : os[k]? = some o) :
    m.memory.offense? [.cell (m.pc + (k + 1 : Nat))] = none :=
  Memory.offense?_eq_none_iff.mpr <| List.forall_mem_singleton.mpr <|
    h.valid (k + 1) (List.getElem?_eq_some_iff.mp ho).fst

theorem offense?_reading (h : Loaded place m op os) (strict : Bool) (ho : os[k]? = some o)
    (hr : op.writeTarget? ≠ some (k + 1)) :
    m.memory.offense? (m.reading strict (k + 1)) =
      (m.memory.outside? (o.reads place)).map .cell := by
  have hm : (Check.mode o.mode).Passes m.memory :=
    (h.wellFormed.right o (List.mem_of_getElem? ho)).mode
  have known : m.memory.offense? (if strict then [.mode o.mode] else []) = none := by
    rw [Memory.offense?_eq_none_iff]
    cases strict <;> simp [hm]
  rw [Machine.reading, h.mode ho hr, h.parameter ho, Memory.offense?_append, Memory.offense?_append,
    h.offense?_parameter ho, known, Option.none_or, Option.none_or, ←Memory.offense?_map_cell,
    Operand.reads, Mode.immediate]
  split <;> rfl

theorem offense?_writing (h : Loaded place m op os) (ho : os[k]? = some o) :
    m.memory.offense? (m.writing (k + 1)) =
      (m.memory.outside? [o.address place]).map .cell := by
  have hw : m.writing (k + 1) = [.cell (m.pc + (k + 1 : Nat))] ++ [.cell (m.word (k + 1))] := rfl
  rw [hw, h.parameter ho, Memory.offense?_append, h.offense?_parameter ho, Option.none_or,
    ←Memory.offense?_map_cell]
  rfl

-- The checks of an assembled instruction can only fail where it has to go to an address.
theorem offense?_eq (h : Loaded place m op os) (strict : Bool) :
    m.offense? strict = (m.memory.outside? (accesses place m op os)).map .cell := by
  have hv : m.memory.Valid m.pc := by simpa using h.valid 0 (Nat.zero_le _)
  rw [Machine.offense?_eq h.opcode? hv (h.word ▸ instructionWord_nonneg h.wellFormed)]
  have hl := h.wellFormed.left
  cases op
  case halt => rfl
  case output =>
    obtain ⟨a, rfl⟩ := List.length_eq_one_iff.mp hl
    exact h.offense?_reading strict rfl (by decide)
  case input =>
    obtain ⟨dst, rfl⟩ := List.length_eq_one_iff.mp hl
    simp only [Machine.parameterChecks, accesses]
    split
    case isTrue  => rfl
    case isFalse => exact h.offense?_writing rfl
  case jumpIfTrue | jumpIfFalse =>
    obtain ⟨a, target, rfl⟩ := List.length_eq_two.mp hl
    have ha : m.operand 1 = a.value place m.memory := h.operand rfl (by decide)
    have h₁ := h.offense?_reading strict (k := 0) rfl (by decide)
    have h₂ := h.offense?_reading strict (k := 1) rfl (by decide)
    simp only [Machine.parameterChecks, accesses, Memory.offense?_append, Memory.outside?_append,
      Option.map_or, h₁, ha]
    split
    case isTrue  => rw [h₂]
    case isFalse => rfl
  all_goals
    obtain ⟨a, b, dst, rfl⟩ := List.length_eq_three.mp hl
    have h₁ := h.offense?_reading strict (k := 0) rfl (by decide)
    have h₂ := h.offense?_reading strict (k := 1) rfl (by decide)
    have h₃ := h.offense?_writing (k := 2) rfl
    simp only [Machine.parameterChecks, accesses, Memory.offense?_append, Memory.outside?_append,
      Option.map_or, h₁, h₂, h₃]

theorem follow_row (h : Loaded place m op os) (hr : m.status = .runnable) :
    m.follow (m.row op) = meaning place (m.pc + op.size) m op os := by
  have hl := h.wellFormed.left
  cases op
  case halt =>
    obtain rfl := List.length_eq_zero_iff.mp hl
    simp [Machine.follow, Machine.row, meaning]
  case output =>
    obtain ⟨a, rfl⟩ := List.length_eq_one_iff.mp hl
    have ha : m.operand 1 = a.value place m.memory := h.operand rfl (by decide)
    simp [Machine.follow, Machine.row, meaning, meaning.passed, meaning.value, hr, ha, Opcode.size,
      Opcode.arity]
  case input =>
    obtain ⟨dst, rfl⟩ := List.length_eq_one_iff.mp hl
    have hd : m.word 1 = dst.address place := h.parameter rfl
    cases hi : m.inputs <;>
      simp [Machine.follow, Machine.row, meaning, meaning.stored, meaning.passed, hr, hi, hd,
        Opcode.size, Opcode.arity]
  case jumpIfTrue | jumpIfFalse =>
    obtain ⟨a, target, rfl⟩ := List.length_eq_two.mp hl
    have ha : m.operand 1 = a.value place m.memory := h.operand rfl (by decide)
    have hb : m.operand 2 = target.value place m.memory := h.operand rfl (by decide)
    by_cases hz : a.value place m.memory = 0 <;>
      simp [Machine.follow, Machine.row, meaning, meaning.passed, meaning.value, hr, ha, hb, hz,
        Opcode.size, Opcode.arity]
  all_goals
    obtain ⟨a, b, dst, rfl⟩ := List.length_eq_three.mp hl
    have ha : m.operand 1 = a.value place m.memory := h.operand rfl (by decide)
    have hb : m.operand 2 = b.value place m.memory := h.operand rfl (by decide)
    have hd : m.word 3 = dst.address place := h.parameter rfl
    simp only [Machine.follow, Machine.row, meaning, meaning.stored, meaning.passed, meaning.value,
      hr, ha, hb, hd]
    rfl

variable {settings : Settings}

theorem step_of_valid (h : Loaded place m op os) (hr : m.status = .runnable)
    (ht : settings.isTraced = false) (hv : ∀ a ∈ accesses place m op os, m.memory.Valid a) :
    ∃ log, m.step settings = ⟨meaning place (m.pc + op.size) m op os, log, none⟩ := by
  have ho : m.offense? settings.isStrict = none := by
    rw [h.offense?_eq, Memory.outside?_eq_none_iff.mpr hv, Option.map_none]
  have ⟨_, log, hop, hs⟩ := Machine.step_of_no_offense ht ho
  obtain rfl := Option.some.inj (h.opcode?.symm.trans hop)
  exact ⟨log, h.follow_row hr ▸ hs⟩

-- The first address outside of the memory is what the machine stops on, unless that cannot be put
-- into words.
theorem step_of_outside {a : Int} (h : Loaded place m op os)
    (ho : m.memory.outside? (accesses place m op os) = some a) :
    (∃ log, m.step settings = ⟨m.outOfMemory a, log, none⟩) ∨
      m.step settings = ⟨m, #[], some (.overlong .writing)⟩ ∧
        ¬(Decimal.Writable a ∧ Decimal.Writable m.memory.size ∧ Decimal.Writable m.pc) := by
  have hc : m.offense? settings.isStrict = some (.cell a) := by
    rw [h.offense?_eq, ho, Option.map_some]
  obtain ⟨-, hw⟩ | ⟨hw, n, hm, hl⟩ := Fault.text_cases ⟨.address a m.memory.size, some m.pc⟩
  case inl => exact .inl (Machine.records_of_offense hc hw).step_eq
  case inr =>
    refine .inr ⟨Machine.step_of_wordless (Machine.next_of_offense hc) hw, ?_⟩
    rintro ⟨ha, hs, hp⟩
    obtain rfl | rfl | rfl : n = a ∨ n = m.memory.size ∨ n = m.pc := by
      simpa [Fault.numbers, Fault.Cause.numbers] using hm
    all_goals contradiction

end Loaded

variable {ms : List Module} {ss before after : List Statement} {ws : List Int}
variable {place : String → Int} {next : Int} {m : Machine} {op : Opcode} {os : List Operand}

theorem Operand.eq_address_of_mem_reads {o : Operand} {a : Int} (h : a ∈ o.reads place) :
    a = o.address place := by
  unfold reads at h
  split at h <;> simp_all

theorem exists_of_mem_accesses {a : Int} (h : a ∈ accesses place m op os) :
    ∃ o ∈ os, a = o.address place := by
  unfold accesses at h
  split at h
  case h_1 | h_2 | h_3 | h_4 =>
    simp only [List.mem_append, List.mem_singleton] at h
    obtain (h | h) | h := h
    · exact ⟨_, by simp, Operand.eq_address_of_mem_reads h⟩
    · exact ⟨_, by simp, Operand.eq_address_of_mem_reads h⟩
    · exact ⟨_, by simp, h⟩
  case h_5 =>
    split at h
    · simp at h
    · exact ⟨_, by simp, List.mem_singleton.mp h⟩
  case h_6 => exact ⟨_, by simp, Operand.eq_address_of_mem_reads h⟩
  case h_7 | h_8 =>
    obtain h | h := List.mem_append.mp h
    · exact ⟨_, by simp, Operand.eq_address_of_mem_reads h⟩
    · split at h
      · exact ⟨_, by simp, Operand.eq_address_of_mem_reads h⟩
      · simp at h
  case h_9 => simp at h

theorem meaning_fault : (meaning place next m op os).fault = m.fault := by
  unfold meaning
  split <;> try split
  all_goals rfl

theorem meaning_status (h : m.status = .runnable) :
    (meaning place next m op os).status ≠ .faulted := by
  unfold meaning
  split <;> try split
  all_goals simp [meaning.stored, meaning.passed, h]

theorem wellFormed_of_statements (h : statements ms = .ok ss) : ∀ s ∈ ss, s.WellFormed := by
  induction ms generalizing ss
  case nil =>
    obtain rfl : [] = ss := by simpa [statements] using h
    simp
  case cons m ms hi =>
    rw [statements_cons] at h
    obtain ⟨ss₁, h₁, h⟩ := Result.bind_eq_ok_iff.mp h
    obtain ⟨ss₂, h₂, h⟩ := Result.bind_eq_ok_iff.mp h
    obtain rfl := Except.ok.inj h
    rw [List.forall_mem_append]
    exact ⟨m.wellFormed_of_parse h₁, hi h₂⟩

theorem Statement.WellFormed.size_eq (h : (instruction op os).WellFormed) :
    (instruction op os).size = op.size := by
  simp [size, Opcode.size, h.left]

theorem loaded_of_image (hw : (Statement.instruction op os).WellFormed)
    (hs : ss = before ++ .instruction op os :: after) (hpc : m.pc = totalSize before)
    (hm : ∀ k, totalSize before ≤ k → k < totalSize before + op.size →
      m.memory.cells[k]? = (image ss)[k]?) :
    Loaded (fun name => placeOf ss name) m op os := by
  have hk {k : Nat} {v : Int} (hk : k < op.size)
      (hv : (Statement.words (placeOf ss ·) (.instruction op os))[k]? = some v) :
      m.memory.cells[totalSize before + k]? = some v := by
    have hi := getElem?_flatMap_words (placeOf ss ·) before after (hw.size_eq ▸ hk)
    rw [←hs, hv] at hi
    exact (hm _ (by omega) (by omega)).trans hi
  have hl : op.size = os.length + 1 := congrArg (· + 1) hw.left.symm
  have hword {k : Nat} {v : Int} (hv : m.memory.cells[totalSize before + k]? = some v) :
      m.word k = v := by
    rw [Machine.word, hpc, ←Int.natCast_add]
    exact Memory.get_of_getElem? hv
  constructor
  case wellFormed => exact hw
  case valid =>
    intro k hle
    obtain ⟨v, hv⟩ : ∃ v, (Statement.words (placeOf ss ·) (.instruction op os))[k]? = some v :=
      ⟨_, List.getElem?_eq_getElem (by simp [Statement.words]; omega)⟩
    rw [hpc, ←Int.natCast_add]
    exact Memory.valid_of_getElem? (hk (by omega) hv)
  case word => exact hword (hk (by omega) rfl)
  case parameter =>
    intro k o ho
    have hlt := (List.getElem?_eq_some_iff.mp ho).fst
    exact hword (hk (by omega) (by simp [Statement.words, ho, Operand.address]))

theorem writable_of_lt {n : Nat} (h : n < Decimal.powerOfTen Decimal.limit) :
    Decimal.Writable n := by
  rwa [Decimal.writable_iff_lt, Int.natAbs_natCast]

theorem Operand.WellFormed.writable_address {o : Operand} (h : o.WellFormed)
    (hl : totalSize ss < Decimal.powerOfTen Decimal.limit) :
    Decimal.Writable (o.address fun name => placeOf ss name) := by
  have ⟨mode, target⟩ := o
  cases target
  case constant   => exact h.target
  case label name => exact writable_of_lt <| Nat.lt_of_le_of_lt (placeOf_le_totalSize ss name) hl

theorem Loaded.faulted_iff {settings : Settings} {m' : Machine} {log : Log}
    (h : Loaded place m op os) (hr : m.status = .runnable) (ht : settings.isTraced = false)
    (hstep : m.step settings = ⟨m', log, none⟩) :
    (m'.status = .faulted ↔ ∃ a ∈ accesses place m op os, ¬m.memory.Valid a) ∧
      (m'.fault = m.fault ∨ ∃ a ∈ accesses place m op os, ¬m.memory.Valid a ∧
        m'.fault = some ⟨.address a m.memory.size, some m.pc⟩) := by
  cases ho : m.memory.outside? (accesses place m op os)
  case none =>
    have hv := Memory.outside?_eq_none_iff.mp ho
    have ⟨_, hv'⟩ := h.step_of_valid hr ht hv
    obtain rfl : m' = _ := congrArg Report.machine (hstep.symm.trans hv')
    refine ⟨?_, .inl meaning_fault⟩
    simpa [meaning_status hr] using hv
  case some a =>
    have ⟨ha, hv⟩ := Memory.mem_of_outside?_eq_some ho
    obtain ⟨_, ho'⟩ | ⟨ho', -⟩ := h.step_of_outside ho
    case inl =>
      obtain rfl : m' = _ := congrArg Report.machine (hstep.symm.trans ho')
      exact ⟨iff_of_true rfl ⟨a, ha, hv⟩, .inr ⟨a, ha, hv, rfl⟩⟩
    case inr => simp [ho'] at hstep

-- The numbers of a fault can be written unless the program or the memory is huge.
theorem Loaded.limit_le {a : Int} (h : Loaded (fun name => placeOf ss name) m op os)
    (hpc : m.pc = totalSize before) (hb : totalSize before ≤ totalSize ss)
    (ha : a ∈ accesses (fun name => placeOf ss name) m op os)
    (hl : ¬(Decimal.Writable a ∧ Decimal.Writable m.memory.size ∧ Decimal.Writable m.pc)) :
    Decimal.powerOfTen Decimal.limit ≤ max m.memory.size (totalSize ss) := by
  by_contra hp
  have ⟨hsize, htotal⟩ := Nat.max_lt.mp <| Nat.lt_of_not_le hp
  obtain ⟨o, ho, rfl⟩ := exists_of_mem_accesses ha
  refine hl ⟨?_, writable_of_lt hsize, ?_⟩
  · exact h.wellFormed.right o ho |>.writable_address htotal
  · exact hpc ▸ writable_of_lt (Nat.lt_of_le_of_lt hb htotal)

-- For every source that is assembled, and every machine at the words of one of its instructions: if
-- the addresses that the instruction has to go to are inside of the memory, a step does what the
-- instruction means, and otherwise it stops the machine on the first that is outside. The exception
-- is a fault about a size or a place that has too many digits to be written.
theorem step_assembled {settings : Settings} (ha : (assemble ms).result = .ok ws)
    (hs : statements ms = .ok ss) (he : ss = before ++ .instruction op os :: after)
    (hr : m.status = .runnable) (ht : settings.isTraced = false) (hpc : m.pc = totalSize before)
    (hm : ∀ k, totalSize before ≤ k → k < totalSize before + op.size →
      m.memory.cells[k]? = ws[k]?) :
    let place name := (placeOf ss name : Int)
    let next := totalSize (before ++ [.instruction op os])
    let as := accesses place m op os
    ((∀ a ∈ as, m.memory.Valid a) →
      ∃ log, m.step settings = ⟨meaning place next m op os, log, none⟩) ∧
    (∀ a, m.memory.outside? as = some a →
      (∃ log, m.step settings = ⟨m.outOfMemory a, log, none⟩) ∨
        m.step settings = ⟨m, #[], some (.overlong .writing)⟩ ∧
          Decimal.powerOfTen Decimal.limit ≤ max m.memory.size ws.length) ∧
    ∀ m' log, m.step settings = ⟨m', log, none⟩ →
      (m'.status = .faulted ↔ ∃ a ∈ as, ¬m.memory.Valid a) ∧
        (m'.fault = m.fault ∨
          ∃ a ∈ as, ¬m.memory.Valid a ∧ m'.fault = some ⟨.address a m.memory.size, some m.pc⟩) := by
  intro place next as
  obtain rfl := eq_image_of_assemble ha hs
  have hw : (Statement.instruction op os).WellFormed :=
    wellFormed_of_statements hs _ (he ▸ by simp)
  have h := loaded_of_image hw he hpc hm
  have hnext : m.pc + op.size = next := by
    simp [hpc, next, totalSize_append, totalSize, hw.size_eq]
  refine ⟨?_, ?_, ?_⟩
  · exact fun hv => hnext ▸ h.step_of_valid hr ht hv
  · intro a ho
    refine h.step_of_outside ho |>.imp_right <| And.imp_right fun hl => ?_
    have hb : totalSize before ≤ totalSize ss := by simp [he, totalSize_append]
    rw [length_image]
    exact h.limit_le hpc hb (Memory.mem_of_outside?_eq_some ho).left hl
  · exact fun m' log hstep => h.faulted_iff hr ht hstep

-- The loop of a countdown is entered with another number in the cell, and no other words of the
-- program in the memory.
theorem step_assembled_countdown :
    ∃ log, (Machine.ofWords [1001, 8, -1, 8, 0, 0, 0, 0, 5]).step .default =
      ⟨{ Machine.ofWords [1001, 8, -1, 8, 0, 0, 0, 0, 4] with pc := 4, steps := 1 },
        log, none⟩ := by
  let m := Machine.ofWords [1001, 8, -1, 8, 0, 0, 0, 0, 5]
  have hm : ∀ k < 4, m.memory.cells[k]? = [1001, 8, -1, 8, 1005, 8, 0, 99, 3][k]? := by decide
  have h := @step_assembled _ _ [.label "loop"] _ _ m .add _ .default assemble_countdown
    statements_countdown rfl rfl rfl rfl fun k _ hk => hm k hk
  exact h.left (by decide)

end Assembly
end Intcode
