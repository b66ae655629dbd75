import Intcode.Machine.Run
import Intcode.Proofs.Result

namespace Intcode

namespace InPlace

inductive Raised where
  | fault (fault : Fault)
  | interruption (interruption : Interruption)

structure Running where
  machine : Machine
  log : Log

abbrev Action := EStateM Raised Running

variable {α β : Type}

-- The message of a fault is put together when the fault is raised.
def raise (cause : Fault.Cause) (pc : Option Int) : Action α :=
  match cause.message with
  | .ok _    => throw (.fault ⟨cause, pc⟩)
  | .error e => throw (.interruption (.overlong e))

def note (r : Record) : Action Unit :=
  modify fun s => { s with log := s.log.push r }

def change (f : Machine → Machine) : Action Unit :=
  modify fun s => { s with machine := f s.machine }

def machine : Action Machine :=
  return (← get).machine

def check (a : Int) : Action Unit := do
  let memory := (← machine).memory
  if a < 0 ∨ memory.size ≤ a then raise (.address a memory.size) none

def load (a : Int) : Action Int := do
  check a
  return (← machine).memory.get a

def store (a v : Int) : Action Unit := do
  check a
  change fun m => { m with memory := m.memory.set a v }

def popInput : Action Int := do
  let vs := (← machine).inputs
  change fun m => { m with inputs := vs.tail }
  return vs.headD 0

def decode (address word : Int) : Action Instruction := do
  if word < 0 then raise (.opcode word) (some address)
  return ⟨address, word % 100, word / 100 % 10, word / 1000 % 10⟩

variable (strict : Bool) (i : Instruction)

def parameter (n : Int) : Action Int :=
  load (i.address + n)

def resolve (raw mode : Int) : Action Int := do
  if mode = Mode.immediate then return raw
  if mode ≠ Mode.positional ∧ strict then raise (.mode mode) (some (← machine).pc)
  load raw

def read (n mode : Int) : Action Int := do
  resolve strict (← parameter i n) mode

def write (n v : Int) : Action Unit := do
  store (← parameter i n) v

def combine (op : Opcode) (f : Int → Int → Int) : Action Int := do
  let a ← read strict i 1 i.mode₁
  let b ← read strict i 2 i.mode₂
  write i 3 (f a b)
  return i.address + op.size

def jumpIf (op : Opcode) (condition : Int → Bool) : Action Int := do
  if condition (← read strict i 1 i.mode₁) then read strict i 2 i.mode₂
  else return i.address + op.size

def input : Action Int := do
  if (← machine).inputs = [] then
    note (.debug ("Waiting for input at " ++ Decimal.text i.address))
    change fun m => { m with status := .waiting }
    return i.address
  let a ← parameter i 1
  check a
  store a (← popInput)
  return i.address + Opcode.input.size

def output : Action Int := do
  let v ← read strict i 1 i.mode₁
  change fun m => { m with outputs := m.outputs.push v }
  return i.address + Opcode.output.size

def halt : Action Int := do
  note (.debug ("Halted at " ++ Decimal.text i.address))
  change fun m => { m with status := .halted }
  return i.address

def handle : Opcode → Action Int
  | .add         => combine strict i .add (· + ·)
  | .mul         => combine strict i .mul (· * ·)
  | .input       => input i
  | .output      => output strict i
  | .jumpIfTrue  => jumpIf strict i .jumpIfTrue (· != 0)
  | .jumpIfFalse => jumpIf strict i .jumpIfFalse (· == 0)
  | .lessThan    => combine strict i .lessThan fun a b => if a < b then 1 else 0
  | .equals      => combine strict i .equals fun a b => if a = b then 1 else 0
  | .halt        => halt i

def proceed (next : Int) : Action Unit :=
  change fun m => { m with pc := next }

def dispatch : Action Unit := do
  let pc := (← machine).pc
  let i ← decode pc (← load pc)
  match Opcode.ofCode? i.opcode with
  | none    => raise (.opcode (← load pc)) (some pc)
  | some op => proceed (← handle strict i op)

def record (f : Fault) : Action Unit := do
  let f := { f with pc := f.pc.or (some (← machine).pc) }
  match f.text with
  | .error e => throw (.interruption (.overlong e))
  | .ok text =>
    note (.debug ("Fault: " ++ text))
    change fun m => { m with fault := some f, status := .faulted }

def describe : Action Unit := do
  match (← machine).describe with
  | .error e => throw (.interruption (.overlong e))
  | .ok r    => note r

def rescue : Raised → Action Unit
  | .fault f => record f
  | x        => throw x

def count : Action Unit := do
  if (← machine).status ≠ .waiting then change fun m => { m with steps := m.steps + 1 }

def conclude (settings : Settings) : Action Unit := do
  count
  if settings.isTraced then describe

def step (settings : Settings) : Action Unit := do
  tryCatch (dispatch settings.isStrict) rescue
  conclude settings

def checkLimit (settings : Settings) (taken : Nat) : Action Unit :=
  match settings.stepLimit with
  | none   => return
  | some l => if l.bound ≤ taken then throw (.interruption (.stepLimit l)) else return

-- Tells whether the run has come to its end with the fuel that it was given.
def run (settings : Settings) (taken : Nat) : Nat → Action Bool
  | 0 => return false
  | fuel + 1 => do
    if (← machine).status ≠ .runnable then return true
    checkLimit settings taken
    step settings
    run settings (taken + 1) fuel

def resume (settings : Settings) (fuel : Nat) : Action Bool := do
  let m ← machine
  if m.status = .halted ∨ m.status = .faulted then
    note (.debug ("Resume ignored, machine is " ++ m.status.name))
    return true
  change fun m => { m with status := .runnable }
  run settings 0 fuel

-- Addresses are checked by the memory, which knows no program counter.
def pcOf (pc : Int) : Fault.Cause → Option Int
  | .address .. => none
  | _           => some pc

def raised (pc : Int) (cause : Fault.Cause) : Raised :=
  match cause.message with
  | .ok _    => .fault ⟨cause, pcOf pc cause⟩
  | .error e => .interruption (.overlong e)

namespace Running

def andThen (s : Running) (p : Except Fault.Cause α) (k : α → EStateM.Result Raised Running β) :
    EStateM.Result Raised Running β :=
  match p with
  | .ok a        => k a
  | .error cause => .error (raised s.machine.pc cause) s

def found (s : Running) (p : Except Fault.Cause α) : EStateM.Result Raised Running α :=
  s.andThen p (.ok · s)

theorem andThen_bind {γ : Type} (s : Running) (p : Except Fault.Cause α)
    (q : α → Except Fault.Cause β) (k : β → EStateM.Result Raised Running γ) :
    s.andThen (p >>= q) k = s.andThen p fun a => s.andThen (q a) k := by
  cases p <;> rfl

end Running

def ending (log : Log) (r : Report) : EStateM.Result Raised Running Unit :=
  match r.interruption with
  | none   => .ok () ⟨r.machine, log ++ r.log⟩
  | some c => .error (.interruption c) ⟨r.machine, log ++ r.log⟩

variable {γ : Type} {s : Running} {strict : Bool} {i : Instruction}

theorem run_bind_of_andThen {x : Action α} {p : Except Fault.Cause β}
    {k : β → EStateM.Result Raised Running α} (h : x.run s = s.andThen p k)
    (f : α → Action γ) :
    (x >>= f).run s = s.andThen p fun b =>
      match k b with
      | .ok a s'    => (f a).run s'
      | .error e s' => .error e s' := by
  rw [EStateM.run_bind, h]
  cases p
  case error => rfl
  case ok b  => simp only [Running.andThen]; cases k b <;> rfl

theorem run_bind_of_found {x : Action α} {p : Except Fault.Cause α} (h : x.run s = s.found p)
    (f : α → Action β) : (x >>= f).run s = s.andThen p fun a => (f a).run s :=
  run_bind_of_andThen h f

theorem run_bind_andThen {x : Action α} {f : α → Action γ} {p : Except Fault.Cause α}
    {q : α → Except Fault.Cause β} {k : β → EStateM.Result Raised Running γ}
    (hx : x.run s = s.found p) (hf : ∀ a, p = .ok a → (f a).run s = s.andThen (q a) k) :
    (x >>= f).run s = s.andThen (p >>= q) k := by
  rw [run_bind_of_found hx]
  cases p
  case error => rfl
  case ok a  => exact hf a rfl

theorem run_machine_bind (f : Machine → Action α) (s : Running) :
    (machine >>= f).run s = (f s.machine).run s :=
  rfl

theorem raise_run {cause : Fault.Cause} {pc : Option Int} (h : pc = pcOf s.machine.pc cause) :
    (raise cause pc : Action α).run s = s.found (.error cause) := by
  rw [raise, Running.found, Running.andThen, raised, h]
  cases cause.message <;> rfl

theorem raise_bind_run {cause : Fault.Cause} {pc : Option Int} {f : α → Action β}
    (h : pc = pcOf s.machine.pc cause) : (raise cause pc >>= f).run s = s.found (.error cause) := by
  rw [run_bind_of_found (raise_run h)]
  rfl

theorem check_run (a : Int) (s : Running) :
    (check a).run s = s.found (s.machine.memory.check a) := by
  rw [check, run_machine_bind]
  dsimp only
  by_cases h : s.machine.memory.Valid a
  case pos =>
    have ⟨low, high⟩ := h
    rw [Memory.check_of_valid h, if_neg (by omega)]
    rfl
  case neg =>
    unfold Memory.Valid at h
    rw [Memory.check_of_not_valid h, if_pos (by omega)]
    exact raise_run rfl

theorem load_run (a : Int) (s : Running) : (load a).run s = s.found (s.machine.memory.read a) := by
  rw [load, run_bind_of_found (check_run a s)]
  by_cases h : s.machine.memory.Valid a
  case pos => rw [Memory.check_of_valid h, Memory.read_of_valid h]; rfl
  case neg => rw [Memory.check_of_not_valid h, Memory.read_of_not_valid h]; rfl

theorem store_run (a v : Int) (s : Running) :
    (store a v).run s = s.andThen (s.machine.memory.check a) fun _ =>
      .ok () ⟨{ s.machine with memory := s.machine.memory.set a v }, s.log⟩ := by
  rw [store, run_bind_of_found (check_run a s)]
  rfl

theorem resolve_run (raw mode : Int) (s : Running) :
    (resolve strict raw mode).run s = s.found (s.machine.memory.resolve strict raw mode) := by
  rw [resolve, Memory.resolve]
  split
  case isTrue => rfl
  case isFalse =>
    split
    case isFalse => exact load_run raw s
    case isTrue  => exact raise_bind_run rfl

theorem decode_run (word : Int) (s : Running) :
    (decode s.machine.pc word).run s = s.found (Instruction.decode s.machine.pc word) := by
  rw [decode, Instruction.decode]
  split
  case isTrue  => exact raise_bind_run rfl
  case isFalse => rfl

theorem operand₁_run (i : Instruction) (strict : Bool) (s : Running) :
    (read strict i 1 i.mode₁).run s = s.found (i.operand₁ s.machine.memory strict) :=
  run_bind_andThen (load_run _ s) fun raw _ => resolve_run raw _ s

theorem operand₂_run (i : Instruction) (strict : Bool) (s : Running) :
    (read strict i 2 i.mode₂).run s = s.found (i.operand₂ s.machine.memory strict) :=
  run_bind_andThen (load_run _ s) fun raw _ => resolve_run raw _ s

theorem write_run (i : Instruction) (n v : Int) (s : Running) :
    (write i n v).run s = s.andThen (i.destination s.machine.memory n) fun a =>
      .ok () ⟨{ s.machine with memory := s.machine.memory.set a v }, s.log⟩ := by
  refine run_bind_andThen (load_run _ s) fun a _ => ?_
  rw [store_run, Running.andThen_bind]
  rfl

def outcome (s : Running) (op : Opcode) (e : Effect) :
    EStateM.Result Raised Running Unit :=
  .ok () ⟨s.machine.perform op e, s.log ++ e.records s.machine.pc⟩

theorem combine_run {op : Opcode} (ha : i.address = s.machine.pc) (f : Int → Int → Int) :
    (combine strict i op f >>= proceed).run s =
      s.andThen (i.combine s.machine.memory strict f) (outcome s op) := by
  rw [combine, bind_assoc]
  refine run_bind_andThen (operand₁_run i strict s) fun a _ => ?_
  rw [bind_assoc]
  refine run_bind_andThen (operand₂_run i strict s) fun b _ => ?_
  rw [bind_assoc, run_bind_of_andThen (write_run i 3 (f a b) s), Running.andThen_bind, ha]
  rfl

theorem jumpIf_run {op : Opcode} (ha : i.address = s.machine.pc) (p : Int → Bool) :
    (jumpIf strict i op p >>= proceed).run s =
      s.andThen (i.jumpIf s.machine.memory strict p) (outcome s op) := by
  rw [jumpIf, bind_assoc]
  refine run_bind_andThen (operand₁_run i strict s) fun a _ => ?_
  split
  case isTrue =>
    rw [run_bind_of_found (operand₂_run i strict s), Running.andThen_bind]
    rfl
  case isFalse => rw [ha]; rfl

theorem output_run (ha : i.address = s.machine.pc) :
    (output strict i >>= proceed).run s =
      s.andThen (i.effect s.machine.memory strict s.machine.inputs .output)
        (outcome s .output) := by
  rw [output, bind_assoc]
  refine run_bind_andThen (operand₁_run i strict s) fun a _ => ?_
  rw [ha]
  rfl

theorem halt_run (ha : i.address = s.machine.pc) :
    (halt i >>= proceed).run s = outcome s .halt .halt := by
  rw [halt, ha]
  rfl

-- The address is checked before the input is taken, so the input is not lost if it is outside.
theorem input_run (ha : i.address = s.machine.pc) :
    (input i >>= proceed).run s =
      s.andThen (i.takeInput s.machine.memory s.machine.inputs) (outcome s .input) := by
  rw [input, bind_assoc, run_machine_bind]
  split
  case isTrue hi => rw [hi, ha]; rfl
  case isFalse hi =>
    obtain ⟨v, vs, hv⟩ := List.exists_cons_of_ne_nil hi
    rw [hv, Instruction.takeInput, Instruction.destination, bind_assoc, bind_assoc]
    refine run_bind_andThen (load_run _ s) fun a _ => ?_
    simp only [bind_assoc]
    refine run_bind_andThen (check_run a s) fun _ hc => ?_
    let s' : Running := ⟨{ s.machine with inputs := vs }, s.log⟩
    have hp : popInput.run s = .ok v s' := by
      rw [popInput, run_machine_bind, hv]
      rfl
    have hs := store_run a v s'
    rw [show s'.machine.memory.check a = .ok () from hc] at hs
    rw [EStateM.run_bind, hp]
    dsimp only
    rw [EStateM.run_bind, hs, ha]
    show _ = outcome s .input (.take a v)
    rw [outcome, Machine.perform, hv]
    rfl

theorem handle_run (ha : i.address = s.machine.pc) (op : Opcode) :
    (handle strict i op >>= proceed).run s =
      s.andThen (i.effect s.machine.memory strict s.machine.inputs op) (outcome s op) := by
  cases op
  case input                    => exact input_run ha
  case output                   => exact output_run ha
  case jumpIfTrue | jumpIfFalse => exact jumpIf_run ha _
  case halt                     => exact halt_run ha
  all_goals exact combine_run ha _

theorem address_of_decode {address word : Int} (h : Instruction.decode address word = .ok i) :
    i.address = address := by
  rw [Instruction.decode] at h
  split at h
  case isTrue  => simp at h
  case isFalse => rw [←Except.ok.inj h]

theorem dispatch_run (strict : Bool) (s : Running) :
    (dispatch strict).run s =
      s.andThen (s.machine.next strict) fun (op, e) => outcome s op e := by
  rw [dispatch, run_machine_bind, Machine.next, Machine.fetch]
  simp only [bind_assoc]
  refine run_bind_andThen (load_run _ s) fun word hw => ?_
  refine run_bind_andThen (decode_run word s) fun i hi => ?_
  cases Opcode.ofCode? i.opcode
  case none =>
    rw [run_bind_of_found (load_run _ s), hw]
    exact raise_run rfl
  case some op =>
    dsimp only
    rw [handle_run (address_of_decode hi), pure_bind, Running.andThen_bind]
    rfl

theorem count_run (s : Running) : count.run s = .ok () { s with machine := s.machine.count } := by
  rw [count, run_machine_bind, Machine.count]
  by_cases h : s.machine.status = .waiting
  case pos => rw [if_pos h, if_neg (not_not_intro h)]; rfl
  case neg => rw [if_neg h, if_pos h]; rfl

theorem describe_run (m : Machine) (log log' : Log) :
    describe.run ⟨m, log ++ log'⟩ = ending log (m.trace log') := by
  rw [describe, run_machine_bind, Machine.trace]
  cases m.describe
  case error => rfl
  case ok r  => simp [ending, note]

theorem conclude_run (settings : Settings) (m : Machine) (log log' : Log) :
    (conclude settings).run ⟨m, log ++ log'⟩ = ending log (m.conclude settings log') := by
  rw [conclude, EStateM.run_bind, count_run, Machine.conclude]
  dsimp only
  split
  case isTrue  => exact describe_run m.count log log'
  case isFalse => rfl

-- A fault is caught where it was raised, and nothing was changed up to there.
theorem rescue_run (cause : Fault.Cause) (s : Running) :
    (rescue (raised s.machine.pc cause)).run s =
      match Fault.text ⟨cause, some s.machine.pc⟩ with
      | .ok text => .ok () ⟨s.machine.stopOn ⟨cause, some s.machine.pc⟩,
          s.log.push (.debug ("Fault: " ++ text))⟩
      | .error e => .error (.interruption (.overlong e)) s := by
  rw [raised]
  have hp : (pcOf s.machine.pc cause).or (some s.machine.pc) = some s.machine.pc := by
    cases cause <;> rfl
  cases hm : cause.message
  case error e =>
    have ht : Fault.text ⟨cause, some s.machine.pc⟩ = .error e := by
      rw [Fault.text, Fault.message, hm, Result.error_bind]
    rw [ht]
    rfl
  case ok =>
    dsimp only
    rw [rescue, record, run_machine_bind]
    dsimp only
    rw [hp]
    cases Fault.text ⟨cause, some s.machine.pc⟩ <;> rfl

theorem run_tryCatch (x : Action α) (f : Raised → Action α) (s : Running) :
    (tryCatch x f).run s =
      match x.run s with
      | .ok a s'    => .ok a s'
      | .error e s' => (f e).run s' := by
  show EStateM.tryCatch x f s = _
  unfold EStateM.tryCatch EStateM.run
  cases x s <;> rfl

theorem step_run (settings : Settings) (s : Running) :
    (step settings).run s = ending s.log (s.machine.step settings) := by
  rw [step, EStateM.run_bind, run_tryCatch, dispatch_run, Machine.step]
  cases s.machine.next settings.isStrict
  case ok p => exact conclude_run settings _ s.log _
  case error cause =>
    simp only [Running.andThen, rescue_run]
    cases Fault.text ⟨cause, some s.machine.pc⟩
    case error => simp [ending]
    case ok text => exact conclude_run settings _ s.log #[.debug ("Fault: " ++ text)]

-- What a run reports, and how the same run ends in place.
inductive Ends : Option Report → EStateM.Result Raised Running Bool → Prop
  | unfinished (s : Running) : Ends none (.ok false s)
  | returned (m : Machine) (log : Log) : Ends (some ⟨m, log, none⟩) (.ok true ⟨m, log⟩)
  | interrupted (m : Machine) (log : Log) (c : Interruption) :
    Ends (some ⟨m, log, some c⟩) (.error (.interruption c) ⟨m, log⟩)

theorem checkLimit_run (settings : Settings) (taken : Nat) (s : Running) :
    (checkLimit settings taken).run s =
      match Machine.reached? settings taken with
      | none   => .ok () s
      | some l => .error (.interruption (.stepLimit l)) s := by
  rw [checkLimit, Machine.reached?]
  cases settings.stepLimit
  case none => rfl
  case some l =>
    by_cases hl : l.bound ≤ taken
    case pos => simp only [Option.filter, hl, decide_true, if_true]; rfl
    case neg => simp only [Option.filter, hl, decide_false, if_false]; rfl

theorem run_ends (settings : Settings) (taken : Nat) (m : Machine) (log : Log) (fuel : Nat) :
    Ends (m.runFrom settings taken log fuel) ((run settings taken fuel).run ⟨m, log⟩) := by
  induction fuel generalizing taken m log
  case zero => exact .unfinished _
  case succ fuel hi =>
    rw [run, Machine.runFrom, run_machine_bind]
    by_cases hr : m.status = .runnable
    case neg =>
      rw [if_neg hr, if_pos hr]
      exact .returned m log
    case pos =>
      rw [if_pos hr, if_neg (not_not_intro hr), EStateM.run_bind, checkLimit_run]
      cases Machine.reached? settings taken
      case some l => exact .interrupted m log _
      case none =>
        dsimp only
        rw [EStateM.run_bind, step_run, ending]
        cases (m.step settings).interruption
        case none   => exact hi _ _ _
        case some c => exact .interrupted _ _ c

theorem resume_run (settings : Settings) (fuel : Nat) (s : Running) :
    (resume settings fuel).run s =
      if s.machine.status = .halted ∨ s.machine.status = .faulted then
        .ok true { s with
          log := s.log.push (.debug ("Resume ignored, machine is " ++ s.machine.status.name)) }
      else
        (run settings 0 fuel).run { s with machine := { s.machine with status := .runnable } } := by
  rw [resume, run_machine_bind]
  split <;> rfl

theorem resume_ends (settings : Settings) (m : Machine) (fuel : Nat) :
    Ends (m.resume settings fuel) ((resume settings fuel).run ⟨m, #[]⟩) := by
  rw [resume_run, Machine.resume]
  cases hs : m.status
  case halted | faulted => exact .returned m _
  case runnable | waiting => exact run_ends settings 0 _ #[] fuel

end InPlace
end Intcode
