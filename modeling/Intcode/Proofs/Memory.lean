import Mathlib.Tactic.Common
import Intcode.Instruction
import Intcode.Proofs.Result

namespace Intcode

inductive Check
  | cell (address : Int)
  | word (word : Int)
  | mode (mode : Int)
  deriving DecidableEq

namespace Check

def Passes (memory : Memory) : Check → Prop
  | cell a => memory.Valid a
  | word w => 0 ≤ w ∧ (Opcode.ofCode? (w % 100)).isSome
  | mode d => d = Mode.positional ∨ d = Mode.immediate

instance (memory : Memory) : (c : Check) → Decidable (c.Passes memory)
  | cell _ => inferInstanceAs (Decidable (_ ∧ _))
  | word _ => inferInstanceAs (Decidable (_ ∧ _))
  | mode _ => inferInstanceAs (Decidable (_ ∨ _))

def cause (memory : Memory) : Check → Fault.Cause
  | cell a => .address a memory.size
  | word w => .opcode w
  | mode d => .mode d

end Check

namespace Memory

variable {memory : Memory}

theorem valid_of_getElem? {k : Nat} {v : Int} (h : memory.cells[k]? = some v) : memory.Valid k := by
  have := (Array.getElem?_eq_some_iff.mp h).fst
  simp only [Valid, size]
  omega

theorem get_of_getElem? {k : Nat} {v : Int} (h : memory.cells[k]? = some v) : memory.get k = v := by
  simp [get, Array.getD_eq_getD_getElem?, h]

-- An address inside of a memory can be written, unless the memory is larger than any there can be.
theorem Valid.writable {a : Int} (h : memory.Valid a)
    (fits : memory.size ≤ Decimal.powerOfTen Decimal.limit) : Decimal.Writable a := by
  have ⟨low, high⟩ := h
  rw [Decimal.writable_iff_lt]
  omega

section

variable {c : Check} {cs : List Check}

def offense? (memory : Memory) (cs : List Check) : Option Check :=
  cs.find? fun c => ¬c.Passes memory

def examine (memory : Memory) (cs : List Check) : Except Fault.Cause Unit :=
  match memory.offense? cs with
  | some c => .error (c.cause memory)
  | none   => .ok ()

theorem offense?_append (memory : Memory) (cs ds : List Check) :
    memory.offense? (cs ++ ds) = (memory.offense? cs).or (memory.offense? ds) :=
  List.find?_append

theorem offense?_eq_none_iff : memory.offense? cs = none ↔ ∀ c ∈ cs, c.Passes memory := by
  simp [offense?]

theorem offense?_isSome_iff :
    (∃ c, memory.offense? cs = some c) ↔ ∃ c ∈ cs, ¬c.Passes memory := by
  rw [←Option.isSome_iff_exists, offense?, List.find?_isSome]
  simp

@[simp] theorem examine_nil (memory : Memory) : memory.examine [] = .ok () :=
  rfl

theorem examine_append (memory : Memory) (cs ds : List Check) :
    memory.examine (cs ++ ds) = (do memory.examine cs; memory.examine ds) := by
  simp only [examine, offense?_append]
  cases memory.offense? cs <;> rfl

theorem examine_of_passes (h : c.Passes memory) : memory.examine [c] = .ok () := by
  simp [examine, offense?, h]

theorem examine_of_not_passes (h : ¬c.Passes memory) :
    memory.examine [c] = .error (c.cause memory) := by
  simp [examine, offense?, h]

end

theorem read_eq_examine (memory : Memory) (a : Int) :
    memory.read a = (do memory.examine [.cell a]; return memory.get a) := by
  by_cases h : memory.Valid a
  case pos =>
    rw [read_of_valid h, examine_of_passes (c := .cell a) h, Result.ok_bind, Result.pure_eq_ok]
  case neg =>
    rw [read_of_not_valid h, examine_of_not_passes (c := .cell a) h, Result.error_bind, Check.cause]

theorem check_eq_examine (memory : Memory) (a : Int) :
    memory.check a = memory.examine [.cell a] := by
  by_cases h : memory.Valid a
  case pos => rw [check_of_valid h, examine_of_passes (c := .cell a) h]
  case neg => rw [check_of_not_valid h, examine_of_not_passes (c := .cell a) h, Check.cause]

-- A mode is looked at before the address; an operand that is immediate has none.
theorem resolve_eq_examine (memory : Memory) (strict : Bool) (raw mode : Int) :
    memory.resolve strict raw mode =
      (do
        memory.examine (if strict then [.mode mode] else [])
        memory.examine (if mode = 1 then [] else [.cell raw])
        return if mode = 1 then raw else memory.get raw) := by
  cases strict
  case false => by_cases hi : mode = 1 <;> simp [resolve, Mode.immediate, hi, read_eq_examine]
  case true =>
    by_cases hm : (Check.mode mode).Passes memory
    case pos =>
      rw [if_pos rfl, examine_of_passes hm, Result.ok_bind]
      obtain rfl | rfl := hm
      case inl => simp [resolve, Mode.immediate, Mode.positional, read_eq_examine]
      case inr => simp [resolve, Mode.immediate]
    case neg =>
      rw [if_pos rfl, examine_of_not_passes hm, Result.error_bind]
      have ⟨hp, hi⟩ : mode ≠ Mode.positional ∧ mode ≠ Mode.immediate := not_or.mp hm
      simp [resolve, hp, hi, Check.cause]

def outside? (memory : Memory) (as : List Int) : Option Int :=
  as.find? fun a => ¬memory.Valid a

theorem offense?_map_cell (memory : Memory) (as : List Int) :
    memory.offense? (as.map .cell) = (memory.outside? as).map .cell :=
  List.find?_map ..

theorem outside?_append (memory : Memory) (as bs : List Int) :
    memory.outside? (as ++ bs) = (memory.outside? as).or (memory.outside? bs) :=
  List.find?_append

theorem outside?_eq_none_iff {as : List Int} :
    memory.outside? as = none ↔ ∀ a ∈ as, memory.Valid a := by
  simp [outside?]

theorem mem_of_outside?_eq_some {as : List Int} {a : Int} (h : memory.outside? as = some a) :
    a ∈ as ∧ ¬memory.Valid a :=
  ⟨List.mem_of_find?_eq_some h, by simpa using List.find?_some h⟩

end Memory
end Intcode
