import Intcode.Proofs.Lockstep

namespace Intcode

def Fault.Cause.IsAddress : Cause → Prop
  | address _ _ => True
  | _           => False

namespace Memory

variable {memory : Memory} {a : Int}

def extend (ws : List Int) (memory : Memory) : Memory :=
  ⟨memory.cells ++ ws.toArray⟩

theorem size_extend (ws : List Int) (memory : Memory) :
    (memory.extend ws).size = memory.size + ws.length := by
  simp [size, extend]

theorem extend_ofList (ws ext : List Int) : (ofList ws).extend ext = ofList (ws ++ ext) := by
  simp [ofList, extend]

theorem extend_eq (ws : List Int) (memory : Memory) :
    memory.extend ws = ofList (memory.toList ++ ws) := by
  rw [←extend_ofList]
  rfl

theorem Valid.extend (h : memory.Valid a) (ws : List Int) : (memory.extend ws).Valid a := by
  have ⟨low, high⟩ := h
  refine ⟨low, ?_⟩
  rw [size_extend]
  omega

theorem Valid.toNat_lt (h : memory.Valid a) : a.toNat < memory.cells.size := by
  have ⟨low, high⟩ := h
  rw [size] at high
  omega

theorem get_extend (h : memory.Valid a) (ws : List Int) :
    (memory.extend ws).get a = memory.get a := by
  simp [get, Memory.extend, Array.getD_eq_getD_getElem?, Array.getElem?_append_left h.toNat_lt]

theorem set_extend (h : memory.Valid a) (ws : List Int) (v : Int) :
    (memory.set a v).extend ws = (memory.extend ws).set a v := by
  simp [set, Memory.extend, Array.setIfInBounds_append_left h.toNat_lt]

theorem read_extend (ws : List Int) (memory : Memory) (a : Int) :
    Result.Agree Fault.Cause.IsAddress (memory.read a) ((memory.extend ws).read a) := by
  by_cases h : memory.Valid a
  case pos => exact .inr (by rw [read_of_valid h, read_of_valid (h.extend ws), get_extend h])
  case neg => exact .inl ⟨_, read_of_not_valid h, trivial⟩

theorem resolve_extend (ws : List Int) (memory : Memory) (strict : Bool) (raw mode : Int) :
    Result.Agree Fault.Cause.IsAddress (memory.resolve strict raw mode)
      ((memory.extend ws).resolve strict raw mode) := by
  unfold resolve
  split
  case isTrue => exact .refl _ _
  case isFalse =>
    split
    case isTrue  => exact .refl _ _
    case isFalse => exact read_extend ws memory raw

end Memory

theorem Lockstep.extension (settings : Settings) (ws : List Int) :
    Lockstep Fault.Cause.IsAddress (Memory.extend ws) settings settings where
  limit   := rfl
  traced  := rfl
  read    := Memory.read_extend ws
  resolve := fun memory => Memory.resolve_extend ws memory settings.isStrict
  set     := fun _ _ v h => Memory.set_extend h ws v

namespace Machine

-- Whatever the settings, the trace included: the run ends in the same way and logs the same.
theorem extra_memory_inert {settings : Settings} {ws inputs : List Int} {fuel : Nat} {r : Report}
    (h : ((ofWords ws).setInputs inputs).run settings fuel = some r)
    (avoids : r.Avoids Fault.Cause.IsAddress) (ext : List Int) :
    ((ofWords (ws ++ ext)).setInputs inputs).run settings fuel =
      some { r with
        machine := { r.machine with memory := .ofList (r.machine.memory.toList ++ ext) } } := by
  have hm : (ofWords (ws ++ ext)).setInputs inputs =
      ((ofWords ws).setInputs inputs).mapMemory (Memory.extend ext) := by
    simp only [mapMemory, setInputs, ofWords, ofMemory, Memory.extend_ofList]
  have hr := (Lockstep.extension settings ext).runFrom h avoids
  rw [hm, run, hr, mapMemory, Memory.extend_eq]

theorem extra_memory_inert_echo :
    ∃ r, ((ofWords [3, 0, 4, 0, 99]).setInputs [5]).run .default 4 = some r ∧
      r.machine.status = .halted ∧ r.machine.outputs = #[5] ∧
      r.Avoids Fault.Cause.IsAddress ∧
      ((ofWords [3, 0, 4, 0, 99, 7, 8]).setInputs [5]).run .default 4 =
        some { r with machine := { r.machine with memory := .ofList [5, 0, 4, 0, 99, 7, 8] } } := by
  obtain ⟨r, h, hs, ho, hn, hf, hm⟩ :
      ∃ r, ((ofWords [3, 0, 4, 0, 99]).setInputs [5]).run .default 4 = some r ∧
        r.machine.status = .halted ∧ r.machine.outputs = #[5] ∧ r.interruption = none ∧
        r.machine.fault = none ∧ r.machine.memory.toList = [5, 0, 4, 0, 99] :=
    ⟨_, rfl, rfl, rfl, rfl, rfl, rfl⟩
  have avoids : r.Avoids Fault.Cause.IsAddress := .inl ⟨hn, by simp [hf]⟩
  have hr := extra_memory_inert h avoids [7, 8]
  rw [hm] at hr
  exact ⟨r, h, hs, ho, avoids, hr⟩

example :
    (((ofWords [4, 3, 99]).run .default 3).map (·.machine.status) = some .faulted) ∧
      (((ofWords [4, 3, 99, 7]).run .default 3).map (·.machine.outputs) = some #[7]) :=
  ⟨rfl, rfl⟩

end Machine
end Intcode
