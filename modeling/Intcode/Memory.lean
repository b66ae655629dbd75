import Intcode.Fault

namespace Intcode

@[ext]
structure Memory where
  cells : Array Int
  deriving DecidableEq, Repr

namespace Memory

def size (m : Memory) : Nat :=
  m.cells.size

def ofList (ws : List Int) : Memory :=
  ⟨ws.toArray⟩

def toList (m : Memory) : List Int :=
  m.cells.toList

def Valid (m : Memory) (a : Int) : Prop :=
  0 ≤ a ∧ a < m.size

instance (m : Memory) (a : Int) : Decidable (m.Valid a) :=
  inferInstanceAs (Decidable (_ ∧ _))

def check (m : Memory) (a : Int) : Except Fault.Cause Unit :=
  if m.Valid a then .ok () else .error (.address a m.size)

def get (m : Memory) (a : Int) : Int :=
  m.cells.getD a.toNat 0

def read (m : Memory) (a : Int) : Except Fault.Cause Int :=
  if m.Valid a then .ok (m.get a) else .error (.address a m.size)

def set (m : Memory) (a v : Int) : Memory :=
  ⟨m.cells.setIfInBounds a.toNat v⟩

def write (m : Memory) (a v : Int) : Except Fault.Cause Memory :=
  if m.Valid a then .ok (m.set a v) else .error (.address a m.size)

theorem read_of_valid {m : Memory} {a : Int} (h : m.Valid a) : m.read a = .ok (m.get a) :=
  if_pos h

theorem read_of_not_valid {m : Memory} {a : Int} (h : ¬m.Valid a) :
    m.read a = .error (.address a m.size) :=
  if_neg h

theorem check_of_valid {m : Memory} {a : Int} (h : m.Valid a) : m.check a = .ok () :=
  if_pos h

theorem check_of_not_valid {m : Memory} {a : Int} (h : ¬m.Valid a) :
    m.check a = .error (.address a m.size) :=
  if_neg h

@[simp] theorem size_set (m : Memory) (a v : Int) : (m.set a v).size = m.size := by
  simp [size, set]

theorem get_set_self {m : Memory} {a : Int} (h : m.Valid a) (v : Int) : (m.set a v).get a = v := by
  have : a.toNat < m.cells.size := by have := h.1; have := h.2; simp only [size] at this; omega
  simp [get, set, this]

theorem get_set_of_ne {m : Memory} {a b : Int} (ha : 0 ≤ a) (hb : 0 ≤ b) (h : a ≠ b) (v : Int) :
    (m.set a v).get b = m.get b := by
  have : a.toNat ≠ b.toNat := by omega
  simp [get, set, Array.getD_eq_getD_getElem?, Array.getElem?_setIfInBounds_ne this]

end Memory
end Intcode
