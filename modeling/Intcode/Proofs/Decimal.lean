import Mathlib.Tactic.Common
import Intcode.Decimal

namespace Intcode.Decimal

variable {ds : List Char} {sign : Sign} {n : Int}

theorem value_cons (c : Char) (ds : List Char) :
    value (c :: ds) = powerOfTen ds.length * (c.toNat - '0'.toNat) + value ds := by
  simp only [value, Nat.ofDigitChars_cons, Nat.mul_zero, Nat.zero_add]
  exact Nat.ofDigitChars_eq_ofDigitChars_zero

theorem powerOfTen_succ (k : Nat) : powerOfTen (k + 1) = powerOfTen k * 10 :=
  rfl

theorem value_lt (h : ∀ c ∈ ds, c.isDigit = true) : value ds < powerOfTen ds.length := by
  induction ds
  case nil => decide
  case cons c ds hi =>
    have hc : c.toNat - '0'.toNat ≤ 9 :=
      Nat.sub_le_sub_right (Char.isDigit_iff_toNat.mp (h c (by simp))).right _
    have hd := hi fun c hc => h c (by simp [hc])
    have hm := Nat.mul_le_mul_left (powerOfTen ds.length) hc
    rw [value_cons, List.length_cons, powerOfTen_succ]
    omega

theorem powerOfTen_le {k k' : Nat} (h : k ≤ k') : powerOfTen k ≤ powerOfTen k' :=
  Nat.pow_le_pow_right (by decide) h

theorem value_lt_powerOfTen {k : Nat} (h : ∀ c ∈ ds, c.isDigit = true) (hl : ds.length ≤ k) :
    value ds < powerOfTen k :=
  Nat.lt_of_lt_of_le (value_lt h) (powerOfTen_le hl)

theorem natAbs_apply (sign : Sign) (n : Nat) : (sign.apply n).natAbs = n := by
  cases sign <;> simp [Sign.apply]

theorem read_eq (h : read sign ds = .ok n) : n = sign.apply (value ds) := by
  unfold read at h
  split at h
  case isTrue  => exact (Except.ok.inj h).symm
  case isFalse => simp at h

theorem length_le_of_read (h : read sign ds = .ok n) : ds.length ≤ limit := by
  unfold read at h
  split at h
  case isTrue hl => exact hl
  case isFalse   => simp at h

theorem writable_of_read (h : read sign ds = .ok n) (hd : ∀ c ∈ ds, c.isDigit = true) :
    Writable n := by
  unfold read at h
  split at h
  case isFalse => simp at h
  case isTrue hl =>
    obtain rfl := Except.ok.inj h
    rw [writable_iff_lt, natAbs_apply]
    exact value_lt_powerOfTen hd hl

end Intcode.Decimal
