import Mathlib.Tactic.Common
import Intcode.Text.Utf8

namespace Intcode.Text

namespace Utf8

variable {b : UInt8} {bs tail : List UInt8} {begun : Begun} {cs : List Char} {pos n : Nat}

-- The bytes of the character with the code `n`: as few as the code allows, and none for the codes
-- that are no characters.
inductive Spells : List UInt8 → Nat → Prop
  | one {b : UInt8} {n : Nat} (high : n < 0x80) (h : b.toNat = n) : Spells [b] n
  | two {b b₁ : UInt8} {n : Nat} (low : 0x80 ≤ n) (high : n < 0x800)
    (h : b.toNat = n / 64 + 0xc0) (h₁ : b₁.toNat = n % 64 + 0x80) : Spells [b, b₁] n
  | three {b b₁ b₂ : UInt8} {n : Nat} (valid : n.isValidChar) (low : 0x800 ≤ n)
    (high : n < 0x10000) (h : b.toNat = n / 4096 + 0xe0) (h₁ : b₁.toNat = n / 64 % 64 + 0x80)
    (h₂ : b₂.toNat = n % 64 + 0x80) : Spells [b, b₁, b₂] n
  | four {b b₁ b₂ b₃ : UInt8} {n : Nat} (low : 0x10000 ≤ n) (high : n < 0x110000)
    (h : b.toNat = n / 262144 + 0xf0) (h₁ : b₁.toNat = n / 4096 % 64 + 0x80)
    (h₂ : b₂.toNat = n / 64 % 64 + 0x80) (h₃ : b₃.toNat = n % 64 + 0x80) :
    Spells [b, b₁, b₂, b₃] n

inductive Completes : Begun → List UInt8 → Nat → Prop
  | last {c : Begun} {b : UInt8} {n : Nat} (low : c.low ≤ b.toNat) (high : b.toNat ≤ c.high)
    (owed : c.owed ≤ 1) (code : c.code * 64 + (b.toNat - 0x80) = n) : Completes c [b] n
  | more {c : Begun} {b : UInt8} {bs : List UInt8} {n : Nat} (low : c.low ≤ b.toNat)
    (high : b.toNat ≤ c.high) (owed : 1 < c.owed)
    (rest : Completes ⟨c.lead, c.first, c.code * 64 + (b.toNat - 0x80), c.owed - 1, 0x80, 0xbf⟩
      bs n) : Completes c (b :: bs) n

theorem Completes.decodeFrom (h : Completes begun tail n) (pos : Nat) (rest : List UInt8) :
    Utf8.decodeFrom pos (some begun) (tail ++ rest) =
      (Utf8.decodeFrom (pos + tail.length) none rest).map (Char.ofNat n :: ·) := by
  induction h generalizing pos
  case last low high owed code =>
    simp [Utf8.decodeFrom, low, high, owed, code]
  case more low high owed _ hi =>
    have ho : ¬_ ≤ 1 := Nat.not_le.mpr owed
    simp only [List.cons_append, Utf8.decodeFrom, low, high, and_self, if_true, ho, if_false, hi]
    simp only [List.length_cons, Nat.add_assoc, Nat.add_comm 1]

theorem exists_completes (h : decodeFrom pos (some begun) bs = .ok cs) :
    ∃ tail rest n, bs = tail ++ rest ∧ Completes begun tail n := by
  induction bs generalizing pos begun
  case nil => simp [decodeFrom] at h
  case cons b bs hi =>
    rw [decodeFrom] at h
    dsimp only at h
    split at h
    case isFalse => simp at h
    case isTrue hb =>
      split at h
      case isTrue owed => exact ⟨[b], bs, _, rfl, .last hb.left hb.right owed rfl⟩
      case isFalse owed =>
        obtain ⟨tail, rest, n, rfl, hc⟩ := hi h
        exact ⟨b :: tail, rest, n, rfl, .more hb.left hb.right (Nat.not_le.mp owed) hc⟩

-- The lead bytes of two, three and four bytes. Two of each of the longer forms allow fewer second
-- bytes than the others.
theorem begin?_eq (b : UInt8) (pos : Nat) :
    begin? b pos =
      if b.toNat < 0xc2 then none
      else if b.toNat < 0xe0 then some ⟨b, pos, b.toNat - 0xc0, 1, 0x80, 0xbf⟩
      else if b.toNat < 0xf0 then
        some ⟨b, pos, b.toNat - 0xe0, 2, if b.toNat = 0xe0 then 0xa0 else 0x80,
          if b.toNat = 0xed then 0x9f else 0xbf⟩
      else if b.toNat < 0xf5 then
        some ⟨b, pos, b.toNat - 0xf0, 3, if b.toNat = 0xf0 then 0x90 else 0x80,
          if b.toNat = 0xf4 then 0x8f else 0xbf⟩
      else none := by
  unfold begin?
  grind

theorem Completes.spells (hc : Completes begun tail n) (hb : begin? b pos = some begun) :
    Spells (b :: tail) n := by
  rw [begin?_eq] at hb
  split at hb
  case isTrue => simp at hb
  case isFalse =>
    split at hb
    case isTrue =>
      obtain rfl := Option.some.inj hb
      obtain ⟨low, high, _, code⟩ | ⟨_, _, owed, _⟩ := hc
      case more => simp at owed
      case last =>
        dsimp only at low high code
        exact .two (by omega) (by omega) (by omega) (by omega)
    case isFalse =>
      split at hb
      case isTrue =>
        obtain rfl := Option.some.inj hb
        obtain ⟨_, _, owed, _⟩ | ⟨low, high, _, ⟨low₂, high₂, _, code⟩ | ⟨_, _, owed, _⟩⟩ := hc
        case last => simp at owed
        case more.more => simp at owed
        case more.last b₁ b₂ _ _ =>
          dsimp only at low high low₂ high₂ code
          have h₁ : 0x80 ≤ b₁.toNat ∧ b₁.toNat ≤ 0xbf := by grind
          have he : b.toNat = 0xe0 → 0xa0 ≤ b₁.toNat := by grind
          have hd : b.toNat = 0xed → b₁.toNat ≤ 0x9f := by grind
          clear low high hb
          refine .three ?_ (by omega) (by omega) (by omega) (by omega) (by omega)
          unfold Nat.isValidChar
          omega
      case isFalse =>
        split at hb
        case isFalse => simp at hb
        case isTrue =>
          obtain rfl := Option.some.inj hb
          obtain ⟨_, _, owed, _⟩ | ⟨low, high, _, ⟨_, _, owed, _⟩ | ⟨low₂, high₂, _,
            ⟨low₃, high₃, _, code⟩ | ⟨_, _, owed, _⟩⟩⟩ := hc
          case last => simp at owed
          case more.last => simp at owed
          case more.more.more => simp at owed
          case more.more.last b₁ b₂ b₃ _ _ _ =>
            dsimp only at low high low₂ high₂ low₃ high₃ code
            have h₁ : 0x80 ≤ b₁.toNat ∧ b₁.toNat ≤ 0xbf := by grind
            have hl : b.toNat = 0xf0 → 0x90 ≤ b₁.toNat := by grind
            have hh : b.toNat = 0xf4 → b₁.toNat ≤ 0x8f := by grind
            clear low high hb
            exact .four (by omega) (by omega) (by omega) (by omega) (by omega) (by omega)

theorem Spells.completes (h : Spells (b :: tail) n) (low : 0x80 ≤ n) (pos : Nat) :
    ∃ begun, begin? b pos = some begun ∧ Completes begun tail n := by
  rw [begin?_eq]
  cases h
  case one => omega
  case two high h h₁ _ =>
    rw [if_neg (by omega), if_pos (by omega)]
    refine ⟨_, rfl, .last ?_ ?_ (Nat.le_refl 1) ?_⟩ <;> dsimp only <;> omega
  case three b₁ b₂ valid high h h₁ h₂ _ =>
    rw [if_neg (by omega), if_neg (by omega), if_pos (by omega)]
    unfold Nat.isValidChar at valid
    refine ⟨_, rfl, .more ?_ ?_ (Nat.lt_add_one 1) (.last ?_ ?_ (Nat.le_refl 1) ?_)⟩ <;>
      dsimp only <;> grind
  case four high h h₁ h₂ h₃ _ =>
    rw [if_neg (by omega), if_neg (by omega), if_neg (by omega), if_pos (by omega)]
    refine ⟨_, rfl, .more ?_ ?_ (by simp) (.more ?_ ?_ (Nat.lt_add_one 1)
      (.last ?_ ?_ (Nat.le_refl 1) ?_))⟩ <;> dsimp only <;> grind

theorem Spells.decodeFrom (h : Spells bs n) (pos : Nat) (rest : List UInt8) :
    Utf8.decodeFrom pos none (bs ++ rest) =
      (Utf8.decodeFrom (pos + bs.length) none rest).map (Char.ofNat n :: ·) := by
  by_cases low : n < 0x80
  case pos =>
    cases h
    case one h => simp [Utf8.decodeFrom, h, low]
    all_goals omega
  case neg =>
    obtain _ | ⟨b, tail⟩ := bs
    case nil => cases h
    case cons =>
      obtain ⟨begun, hb, hc⟩ := h.completes (Nat.not_lt.mp low) pos
      have hl : ¬b.toNat < 0x80 := by
        intro hl
        rw [begin?_eq, if_pos (by omega)] at hb
        simp at hb
      rw [List.cons_append, Utf8.decodeFrom, if_neg hl, hb]
      dsimp only
      rw [hc.decodeFrom, List.length_cons, Nat.add_assoc, Nat.add_comm 1]

theorem exists_spells (h : decodeFrom pos none (b :: bs) = .ok cs) :
    ∃ tail rest n, bs = tail ++ rest ∧ Spells (b :: tail) n := by
  rw [decodeFrom] at h
  split at h
  case isTrue hb => exact ⟨[], bs, b.toNat, rfl, .one hb rfl⟩
  case isFalse =>
    split at h
    case h_1 => simp at h
    case h_2 hb =>
      obtain ⟨tail, rest, n, rfl, hc⟩ := exists_completes h
      exact ⟨tail, rest, n, rfl, hc.spells hb⟩

theorem isValidChar_of_spells (h : Spells bs n) : n.isValidChar := by
  cases h
  case one => exact .inl (by omega)
  case two => exact .inl (by omega)
  case three valid _ _ _ _ _ => exact valid
  case four high _ _ _ _ => exact .inr ⟨by omega, high⟩

theorem Spells.encode (h : Spells bs n) : String.utf8EncodeChar (Char.ofNat n) = bs := by
  have hv : (Char.ofNat n).val.toNat = n := by
    rw [Char.ofNat, dif_pos (isValidChar_of_spells h)]
    rfl
  have ofNat {b : UInt8} {m : Nat} (hm : b.toNat = m) : UInt8.ofNat m = b := by
    rw [←hm, UInt8.ofNat_toNat]
  rw [String.utf8EncodeChar, hv]
  cases h
  case one high h =>
    simp only [show n ≤ 127 by omega, if_true, ofNat h]
  case two low high h h₁ =>
    have hm : n / 64 % 32 = n / 64 := Nat.mod_eq_of_lt (by omega)
    simp only [show ¬n ≤ 127 by omega, show n ≤ 2047 by omega, if_true, if_false, hm, ofNat h,
      ofNat h₁]
  case three low high h h₁ h₂ =>
    have hm : n / 4096 % 16 = n / 4096 := Nat.mod_eq_of_lt (by omega)
    simp only [show ¬n ≤ 127 by omega, show ¬n ≤ 2047 by omega, show n ≤ 65535 by omega, if_true,
      if_false, hm, ofNat h, ofNat h₁, ofNat h₂]
  case four low high h h₁ h₂ h₃ =>
    have hm : n / 262144 % 8 = n / 262144 := Nat.mod_eq_of_lt (by omega)
    simp only [show ¬n ≤ 127 by omega, show ¬n ≤ 2047 by omega, show ¬n ≤ 65535 by omega, if_false,
      hm, ofNat h, ofNat h₁, ofNat h₂, ofNat h₃]

theorem spells_encode (c : Char) : Spells (String.utf8EncodeChar c) c.toNat := by
  have toNat {m : Nat} (hm : m < 256) : (UInt8.ofNat m).toNat = m := by
    rw [UInt8.toNat_ofNat', Nat.mod_eq_of_lt hm]
  have valid : c.toNat.isValidChar := c.valid
  have hc : c.toNat < 0x110000 := by
    unfold Nat.isValidChar at valid
    omega
  suffices h : ∃ bs, Spells bs c.toNat by
    obtain ⟨bs, h⟩ := h
    have he := h.encode
    rw [Char.ofNat_toNat] at he
    exact he ▸ h
  generalize c.toNat = n at valid hc
  by_cases h₁ : n < 0x80
  case pos => exact ⟨[.ofNat n], .one h₁ (toNat (by omega))⟩
  case neg =>
    by_cases h₂ : n < 0x800
    case pos =>
      exact ⟨[.ofNat _, .ofNat _], .two (by omega) h₂ (toNat (by omega)) (toNat (by omega))⟩
    case neg =>
      by_cases h₃ : n < 0x10000
      case pos =>
        exact ⟨[.ofNat _, .ofNat _, .ofNat _], .three valid (by omega) h₃ (toNat (by omega))
          (toNat (by omega)) (toNat (by omega))⟩
      case neg =>
        exact ⟨[.ofNat _, .ofNat _, .ofNat _, .ofNat _], .four (by omega) hc (toNat (by omega))
          (toNat (by omega)) (toNat (by omega)) (toNat (by omega))⟩

theorem map_eq_ok_iff {x : Except Malformed (List Char)} {c : Char} :
    x.map (c :: ·) = .ok cs ↔ ∃ cs', cs = c :: cs' ∧ x = .ok cs' := by
  cases x <;> simp [Except.map, eq_comm]

theorem decodeFrom_encode (cs : List Char) (pos : Nat) :
    decodeFrom pos none (cs.flatMap String.utf8EncodeChar) = .ok cs := by
  induction cs generalizing pos
  case nil => rfl
  case cons c cs hi =>
    rw [List.flatMap_cons, (spells_encode c).decodeFrom, Char.ofNat_toNat, hi]
    rfl

theorem eq_encode_of_decodeFrom (h : decodeFrom pos none bs = .ok cs) :
    bs = cs.flatMap String.utf8EncodeChar := by
  induction cs generalizing pos bs
  all_goals obtain _ | ⟨b, bs⟩ := bs
  case nil.nil => rfl
  case cons.nil => simp [decodeFrom] at h
  case nil.cons =>
    obtain ⟨tail, rest, n, rfl, hs⟩ := exists_spells h
    rw [←List.cons_append, hs.decodeFrom, map_eq_ok_iff] at h
    simp at h
  case cons.cons c cs hi =>
    obtain ⟨tail, rest, n, rfl, hs⟩ := exists_spells h
    rw [←List.cons_append, hs.decodeFrom, map_eq_ok_iff] at h
    obtain ⟨cs', he, h⟩ := h
    obtain ⟨rfl, rfl⟩ := List.cons.inj he
    rw [List.flatMap_cons, hs.encode, ←hi h, List.cons_append]

end Utf8

theorem toList_toUTF8 (s : String) :
    s.toUTF8.data.toList = s.toList.flatMap String.utf8EncodeChar := by
  conv_lhs => rw [←s.ofList_toList, String.toUTF8_eq_toByteArray, String.toByteArray_ofList]
  rw [List.utf8Encode, List.toList_data_toByteArray]

theorem decodeUtf8_eq_ok_iff {bytes : List UInt8} {cs : List Char} :
    decodeUtf8 bytes = .ok cs ↔ (String.ofList cs).toUTF8.data.toList = bytes := by
  rw [toList_toUTF8, String.toList_ofList]
  exact ⟨fun h => (Utf8.eq_encode_of_decodeFrom h).symm, fun h => h ▸ Utf8.decodeFrom_encode cs 0⟩

theorem decodeUtf8_toUTF8 (s : String) : decodeUtf8 s.toUTF8.data.toList = .ok s.toList := by
  rw [decodeUtf8_eq_ok_iff, String.ofList_toList]

end Intcode.Text
