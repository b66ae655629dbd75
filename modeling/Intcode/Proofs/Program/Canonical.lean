import Intcode.Proofs.Program.Grammar

namespace Intcode

namespace Decimal

structure Positive (ds : List Char) : Prop where
  numeric : ∀ c ∈ ds, c.isDigit = true
  leading : ∃ d, ds.head? = some d ∧ d ≠ '0'

inductive Canonical : List Char → Prop
  | zero : Canonical ['0']
  | positive {ds : List Char} (digits : Positive ds) : Canonical ds
  | negative {ds : List Char} (digits : Positive ds) : Canonical ('-' :: ds)

variable {ds cs : List Char} {c : Char} {n : Nat}

theorem positive_digits (h : 0 < n) : Positive (digits n) := by
  refine ⟨fun _ => isDigit_of_mem_digits, ?_⟩
  induction n using Nat.strong_induction_on
  case h n hi =>
    by_cases hn : n < 10
    case pos =>
      refine ⟨n.digitChar, by rw [digits, Nat.toDigits_of_lt_base hn]; rfl, ?_⟩
      exact Nat.digitChar_eq_zero.not.mpr (by omega)
    case neg =>
      obtain ⟨d, hd, hz⟩ := hi (n / 10) (by omega) (by omega)
      refine ⟨d, ?_, hz⟩
      rw [digits, Nat.toDigits_of_base_le (by decide) (by omega), List.head?_append, ←digits, hd]
      rfl

theorem digits_of_isDigit (h : c.isDigit = true) : digits (c.toNat - '0'.toNat) = [c] := by
  have ⟨hl, hu⟩ := Char.isDigit_iff_toNat.mp h
  have hlt : c.toNat - '0'.toNat < 10 := by
    simp only [Char.reduceToNat] at hl hu ⊢
    omega
  rw [digits, Nat.toDigits_of_lt_base hlt, List.singleton_inj, ←Char.toNat_inj,
    Nat.toNat_digitChar_of_lt_ten hlt]
  simp only [Char.reduceToNat] at hl ⊢
  omega

theorem digits_append (hn : 0 < n) (h : ∀ c ∈ ds, c.isDigit = true) :
    digits n ++ ds = digits (Nat.ofDigitChars 10 ds n) := by
  induction ds generalizing n
  case nil => rw [List.append_nil, Nat.ofDigitChars_nil]
  case cons c ds hi =>
    have ⟨hc, hd⟩ := List.forall_mem_cons.mp h
    have hlt : c.toNat - '0'.toNat < 10 := by
      have hu := (Char.isDigit_iff_toNat.mp hc).right
      simp only [Char.reduceToNat] at hu ⊢
      omega
    calc
      digits n ++ c :: ds = digits n ++ digits (c.toNat - '0'.toNat) ++ ds := by
        rw [digits_of_isDigit hc, List.append_assoc, List.singleton_append]
      _ = digits (10 * n + (c.toNat - '0'.toNat)) ++ ds := by
        rw [digits, digits, Nat.toDigits_append_toDigits (by decide) hn hlt, ←digits]
      _ = digits (Nat.ofDigitChars 10 (c :: ds) n) := by
        rw [hi (by omega) hd, Nat.ofDigitChars_cons]

theorem Positive.digits_value (h : Positive ds) : digits (value ds) = ds ∧ 0 < value ds := by
  obtain ⟨numeric, d, hd, hz⟩ := h
  obtain ⟨ds, rfl⟩ := List.head?_eq_some_iff.mp hd
  have ⟨hc, hds⟩ := List.forall_mem_cons.mp numeric
  have hpos : 0 < d.toNat - '0'.toNat := by
    have ⟨hl, _⟩ := Char.isDigit_iff_toNat.mp hc
    have hne : d.toNat ≠ '0'.toNat := Char.toNat_inj.not.mpr hz
    omega
  have he : digits (value (d :: ds)) = d :: ds := by
    rw [value, Nat.ofDigitChars_cons, Nat.mul_zero, Nat.zero_add, ←digits_append hpos hds,
      digits_of_isDigit hc, List.singleton_append]
  refine ⟨he, Nat.pos_of_ne_zero fun h0 => ?_⟩
  rw [h0] at he
  exact hz (List.cons.inj he).left.symm

theorem canonical_iff : Canonical cs ↔ ∃ n, cs = chars n := by
  constructor
  case mp =>
    rintro (_ | h | h)
    case zero => exact ⟨0, rfl⟩
    case positive =>
      have ⟨hd, _⟩ := h.digits_value
      exact ⟨value cs, by simp [chars, hd]⟩
    case negative ds =>
      have ⟨hd, hp⟩ := h.digits_value
      exact ⟨-value ds, by simp [chars, hd, hp]⟩
  case mpr =>
    rintro ⟨n, rfl⟩
    unfold chars
    split
    case isTrue hn => exact .negative (positive_digits (by omega))
    case isFalse hn =>
      obtain h0 | hp := Nat.eq_zero_or_pos n.natAbs
      case inl => rw [h0]; exact .zero
      case inr => exact .positive (positive_digits hp)

end Decimal

namespace Program

inductive Canonical : List Char → Prop
  | single {cs : List Char} (word : Decimal.Canonical cs) : Canonical cs
  | cons {cs cs' : List Char} (word : Decimal.Canonical cs) (rest : Canonical cs') :
    Canonical (cs ++ ',' :: cs')

variable {cs : List Char} {w : Int} {ws : List Int} {s t : String} {ns : List Numeral}

theorem canonical_iff : Canonical cs ↔ ∃ w ws, cs = Decimal.chars w ++ listed ws := by
  constructor
  case mp =>
    intro h
    induction h
    case single hw =>
      obtain ⟨w, rfl⟩ := Decimal.canonical_iff.mp hw
      exact ⟨w, [], by simp [listed]⟩
    case cons hw _ hi =>
      obtain ⟨w, rfl⟩ := Decimal.canonical_iff.mp hw
      obtain ⟨w', ws, rfl⟩ := hi
      exact ⟨w, w' :: ws, by simp [listed]⟩
  case mpr =>
    rintro ⟨w, ws, rfl⟩
    have word (w : Int) : Decimal.Canonical (Decimal.chars w) := Decimal.canonical_iff.mpr ⟨w, rfl⟩
    induction ws generalizing w
    case nil           => simpa [listed] using Canonical.single (word w)
    case cons w' ws hi => simpa [listed] using Canonical.cons (word w) (hi w')

theorem Numeral.written_chars (w : Int) :
    ∃ n : Numeral, n.Written (Decimal.chars w) ∧ n.value = w := by
  have ⟨sign, hb, hs⟩ := Decimal.begins_chars w .nil
  rw [List.append_nil] at hb
  refine ⟨⟨sign, Decimal.digits w.natAbs⟩, ?_, by rw [value, Decimal.value_digits, hs]⟩
  generalize Decimal.chars w = cs at hb
  obtain ⟨signed, nonempty, numeric, -⟩ := hb
  have blank : ∀ c ∈ [], Text.isGap c = true := by simp
  simpa using Numeral.Written.intro blank signed nonempty numeric

theorem written_listed (w : Int) (ws : List Int) :
    ∃ ns, Written ns (Decimal.chars w ++ listed ws) ∧ ns.map Numeral.value = w :: ws := by
  induction ws generalizing w
  all_goals obtain ⟨n, hn, hv⟩ := Numeral.written_chars w
  case nil => exact ⟨[n], by simpa [listed] using Written.single hn, by simp [hv]⟩
  case cons w' ws hi =>
    obtain ⟨ns, hw, hvs⟩ := hi w'
    have blank : ∀ c ∈ [], Text.isGap c = true := by simp
    exact ⟨n :: ns, by simpa [listed] using Written.cons hn blank hw, by simp [hv, hvs]⟩

theorem Written.numeric (h : Written ns cs) :
    ns ≠ [] ∧ ∀ n ∈ ns, ∀ c ∈ n.digits, c.isDigit = true := by
  have word {n : Numeral} {cs : List Char} : n.Written cs → ∀ c ∈ n.digits, c.isDigit = true
    | .intro _ _ _ numeric => numeric
  induction h
  case single hw      => simpa using word hw
  case cons hw _ _ hi => simpa using ⟨word hw, hi.right⟩

theorem writable_of_parse (h : parse t = .ok ws) : ws ≠ [] ∧ ∀ w ∈ ws, Decimal.Writable w := by
  obtain ⟨ns, hw, short, rfl⟩ := parse_eq_ok_iff.mp h
  have ⟨nonempty, numeric⟩ := hw.numeric
  refine ⟨by simpa using nonempty, List.forall_mem_map.mpr fun n hn => ?_⟩
  exact Decimal.writable_of_read (Decimal.read_of_length_le n.sign (short n hn)) (numeric n hn)

theorem parse_format_self (h : format ws = .ok s) (hn : ws ≠ []) : parse s = .ok ws := by
  have hp := parse_format (u := "") (v := "") (by simp) (by simp) h hn
  simpa using hp

theorem canonical_format (h : format ws = .ok s) (hn : ws ≠ []) : Canonical s.toList := by
  obtain ⟨-, rfl⟩ := format_eq_ok_iff.mp h
  obtain ⟨w, ws, rfl⟩ := List.exists_cons_of_ne_nil hn
  exact canonical_iff.mpr ⟨w, ws, toList_intercalate w ws⟩

theorem format_of_canonical (h : parse t = .ok ws) (hc : Canonical t.toList) :
    format ws = .ok t := by
  obtain ⟨w, ws', he⟩ := canonical_iff.mp hc
  have hs : stripped t = Decimal.chars w ++ listed ws' := by
    have hb : ∀ c ∈ t.toList, Text.isBlank c = false := fun c hc =>
      not_isBlank_of_comma_or_minus_or_digit (mem_chars_append_listed (he ▸ hc))
    have ht : Text.trim Text.isBlank ([] ++ t.toList ++ []) = t.toList :=
      Text.trim_append (by simp) hb (by simp)
    rw [List.nil_append, List.append_nil] at ht
    rw [stripped, ht, he]
  obtain ⟨ns, hw, -, hv⟩ := parse_eq_ok_iff.mp h
  obtain ⟨ms, hm, hv'⟩ := written_listed w ws'
  obtain rfl : ns = ms := (hs ▸ hw).longestPart.unique hm.longestPart
  obtain rfl : ws = w :: ws' := hv.trans hv'
  refine format_eq_ok_iff.mpr ⟨(writable_of_parse h).right, String.toList_inj.mp ?_⟩
  rw [toList_intercalate, he]

-- Integers are read back from the text that is written for them. For the integers of any text one
-- canonical text is written, and it is the text itself if that was canonical.
theorem text_round_trips :
    (∀ (ws : List Int) (u v : String), ws ≠ [] → (∀ w ∈ ws, Decimal.Writable w) →
      (∀ c ∈ u.toList, Text.isBlank c = true) → (∀ c ∈ v.toList, Text.isBlank c = true) →
      ∃ s, format ws = .ok s ∧ parse (u ++ s ++ v) = .ok ws) ∧
    ∀ (t : String) (ws : List Int), parse t = .ok ws →
      ∃ s, format ws = .ok s ∧ parse s = .ok ws ∧ Canonical s.toList ∧
        (Canonical t.toList ↔ t = s) := by
  constructor
  case left =>
    intro ws u v nonempty hw hu hv
    have hf := format_eq_ok_iff.mpr ⟨hw, rfl⟩
    exact ⟨_, hf, parse_format hu hv hf nonempty⟩
  case right =>
    intro t ws h
    have ⟨nonempty, hw⟩ := writable_of_parse h
    have hf := format_eq_ok_iff.mpr ⟨hw, rfl⟩
    have hc := canonical_format hf nonempty
    refine ⟨_, hf, parse_format_self hf nonempty, hc, fun ht => ?_, fun he => he ▸ hc⟩
    exact Except.ok.inj ((format_of_canonical h ht).symm.trans hf)

theorem text_round_trips_signs :
    (∃ s, format [0, 10, -305] = .ok s ∧ parse ("\u2003\t" ++ s ++ "\n") = .ok [0, 10, -305]) ∧
    parse " +007 ,\t-0" = .ok [7, 0] ∧
      ∃ s, format [7, 0] = .ok s ∧ parse s = .ok [7, 0] ∧ Canonical s.toList ∧
        (Canonical " +007 ,\t-0".toList ↔ " +007 ,\t-0" = s) := by
  have hp : parse " +007 ,\t-0" = .ok [7, 0] := by decide +kernel
  have hu : ∀ c ∈ "\u2003\t".toList, Text.isBlank c = true := List.all_eq_true.mp (by decide)
  have hv : ∀ c ∈ "\n".toList, Text.isBlank c = true := List.all_eq_true.mp (by decide)
  refine ⟨?_, hp, text_round_trips.right _ _ hp⟩
  exact text_round_trips.left _ _ _ (by decide) (by decide) hu hv

end Program
end Intcode
