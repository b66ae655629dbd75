import Mathlib.Tactic.Common
import Intcode.Program
import Intcode.Proofs.Decimal
import Intcode.Proofs.Result
import Intcode.Proofs.Text

namespace Intcode

namespace Decimal

theorem begins_chars (n : Int) {rest : List Char} (h : Text.Stops Char.isDigit rest) :
    ∃ sign, Text.Literal.Begins (chars n ++ rest) ⟨sign, digits n.natAbs, rest⟩ ∧
      sign.apply n.natAbs = n := by
  have numeric : ∀ c ∈ digits n.natAbs, c.isDigit = true := fun _ => isDigit_of_mem_digits
  unfold chars
  split
  case isTrue hn  =>
    exact ⟨.minus, .intro .minus (digits_ne_nil _) numeric h, by simp only [Sign.apply]; omega⟩
  case isFalse hn =>
    exact ⟨.plus, .intro .none (digits_ne_nil _) numeric h, by simp only [Sign.apply]; omega⟩

theorem chars_ne_nil (n : Int) : chars n ≠ [] := by
  unfold chars
  split
  case isTrue  => simp
  case isFalse => exact digits_ne_nil _

theorem mem_chars {n : Int} {c : Char} (h : c ∈ chars n) : c = '-' ∨ c.isDigit = true := by
  unfold chars at h
  split at h
  case isTrue =>
    obtain rfl | h := List.mem_cons.mp h
    · exact .inl rfl
    · exact .inr (isDigit_of_mem_digits h)
  case isFalse => exact .inr (isDigit_of_mem_digits h)

end Decimal

namespace Program

variable {w : Int} {ws : List Int} {s : String} {c : Char}

def listed (ws : List Int) : List Char :=
  ws.flatMap fun w => ',' :: Decimal.chars w

theorem stops_listed (ws : List Int) : Text.Stops Char.isDigit (listed ws) := by
  cases ws
  case nil  => exact .nil
  case cons => exact .cons rfl

theorem skip_of_not_isBlank {cs : List Char} (h : Text.isBlank c = false) :
    skip (c :: cs) = c :: cs := by
  have hs : Text.Stops Text.isGap (c :: cs) := .cons (Text.isGap_of_not_isBlank h)
  exact hs.dropWhile_eq

theorem isBlank_of_mem_chars (h : c ∈ Decimal.chars w) : Text.isBlank c = false := by
  obtain rfl | h := Decimal.mem_chars h
  case inl => decide
  case inr => exact Text.isBlank_of_isDigit h

theorem skip_chars (w : Int) (rest : List Char) :
    skip (Decimal.chars w ++ rest) = Decimal.chars w ++ rest := by
  have ⟨c, cs, he⟩ := List.exists_cons_of_ne_nil (Decimal.chars_ne_nil w)
  have hc : c ∈ Decimal.chars w := by simp [he]
  rw [he, List.cons_append, skip_of_not_isBlank (isBlank_of_mem_chars hc)]

theorem literal?_chars (h : Decimal.Writable w) (ws : List Int) :
    ∃ l, literal? (Decimal.chars w ++ listed ws) = some l ∧ l.value = .ok w ∧
      l.rest = listed ws := by
  have ⟨sign, hb, hs⟩ := Decimal.begins_chars w (stops_listed ws)
  refine ⟨_, by rw [literal?, skip_chars]; exact hb.read?, ?_, rfl⟩
  rw [Text.Literal.value, Decimal.read_of_length_le sign h, Decimal.value_digits, hs]

theorem moreWords_listed (h : ∀ w ∈ ws, Decimal.Writable w) :
    moreWords (listed ws) = .ok (ws, []) := by
  induction ws
  case nil =>
    rw [moreWords]
    rfl
  case cons w ws hi =>
    have ⟨l, hl, hv, hr⟩ := literal?_chars (h w (by simp)) ws
    have hc : listed (w :: ws) = ',' :: (Decimal.chars w ++ listed ws) := by simp [listed]
    have hn : nextLiteral? (listed (w :: ws)) = some l := by
      rw [nextLiteral?, hc, skip_of_not_isBlank (by decide)]
      exact hl
    rw [moreWords]
    split
    case h_1 he => simp [hn] at he
    case h_2 l' he =>
      obtain rfl : l = l' := Option.some.inj (hn.symm.trans he)
      rw [hv, hr, hi fun w hw => h w (by simp [hw])]
      rfl

theorem parseChars_chars (hw : Decimal.Writable w) (h : ∀ w ∈ ws, Decimal.Writable w) :
    parseChars (Decimal.chars w ++ listed ws) = .ok (w :: ws) := by
  have ⟨l, hl, hv, hr⟩ := literal?_chars hw ws
  simp [parseChars, hl, hv, hr, moreWords_listed h, skip]

theorem format_eq_ok_iff :
    format ws = .ok s ↔
      (∀ w ∈ ws, Decimal.Writable w) ∧ s = ",".intercalate (ws.map Decimal.text) := by
  constructor
  case mp =>
    intro h
    have ⟨ts, ht, h⟩ := Result.bind_eq_ok_iff.mp h
    have hw : ∀ w ∈ ws, Decimal.Writable w := by
      intro w hw
      obtain ⟨_, hd⟩ := Result.exists_of_mapM_eq_ok ht hw
      by_contra hn
      simp [Decimal.write, hn] at hd
    rw [Result.mapM_eq_ok_map fun w h => Decimal.write_of_writable (hw w h)] at ht
    obtain rfl := Except.ok.inj ht
    exact ⟨hw, (Except.ok.inj h).symm⟩
  case mpr =>
    rintro ⟨hw, rfl⟩
    rw [format, Result.mapM_eq_ok_map fun w h => Decimal.write_of_writable (hw w h)]
    rfl

theorem toList_intercalate (w : Int) (ws : List Int) :
    (",".intercalate ((w :: ws).map Decimal.text)).toList = Decimal.chars w ++ listed ws := by
  induction ws generalizing w
  case nil => simp [listed, Decimal.text]
  case cons w' ws hi =>
    rw [List.map_cons, List.map_cons, String.intercalate_cons_cons, ←List.map_cons,
      String.toList_append, hi]
    simp [listed, Decimal.text]

theorem mem_chars_append_listed (h : c ∈ Decimal.chars w ++ listed ws) :
    c = ',' ∨ c = '-' ∨ c.isDigit = true := by
  obtain h | h := List.mem_append.mp h
  case inl => exact .inr (Decimal.mem_chars h)
  case inr =>
    obtain ⟨w', -, h⟩ := List.mem_flatMap.mp h
    obtain rfl | h := List.mem_cons.mp h
    case inl => exact .inl rfl
    case inr => exact .inr (Decimal.mem_chars h)

theorem mem_format (h : format ws = .ok s) (hc : c ∈ s.toList) :
    c = ',' ∨ c = '-' ∨ c.isDigit = true := by
  obtain ⟨-, rfl⟩ := format_eq_ok_iff.mp h
  cases ws
  case nil => simp at hc
  case cons w ws =>
    rw [toList_intercalate] at hc
    exact mem_chars_append_listed hc

theorem not_isBlank_of_comma_or_minus_or_digit (h : c = ',' ∨ c = '-' ∨ c.isDigit = true) :
    Text.isBlank c = false := by
  obtain rfl | rfl | hd := h
  case inl     => decide
  case inr.inl => decide
  case inr.inr => exact Text.isBlank_of_isDigit hd

theorem isBlank_of_mem_format (h : format ws = .ok s) (hc : c ∈ s.toList) :
    Text.isBlank c = false :=
  not_isBlank_of_comma_or_minus_or_digit (mem_format h hc)

theorem prepare_format {u v : String} (hu : ∀ c ∈ u.toList, Text.isBlank c = true)
    (hv : ∀ c ∈ v.toList, Text.isBlank c = true) (h : format ws = .ok s) :
    prepare (u ++ s ++ v) = s.toList := by
  have ht : '\t' ∉ s.toList := fun hc => absurd (isBlank_of_mem_format h hc) (by decide)
  rw [prepare, String.toList_append, String.toList_append,
    Text.trim_append hu (fun _ => isBlank_of_mem_format h) hv, Text.expandTabs,
    Text.Tabs.expandFrom_eq_self ht]

theorem parse_format {u v : String} (hu : ∀ c ∈ u.toList, Text.isBlank c = true)
    (hv : ∀ c ∈ v.toList, Text.isBlank c = true) (h : format ws = .ok s) (hn : ws ≠ []) :
    parse (u ++ s ++ v) = .ok ws := by
  have ⟨w, ws, he⟩ := List.exists_cons_of_ne_nil hn
  subst he
  have ⟨hw, hs⟩ := format_eq_ok_iff.mp h
  rw [List.forall_mem_cons] at hw
  rw [parse, prepare_format hu hv h, hs, toList_intercalate, parseChars_chars hw.left hw.right]

end Program
end Intcode
