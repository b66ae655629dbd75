import Mathlib.Data.List.TakeWhile
import Intcode.Assembly
import Intcode.Proofs.Decimal
import Intcode.Proofs.Result

namespace Intcode

theorem Text.Literal.isDigit_of_read? {cs : List Char} {l : Literal} (h : read? cs = some l) :
    ∀ c ∈ l.digits, c.isDigit = true := by
  unfold read? at h
  split at h
  dsimp only at h
  split at h
  case isTrue  => simp at h
  case isFalse =>
    obtain rfl := Option.some.inj h
    exact fun _ => List.mem_takeWhile_imp

namespace Assembly

def Target.Writable : Target → Prop
  | constant n => Decimal.Writable n
  | label _    => True

structure Operand.WellFormed (o : Operand) : Prop where
  mode   : o.mode = Mode.positional ∨ o.mode = Mode.immediate
  target : o.target.Writable

def Statement.WellFormed : Statement → Prop
  | label _           => True
  | instruction op os => os.length = op.arity ∧ ∀ o ∈ os, o.WellFormed
  | data vs           => ∀ v ∈ vs, v.Writable

def Token.Numeric (t : Token) : Prop :=
  ∀ sign ds, t.lexeme = .literal sign ds → ∀ c ∈ ds, c.isDigit = true

theorem Token.numeric_of_mem_scanFrom {offset : Nat} {previous : Option Char} {cs : List Char} :
    ∀ t ∈ scanFrom offset previous cs, t.Numeric := by
  fun_induction scanFrom offset previous cs
  case case1 => simp
  case case2 hi => exact hi
  case case3 hi => exact hi
  case case4 hi =>
    simp only [List.forall_mem_cons]
    exact ⟨by simp [Numeric], hi⟩
  case case5 hl hi =>
    simp only [List.forall_mem_cons]
    refine ⟨?_, hi⟩
    rintro _ _ ⟨⟩
    exact Text.Literal.isDigit_of_read? hl
  case case6 hi =>
    simp only [List.forall_mem_cons]
    exact ⟨by simp [Numeric], hi⟩

namespace Grammar

variable {ts rest : List Token}

theorem address_spec {t : Target} (hn : ∀ t ∈ ts, t.Numeric)
    (h : address ts = .ok (some (t, rest))) : t.Writable ∧ ∀ t ∈ rest, t.Numeric := by
  unfold address at h
  split at h
  case h_1 =>
    have ⟨n, hr, h⟩ := Result.bind_eq_ok_iff.mp h
    obtain ⟨rfl, rfl⟩ : .constant n = t ∧ _ = rest := by simpa using h
    rw [List.forall_mem_cons] at hn
    exact ⟨Decimal.writable_of_read hr (hn.left _ _ rfl), hn.right⟩
  case h_2 =>
    obtain ⟨rfl, rfl⟩ : .label _ = t ∧ _ = rest := by simpa using h
    simp only [List.forall_mem_cons] at hn
    exact ⟨trivial, hn.right.right⟩
  case h_3 => simp at h

theorem operand_spec {o : Operand} (hn : ∀ t ∈ ts, t.Numeric)
    (h : operand ts = .ok (some (o, rest))) : o.WellFormed ∧ ∀ t ∈ rest, t.Numeric := by
  unfold operand at h
  split at h
  all_goals
    have ⟨p, ha, h⟩ := Result.bind_eq_ok_iff.mp h
    obtain ⟨⟨t, ts'⟩, rfl, hp⟩ := Option.map_eq_some_iff.mp (Except.ok.inj h)
    obtain ⟨rfl, rfl⟩ := Prod.mk.inj hp
  case h_1 =>
    rw [List.forall_mem_cons] at hn
    have ⟨ht, hr⟩ := address_spec hn.right ha
    exact ⟨⟨.inr rfl, ht⟩, hr⟩
  case h_2 =>
    have ⟨ht, hr⟩ := address_spec hn ha
    exact ⟨⟨.inl rfl, ht⟩, hr⟩

theorem skipComma_numeric (hn : ∀ t ∈ ts, t.Numeric) : ∀ t ∈ skipComma ts, t.Numeric := by
  unfold skipComma
  split
  case h_1 => exact (List.forall_mem_cons.mp hn).right
  case h_2 => exact hn

theorem operands_spec {n : Nat} {os : List Operand} (hn : ∀ t ∈ ts, t.Numeric)
    (h : operands n ts = .ok (some (os, rest))) :
    os.length = n ∧ (∀ o ∈ os, o.WellFormed) ∧ ∀ t ∈ rest, t.Numeric := by
  induction n generalizing ts os
  case zero =>
    obtain ⟨rfl, rfl⟩ : [] = os ∧ ts = rest := by simpa [operands] using h
    simpa using hn
  case succ n hi =>
    unfold operands at h
    have ⟨p, ho, h⟩ := Result.bind_eq_ok_iff.mp h
    split at h
    case h_2 => simp at h
    case h_1 o ts₁ =>
      have ⟨hw, hn₁⟩ := operand_spec hn ho
      have ⟨p, hos, h⟩ := Result.bind_eq_ok_iff.mp h
      split at h
      case h_2 => simp at h
      case h_1 os' ts₂ =>
        obtain ⟨rfl, rfl⟩ : o :: os' = os ∧ ts₂ = rest := by simpa using h
        have ⟨hl, hws, hr⟩ := hi (skipComma_numeric hn₁) hos
        exact ⟨by simp [hl], by simpa using ⟨hw, hws⟩, hr⟩

theorem addresses_spec {vs : List Target} (hn : ∀ t ∈ ts, t.Numeric)
    (h : addresses ts = .ok (vs, rest)) :
    (∀ v ∈ vs, v.Writable) ∧ ∀ t ∈ rest, t.Numeric := by
  fun_induction addresses ts generalizing vs
  case case1 => simp at h
  case case2 =>
    obtain ⟨rfl, rfl⟩ : [] = vs ∧ _ = rest := by simpa using h
    simpa using hn
  case case3 t ts₁ ha hi =>
    have ⟨ht, hn₁⟩ := address_spec hn ha
    have ⟨⟨vs', ts₂⟩, hvs, h⟩ := Result.bind_eq_ok_iff.mp h
    obtain ⟨rfl, rfl⟩ : t :: vs' = vs ∧ ts₂ = rest := by simpa using h
    have ⟨hts, hr⟩ := hi (skipComma_numeric hn₁) hvs
    exact ⟨by simpa using ⟨ht, hts⟩, hr⟩

theorem statement_spec {s : Statement} (hn : ∀ t ∈ ts, t.Numeric)
    (h : statement ts = .ok (some (s, rest))) : s.WellFormed ∧ ∀ t ∈ rest, t.Numeric := by
  unfold statement at h
  split at h
  case h_1 =>
    obtain ⟨rfl, rfl⟩ : .label _ = s ∧ _ = rest := by simpa using h
    simp only [List.forall_mem_cons] at hn
    exact ⟨trivial, hn.right.right⟩
  case h_3 => simp at h
  case h_2 =>
    rw [List.forall_mem_cons] at hn
    split at h
    case h_1 =>
      have ⟨p, ho, h⟩ := Result.bind_eq_ok_iff.mp h
      obtain ⟨⟨os, ts'⟩, rfl, hp⟩ := Option.map_eq_some_iff.mp (Except.ok.inj h)
      obtain ⟨rfl, rfl⟩ := Prod.mk.inj hp
      have ⟨hl, hw, hr⟩ := operands_spec hn.right ho
      exact ⟨⟨hl, hw⟩, hr⟩
    case h_2 =>
      split at h
      case isFalse => simp at h
      case isTrue =>
        have ⟨⟨vs, ts'⟩, ha, h⟩ := Result.bind_eq_ok_iff.mp h
        cases vs
        case nil => simp at h
        case cons =>
          obtain ⟨rfl, rfl⟩ : .data _ = s ∧ _ = rest := by simpa using h
          exact addresses_spec hn.right ha

theorem statements_spec {fuel : Nat} {ss : List Statement} (hn : ∀ t ∈ ts, t.Numeric)
    (h : statements fuel ts = .ok (ss, rest)) : ∀ s ∈ ss, s.WellFormed := by
  induction fuel generalizing ts ss
  case zero =>
    obtain ⟨rfl, rfl⟩ : [] = ss ∧ ts = rest := by simpa [statements] using h
    simp
  case succ fuel hi =>
    unfold statements at h
    have ⟨p, hs, h⟩ := Result.bind_eq_ok_iff.mp h
    split at h
    case h_2 =>
      obtain ⟨rfl, rfl⟩ : [] = ss ∧ ts = rest := by simpa using h
      simp
    case h_1 s ts' =>
      have ⟨hw, hn'⟩ := statement_spec hn hs
      have ⟨⟨ss', _⟩, hss, h⟩ := Result.bind_eq_ok_iff.mp h
      obtain ⟨rfl, rfl⟩ : s :: ss' = ss ∧ _ = rest := by simpa using h
      simpa using ⟨hw, hi hn' hss⟩

theorem wellFormed_of_parse {source : String} {ss : List Statement} (h : parse source = .ok ss) :
    ∀ s ∈ ss, s.WellFormed := by
  unfold parse parseChars at h
  dsimp only at h
  split at h
  case h_2 hs =>
    obtain rfl := Except.ok.inj h
    exact statements_spec Token.numeric_of_mem_scanFrom hs
  all_goals simp at h

end Grammar

theorem Module.wellFormed_of_parse {m : Module} {ss : List Statement} (h : m.parse = .ok ss) :
    ∀ s ∈ ss, s.WellFormed := by
  unfold parse at h
  split at h
  case h_1 hp =>
    obtain rfl := Except.ok.inj h
    exact Grammar.wellFormed_of_parse hp
  all_goals simp at h

end Assembly
end Intcode
