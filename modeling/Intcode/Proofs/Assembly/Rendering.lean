import Mathlib.Tactic.Common
import Intcode.Assembly.Grammar
import Intcode.Proofs.Assembly.Spelling
import Intcode.Proofs.Decimal
import Intcode.Proofs.Result

namespace Intcode.Assembly

inductive Target.Rendered : Target → List Lexeme → Prop
  | constant {sign : Decimal.Sign} {digits : List Char} :
    Rendered (.constant (sign.apply (Decimal.value digits))) [.literal sign digits]
  | label {name : String} {isolated : Bool} :
    Rendered (.label name) [.mark '&', .word name.toList isolated]

inductive Operand.Rendered : Operand → List Lexeme → Prop
  | positional {t : Target} {ls : List Lexeme} (target : t.Rendered ls) :
    Rendered ⟨Mode.positional, t⟩ ls
  | immediate {t : Target} {ls : List Lexeme} (target : t.Rendered ls) :
    Rendered ⟨Mode.immediate, t⟩ (.mark '#' :: ls)

inductive Comma : List Lexeme → Prop
  | none : Comma []
  | one  : Comma [.mark ',']

inductive Listed {α : Type} (Rendered : α → List Lexeme → Prop) : List α → List Lexeme → Prop
  | nil : Listed Rendered [] []
  | cons {a : α} {as : List α} {ls sep ls' : List Lexeme} (item : Rendered a ls) (comma : Comma sep)
    (rest : Listed Rendered as ls') : Listed Rendered (a :: as) (ls ++ (sep ++ ls'))

-- Any word can be a label. A keyword has to be isolated, and what follows it is a list of operands,
-- as many as the instruction has parameters, or of at least one address.
inductive Statement.Rendered : Statement → List Lexeme → Prop
  | label {name : String} {isolated : Bool} :
    Rendered (.label name) [.word name.toList isolated, .mark ':']
  | instruction {op : Opcode} {os : List Operand} {ls : List Lexeme}
    (operands : Listed Operand.Rendered os ls) (length : os.length = op.arity) :
    Rendered (.instruction op os) (.word op.mnemonic.toList true :: ls)
  | data {vs : List Target} {ls : List Lexeme} (values : Listed Target.Rendered vs ls)
    (nonempty : vs ≠ []) : Rendered (.data vs) (.word "data".toList true :: ls)

inductive Rendered : List Statement → List Lexeme → Prop
  | nil : Rendered [] []
  | cons {s : Statement} {ss : List Statement} {ls ls' : List Lexeme} (statement : s.Rendered ls)
    (rest : Rendered ss ls') : Rendered (s :: ss) (ls ++ ls')

def Renders (text : String) (ss : List Statement) : Prop :=
  ∃ ls, Spells none text.toList ls ∧ Rendered ss ls

def Lexeme.Short : Lexeme → Prop
  | literal _ digits => digits.length ≤ Decimal.limit
  | _                => True

instance : DecidablePred Lexeme.Short
  | .literal _ _ => inferInstanceAs (Decidable (_ ≤ _))
  | .word _ _    => inferInstanceAs (Decidable True)
  | .mark _      => inferInstanceAs (Decidable True)

def ShortLiterals (text : String) : Prop :=
  ∀ ls, Spells none text.toList ls → ∀ l ∈ ls, l.Short

theorem Comma.short {sep : List Lexeme} : Comma sep → ∀ l ∈ sep, l.Short
  | none => by simp
  | one  => by simp [Lexeme.Short]

namespace Grammar

variable {ts rest : List Token} {ls ls' : List Lexeme} {t : Target} {o : Operand}

theorem toList_name (w : List Char) : (name w).toList = w :=
  String.toList_ofList

theorem name_toList (s : String) : name s.toList = s :=
  String.ofList_toList

-- What was read is rendered by the tokens that are no longer there, and none of its literals is too
-- long.
theorem address_sound (h : address ts = .ok (some (t, rest))) :
    ∃ ls, lexemes ts = ls ++ lexemes rest ∧ t.Rendered ls ∧ ∀ l ∈ ls, l.Short := by
  unfold address at h
  split at h
  case h_1 sign digits _ =>
    have ⟨n, hr, h⟩ := Result.bind_eq_ok_iff.mp h
    obtain ⟨rfl, rfl⟩ : .constant n = t ∧ _ = rest := by simpa using h
    have short : (Lexeme.literal sign digits).Short := Decimal.length_le_of_read hr
    exact ⟨[_], rfl, Decimal.read_eq hr ▸ .constant, by simpa using short⟩
  case h_2 w isolated _ =>
    obtain ⟨rfl, rfl⟩ : .label (name w) = t ∧ _ = rest := by simpa using h
    have hr := @Target.Rendered.label (name w) isolated
    rw [toList_name] at hr
    exact ⟨[_, _], rfl, hr, by simp [Lexeme.Short]⟩
  case h_3 => simp at h

theorem operand_sound (h : operand ts = .ok (some (o, rest))) :
    ∃ ls, lexemes ts = ls ++ lexemes rest ∧ o.Rendered ls ∧ ∀ l ∈ ls, l.Short := by
  unfold operand at h
  split at h
  all_goals
    have ⟨p, ha, h⟩ := Result.bind_eq_ok_iff.mp h
    obtain ⟨⟨t, ts'⟩, rfl, hp⟩ := Option.map_eq_some_iff.mp (Except.ok.inj h)
    obtain ⟨rfl, rfl⟩ := Prod.mk.inj hp
    have ⟨ls, he, ht, short⟩ := address_sound ha
  case h_1 =>
    exact ⟨_ :: ls, by simp [he], .immediate ht, List.forall_mem_cons.mpr ⟨trivial, short⟩⟩
  case h_2 => exact ⟨ls, he, .positional ht, short⟩

theorem lexemes_skipComma (ts : List Token) :
    ∃ sep, Comma sep ∧ lexemes ts = sep ++ lexemes (skipComma ts) := by
  unfold skipComma
  split
  case h_1 => exact ⟨_, .one, rfl⟩
  case h_2 => exact ⟨_, .none, rfl⟩

theorem listed_cons {α : Type} {Rendered : α → List Lexeme → Prop} {a : α} {as : List α}
    {ts₁ : List Token} (he : lexemes ts = ls ++ lexemes ts₁)
    (ha : Rendered a ls ∧ ∀ l ∈ ls, l.Short)
    (he' : lexemes (skipComma ts₁) = ls' ++ lexemes rest)
    (has : Listed Rendered as ls' ∧ ∀ l ∈ ls', l.Short) :
    ∃ ls, lexemes ts = ls ++ lexemes rest ∧ Listed Rendered (a :: as) ls ∧ ∀ l ∈ ls, l.Short := by
  obtain ⟨sep, hc, hs⟩ := lexemes_skipComma ts₁
  refine ⟨ls ++ (sep ++ ls'), ?_, .cons ha.left hc has.left, ?_⟩
  · simp only [he, hs, he', List.append_assoc]
  · simpa only [List.forall_mem_append] using ⟨ha.right, hc.short, has.right⟩

theorem operands_sound {n : Nat} {os : List Operand}
    (h : operands n ts = .ok (some (os, rest))) :
    os.length = n ∧ ∃ ls, lexemes ts = ls ++ lexemes rest ∧ Listed Operand.Rendered os ls ∧
      ∀ l ∈ ls, l.Short := by
  induction n generalizing ts os
  case zero =>
    obtain ⟨rfl, rfl⟩ : [] = os ∧ ts = rest := by simpa [operands] using h
    exact ⟨rfl, [], rfl, .nil, by simp⟩
  case succ n hi =>
    unfold operands at h
    have ⟨p, ho, h⟩ := Result.bind_eq_ok_iff.mp h
    split at h
    case h_2 => simp at h
    case h_1 o ts₁ =>
      have ⟨p, hos, h⟩ := Result.bind_eq_ok_iff.mp h
      split at h
      case h_2 => simp at h
      case h_1 os' ts₂ =>
        obtain ⟨rfl, rfl⟩ : o :: os' = os ∧ ts₂ = rest := by simpa using h
        obtain ⟨ls, he, ha⟩ := operand_sound ho
        obtain ⟨hl, ls', he', has⟩ := hi hos
        exact ⟨by simp [hl], listed_cons he ha he' has⟩

theorem addresses_sound {vs : List Target} (h : addresses ts = .ok (vs, rest)) :
    ∃ ls, lexemes ts = ls ++ lexemes rest ∧ Listed Target.Rendered vs ls ∧ ∀ l ∈ ls, l.Short := by
  fun_induction addresses ts generalizing vs
  case case1 => simp at h
  case case2 =>
    obtain ⟨rfl, rfl⟩ : [] = vs ∧ _ = rest := by simpa using h
    exact ⟨[], rfl, .nil, by simp⟩
  case case3 t ts₁ ha hi =>
    have ⟨⟨vs', ts₂⟩, hvs, h⟩ := Result.bind_eq_ok_iff.mp h
    obtain ⟨rfl, rfl⟩ : t :: vs' = vs ∧ ts₂ = rest := by simpa using h
    obtain ⟨ls, he, ht⟩ := address_sound ha
    obtain ⟨ls', he', hts⟩ := hi hvs
    exact listed_cons he ht he' hts

theorem mnemonic?_eq_some_iff {w : List Char} {op : Opcode} :
    mnemonic? w = some op ↔ w = op.mnemonic.toList := by
  constructor
  case mp =>
    intro h
    have := List.find?_some h
    exact (by simpa using this : op.mnemonic.toList = w).symm
  case mpr =>
    rintro rfl
    cases op <;> decide

theorem statement_sound {s : Statement} (h : statement ts = .ok (some (s, rest))) :
    ∃ ls, lexemes ts = ls ++ lexemes rest ∧ s.Rendered ls ∧ ∀ l ∈ ls, l.Short := by
  unfold statement at h
  split at h
  case h_1 w isolated _ _ =>
    obtain ⟨rfl, rfl⟩ : .label (name w) = s ∧ _ = rest := by simpa using h
    have hr := @Statement.Rendered.label (name w) isolated
    rw [toList_name] at hr
    exact ⟨[_, _], rfl, hr, by simp [Lexeme.Short]⟩
  case h_3 => simp at h
  case h_2 =>
    split at h
    case h_1 op hop =>
      have ⟨p, ho, h⟩ := Result.bind_eq_ok_iff.mp h
      obtain ⟨⟨os, ts'⟩, rfl, hp⟩ := Option.map_eq_some_iff.mp (Except.ok.inj h)
      obtain ⟨rfl, rfl⟩ := Prod.mk.inj hp
      obtain ⟨hl, ls, he, hos, short⟩ := operands_sound ho
      obtain rfl := mnemonic?_eq_some_iff.mp hop
      exact ⟨_ :: ls, by simp [he], .instruction hos hl,
        List.forall_mem_cons.mpr ⟨trivial, short⟩⟩
    case h_2 =>
      split at h
      case isFalse => simp at h
      case isTrue hw =>
        have ⟨⟨vs, ts'⟩, ha, h⟩ := Result.bind_eq_ok_iff.mp h
        cases vs
        case nil => simp at h
        case cons =>
          obtain ⟨rfl, rfl⟩ : .data _ = s ∧ _ = rest := by simpa using h
          obtain ⟨ls, he, hvs, short⟩ := addresses_sound ha
          obtain rfl := hw
          exact ⟨_ :: ls, by simp [he], .data hvs (by simp),
            List.forall_mem_cons.mpr ⟨trivial, short⟩⟩

theorem statements_sound {fuel : Nat} {ss : List Statement}
    (h : statements fuel ts = .ok (ss, rest)) :
    ∃ ls, lexemes ts = ls ++ lexemes rest ∧ Rendered ss ls ∧ ∀ l ∈ ls, l.Short := by
  induction fuel generalizing ts ss
  case zero =>
    obtain ⟨rfl, rfl⟩ : [] = ss ∧ ts = rest := by simpa [statements] using h
    exact ⟨[], rfl, .nil, by simp⟩
  case succ fuel hi =>
    unfold statements at h
    have ⟨p, hs, h⟩ := Result.bind_eq_ok_iff.mp h
    split at h
    case h_2 =>
      obtain ⟨rfl, rfl⟩ : [] = ss ∧ ts = rest := by simpa using h
      exact ⟨[], rfl, .nil, by simp⟩
    case h_1 s ts' =>
      have ⟨⟨ss', _⟩, hss, h⟩ := Result.bind_eq_ok_iff.mp h
      obtain ⟨rfl, rfl⟩ : s :: ss' = ss ∧ _ = rest := by simpa using h
      obtain ⟨ls, he, hr, short⟩ := statement_sound hs
      obtain ⟨ls', he', hrs, short'⟩ := hi hss
      exact ⟨ls ++ ls', by rw [he, he', List.append_assoc], .cons hr hrs,
        List.forall_mem_append.mpr ⟨short, short'⟩⟩

theorem lexemes_eq_cons {l : Lexeme} (h : lexemes ts = l :: ls) :
    ∃ offset ts', ts = ⟨offset, l⟩ :: ts' ∧ lexemes ts' = ls := by
  obtain ⟨⟨offset, _⟩, ts', rfl, rfl, rfl⟩ := List.map_eq_cons_iff.mp h
  exact ⟨offset, ts', rfl, rfl⟩

theorem address_complete (h : t.Rendered ls) (short : ∀ l ∈ ls, l.Short)
    (hts : lexemes ts = ls ++ ls') :
    ∃ rest, lexemes rest = ls' ∧ address ts = .ok (some (t, rest)) := by
  cases h
  case constant sign digits =>
    obtain ⟨_, rest, rfl, hr⟩ := lexemes_eq_cons hts
    have hl : digits.length ≤ Decimal.limit := short (.literal sign digits) (by simp)
    exact ⟨rest, hr, by simp [address, Decimal.read_of_length_le sign hl]⟩
  case label name _ =>
    obtain ⟨_, ts', rfl, hts'⟩ := lexemes_eq_cons hts
    obtain ⟨_, rest, rfl, hr⟩ := lexemes_eq_cons hts'
    exact ⟨rest, hr, by simp [address, name_toList]⟩

theorem operand_complete (h : o.Rendered ls) (short : ∀ l ∈ ls, l.Short)
    (hts : lexemes ts = ls ++ ls') :
    ∃ rest, lexemes rest = ls' ∧ operand ts = .ok (some (o, rest)) := by
  cases h
  case immediate ls h =>
    obtain ⟨_, ts', rfl, hts'⟩ := lexemes_eq_cons hts
    obtain ⟨rest, hr, ha⟩ := address_complete h (List.forall_mem_cons.mp short).right hts'
    exact ⟨rest, hr, by simp [operand, ha]⟩
  case positional h =>
    obtain ⟨rest, hr, ha⟩ := address_complete h short hts
    refine ⟨rest, hr, ?_⟩
    cases h
    all_goals
      obtain ⟨_, ts', rfl, -⟩ := lexemes_eq_cons hts
      simp [operand, ha]

def Clear (ls : List Lexeme) : Prop :=
  ∀ l ∈ ls.head?, l ≠ .mark ',' ∧ l ≠ .mark ':'

def AtStatement (ls : List Lexeme) : Prop :=
  ∀ l ∈ ls.head?, ∃ w isolated, l = .word w isolated

theorem AtStatement.clear (h : AtStatement ls) : Clear ls := by
  intro l hl
  obtain ⟨w, isolated, rfl⟩ := h l hl
  simp

theorem skipComma_of_clear (h : Clear (lexemes ts)) : skipComma ts = ts := by
  unfold skipComma
  split
  case h_1 => simp [Clear] at h
  case h_2 => rfl

theorem lexemes_skipComma_of_comma {sep : List Lexeme} (h : Comma sep)
    (hts : lexemes ts = sep ++ ls) (hc : Clear ls) : lexemes (skipComma ts) = ls := by
  cases h
  case none => rw [skipComma_of_clear (hts ▸ hc), hts, List.nil_append]
  case one =>
    obtain ⟨_, ts', rfl, hts'⟩ := lexemes_eq_cons hts
    exact hts'

end Grammar

theorem Target.Rendered.clear {t : Target} {ls : List Lexeme} (ls' : List Lexeme) :
    t.Rendered ls → Grammar.Clear (ls ++ ls')
  | constant => by simp [Grammar.Clear]
  | label    => by simp [Grammar.Clear]

theorem Operand.Rendered.clear {o : Operand} {ls : List Lexeme} (ls' : List Lexeme) :
    o.Rendered ls → Grammar.Clear (ls ++ ls')
  | positional h => h.clear ls'
  | immediate _  => by simp [Grammar.Clear]

theorem Listed.clear {α : Type} {Rendered : α → List Lexeme → Prop} {as : List α}
    {ls ls' : List Lexeme} (hr : ∀ {a ls} (ls' : List Lexeme), Rendered a ls →
      Grammar.Clear (ls ++ ls')) (hc : Grammar.Clear ls') :
    Listed Rendered as ls → Grammar.Clear (ls ++ ls')
  | nil        => hc
  | cons h _ _ => by
    rw [List.append_assoc]
    exact hr _ h

namespace Grammar

variable {ts rest : List Token} {ls ls' : List Lexeme} {t : Target} {o : Operand}

theorem operands_complete {os : List Operand} (h : Listed Operand.Rendered os ls)
    (short : ∀ l ∈ ls, l.Short) (hs : AtStatement ls') (hts : lexemes ts = ls ++ ls') :
    ∃ rest, lexemes rest = ls' ∧ operands os.length ts = .ok (some (os, rest)) := by
  induction h generalizing ts
  case nil => exact ⟨ts, hts, rfl⟩
  case cons o os ls₁ sep ls₂ ho hsep hos hi =>
    simp only [List.forall_mem_append] at short
    rw [List.append_assoc, List.append_assoc] at hts
    obtain ⟨ts₁, h₁, ha⟩ := operand_complete ho short.left hts
    have h₂ := lexemes_skipComma_of_comma hsep h₁ (hos.clear Operand.Rendered.clear hs.clear)
    obtain ⟨rest, hr, has⟩ := hi short.right.right h₂
    exact ⟨rest, hr, by simp [operands, ha, has]⟩

theorem address_of_atStatement (h : AtStatement (lexemes ts)) : address ts = .ok none := by
  cases ts
  case nil => rfl
  case cons t ts =>
    obtain ⟨offset, l⟩ := t
    obtain ⟨w, isolated, rfl⟩ := h l rfl
    rfl

theorem addresses_complete {vs : List Target} (h : Listed Target.Rendered vs ls)
    (short : ∀ l ∈ ls, l.Short) (hs : AtStatement ls') (hts : lexemes ts = ls ++ ls') :
    ∃ rest, lexemes rest = ls' ∧ addresses ts = .ok (vs, rest) := by
  induction h generalizing ts
  case nil =>
    have ha := address_of_atStatement (hts ▸ hs : AtStatement (lexemes ts))
    refine ⟨ts, hts, ?_⟩
    rw [addresses]
    split <;> simp_all
  case cons t vs ls₁ sep ls₂ ht hsep hvs hi =>
    simp only [List.forall_mem_append] at short
    rw [List.append_assoc, List.append_assoc] at hts
    obtain ⟨ts₁, h₁, ha⟩ := address_complete ht short.left hts
    have h₂ := lexemes_skipComma_of_comma hsep h₁ (hvs.clear Target.Rendered.clear hs.clear)
    obtain ⟨rest, hr, has⟩ := hi short.right.right h₂
    refine ⟨rest, hr, ?_⟩
    rw [addresses]
    split <;> simp_all

theorem Clear.ne_colon (h : Clear (lexemes ts)) :
    ∀ offset ts', ts = ⟨offset, .mark ':'⟩ :: ts' → False := by
  rintro offset ts' rfl
  simp [Clear] at h

theorem mnemonic?_data : mnemonic? "data".toList = none := by
  decide

theorem statement_complete {s : Statement} (h : s.Rendered ls) (short : ∀ l ∈ ls, l.Short)
    (hs : AtStatement ls') (hts : lexemes ts = ls ++ ls') :
    ∃ rest, lexemes rest = ls' ∧ statement ts = .ok (some (s, rest)) := by
  cases h
  case label name _ =>
    obtain ⟨_, ts', rfl, hts'⟩ := lexemes_eq_cons hts
    obtain ⟨_, rest, rfl, hr⟩ := lexemes_eq_cons hts'
    exact ⟨rest, hr, by simp [statement, name_toList]⟩
  case instruction op os ls hos hl =>
    obtain ⟨_, ts', rfl, hts'⟩ := lexemes_eq_cons hts
    have hc : Clear (lexemes ts') := hts' ▸ hos.clear Operand.Rendered.clear hs.clear
    obtain ⟨rest, hr, ho⟩ :=
      operands_complete hos (List.forall_mem_cons.mp short).right hs hts'
    refine ⟨rest, hr, ?_⟩
    rw [statement, mnemonic?_eq_some_iff.mpr rfl]
    · simp [←hl, ho]
    · exact hc.ne_colon
  case data vs ls hvs hn =>
    obtain ⟨_, ts', rfl, hts'⟩ := lexemes_eq_cons hts
    have hc : Clear (lexemes ts') := hts' ▸ hvs.clear Target.Rendered.clear hs.clear
    obtain ⟨rest, hr, ha⟩ :=
      addresses_complete hvs (List.forall_mem_cons.mp short).right hs hts'
    obtain ⟨v, vs, rfl⟩ := List.exists_cons_of_ne_nil hn
    refine ⟨rest, hr, ?_⟩
    rw [statement, mnemonic?_data]
    · simp [ha]
    · exact hc.ne_colon

end Grammar

theorem Rendered.atStatement {ss : List Statement} {ls : List Lexeme} :
    Rendered ss ls → Grammar.AtStatement ls
  | nil      => by simp [Grammar.AtStatement]
  | cons h _ => by cases h <;> exact fun _ hl => ⟨_, _, (Option.some.inj hl).symm⟩

theorem Rendered.length_le {ss : List Statement} {ls : List Lexeme} (h : Rendered ss ls) :
    ss.length ≤ ls.length := by
  induction h
  case nil => rfl
  case cons hs _ hi =>
    cases hs <;> simp only [List.length_append, List.length_cons] <;> omega

namespace Grammar

variable {ts rest : List Token} {ls ls' : List Lexeme} {ss : List Statement}

theorem statements_complete {fuel : Nat} (h : Rendered ss ls) (short : ∀ l ∈ ls, l.Short)
    (hts : lexemes ts = ls) (hf : ss.length ≤ fuel) : statements fuel ts = .ok (ss, []) := by
  induction h generalizing ts fuel
  case nil =>
    obtain rfl : ts = [] := List.map_eq_nil_iff.mp hts
    cases fuel <;> rfl
  case cons s ss ls₁ ls₂ hs hss hi =>
    rw [List.forall_mem_append] at short
    obtain ⟨fuel, rfl⟩ : ∃ k, fuel = k + 1 := ⟨fuel - 1, by rw [List.length_cons] at hf; omega⟩
    obtain ⟨rest, hr, h₁⟩ := statement_complete hs short.left hss.atStatement hts
    have h₂ := hi short.right hr (Nat.le_of_succ_le_succ hf)
    simp [statements, h₁, h₂]

theorem short_of_append (short : ∀ l ∈ lexemes ts, l.Short) (h : lexemes ts = ls ++ lexemes rest) :
    ∀ l ∈ lexemes rest, l.Short := by
  rw [h, List.forall_mem_append] at short
  exact short.right

theorem address_returns (short : ∀ l ∈ lexemes ts, l.Short) : ∃ p, address ts = .ok p := by
  unfold address
  split
  case h_1 sign digits _ =>
    have hl : digits.length ≤ Decimal.limit := short (.literal sign digits) (by simp)
    exact ⟨_, by rw [Decimal.read_of_length_le sign hl]; rfl⟩
  case h_2 => exact ⟨_, rfl⟩
  case h_3 => exact ⟨_, rfl⟩

theorem operand_returns (short : ∀ l ∈ lexemes ts, l.Short) : ∃ p, operand ts = .ok p := by
  unfold operand
  split
  case h_1 =>
    have ⟨p, h⟩ := address_returns (List.forall_mem_cons.mp short).right
    exact ⟨_, by rw [h]; rfl⟩
  case h_2 =>
    have ⟨p, h⟩ := address_returns short
    exact ⟨_, by rw [h]; rfl⟩

theorem skipComma_short (short : ∀ l ∈ lexemes ts, l.Short) :
    ∀ l ∈ lexemes (skipComma ts), l.Short := by
  have ⟨_, _, h⟩ := lexemes_skipComma ts
  exact short_of_append short h

theorem operands_returns (n : Nat) (short : ∀ l ∈ lexemes ts, l.Short) :
    ∃ p, operands n ts = .ok p := by
  induction n generalizing ts
  case zero => exact ⟨_, rfl⟩
  case succ n hi =>
    obtain ⟨_ | ⟨o, ts₁⟩, ho⟩ := operand_returns short
    case none => exact ⟨_, by rw [operands, ho]; rfl⟩
    case some =>
      obtain ⟨ls, he, -⟩ := operand_sound ho
      obtain ⟨_ | ⟨os, ts₂⟩, hos⟩ := hi (skipComma_short (short_of_append short he))
      case none => exact ⟨_, by simp only [operands, ho, hos, Result.ok_bind]; rfl⟩
      case some => exact ⟨_, by simp only [operands, ho, hos, Result.ok_bind]; rfl⟩

theorem addresses_returns (short : ∀ l ∈ lexemes ts, l.Short) : ∃ p, addresses ts = .ok p := by
  fun_induction addresses ts
  case case1 h =>
    obtain ⟨p, hp⟩ := address_returns short
    simp [hp] at h
  case case2 => exact ⟨_, rfl⟩
  case case3 t ts₁ ha hi =>
    obtain ⟨ls, he, -⟩ := address_sound ha
    obtain ⟨p, hp⟩ := hi (skipComma_short (short_of_append short he))
    exact ⟨_, by rw [hp]; rfl⟩

theorem statement_returns (short : ∀ l ∈ lexemes ts, l.Short) : ∃ p, statement ts = .ok p := by
  unfold statement
  split
  case h_1 => exact ⟨_, rfl⟩
  case h_3 => exact ⟨_, rfl⟩
  case h_2 w ts' _ =>
    have short' := (List.forall_mem_cons.mp short).right
    split
    case h_1 op _ =>
      obtain ⟨p, hp⟩ := operands_returns op.arity short'
      exact ⟨_, by rw [hp]; rfl⟩
    case h_2 =>
      split
      case isFalse => exact ⟨_, rfl⟩
      case isTrue =>
        obtain ⟨⟨vs, rest⟩, hp⟩ := addresses_returns short'
        rw [hp, Result.ok_bind]
        cases vs
        case nil  => exact ⟨_, rfl⟩
        case cons => exact ⟨_, rfl⟩

theorem statements_returns (fuel : Nat) (short : ∀ l ∈ lexemes ts, l.Short) :
    ∃ p, statements fuel ts = .ok p := by
  induction fuel generalizing ts
  case zero => exact ⟨_, rfl⟩
  case succ fuel hi =>
    obtain ⟨_ | ⟨s, rest⟩, hs⟩ := statement_returns short
    case none => exact ⟨_, by rw [statements, hs]; rfl⟩
    case some =>
      obtain ⟨ls, he, -⟩ := statement_sound hs
      obtain ⟨p, hp⟩ := hi (short_of_append short he)
      exact ⟨_, by simp only [statements, hs, hp, Result.ok_bind]; rfl⟩

variable {text : String}

theorem spells_scan (text : String) :
    Spells none text.toList (lexemes (Token.scan (Text.expandTabs text.toList))) := by
  have h := spells_scanFrom 0 none text.toList
  have he := (h.expandFrom 0).scanFrom 0
  rwa [Token.scan, Text.expandTabs, he]

theorem shortLiterals_of_scan
    (h : ∀ l ∈ lexemes (Token.scan (Text.expandTabs text.toList)), l.Short) :
    ShortLiterals text :=
  fun _ hs => hs.deterministic (spells_scan text) ▸ h

theorem parse_eq_ok_iff :
    parse text = .ok ss ↔
      statements (Token.scan (Text.expandTabs text.toList)).length
        (Token.scan (Text.expandTabs text.toList)) = .ok (ss, []) := by
  rw [parse, parseChars]
  split <;> simp_all

theorem renders_of_parse (h : parse text = .ok ss) : Renders text ss := by
  obtain ⟨ls, he, hr, -⟩ := statements_sound (parse_eq_ok_iff.mp h)
  have hs := spells_scan text
  rw [he, lexemes_nil, List.append_nil] at hs
  exact ⟨ls, hs, hr⟩

theorem shortLiterals_of_parse (h : parse text = .ok ss) : ShortLiterals text := by
  obtain ⟨ls, he, -, short⟩ := statements_sound (parse_eq_ok_iff.mp h)
  rw [lexemes_nil, List.append_nil] at he
  exact shortLiterals_of_scan (he ▸ short)

theorem parse_of_renders (short : ShortLiterals text) : Renders text ss → parse text = .ok ss := by
  rintro ⟨ls, hs, hr⟩
  obtain rfl := hs.deterministic (spells_scan text)
  refine parse_eq_ok_iff.mpr <| statements_complete hr (short _ hs) rfl ?_
  simpa [lexemes] using hr.length_le

theorem parse_of_short (short : ShortLiterals text) :
    (∃ ss, parse text = .ok ss) ∨ ∃ place, parse text = .error (.mismatch place) := by
  obtain ⟨⟨ss, rest⟩, h⟩ := statements_returns _ (short _ (spells_scan text))
  rw [parse, parseChars, h]
  cases rest
  case nil  => exact .inl ⟨_, rfl⟩
  case cons => exact .inr ⟨_, rfl⟩

-- For every source whose literals are short enough: it is read as some statements exactly if it
-- renders them, and it renders one list of statements at most.
theorem parse_accepts_grammar (text : String) (short : ShortLiterals text) :
    (∀ ss, parse text = .ok ss ↔ Renders text ss) ∧
      ∀ ss ss', Renders text ss → Renders text ss' → ss = ss' := by
  have h (ss) : parse text = .ok ss ↔ Renders text ss := ⟨renders_of_parse, parse_of_renders short⟩
  refine ⟨h, fun ss ss' hs hs' => ?_⟩
  exact Except.ok.inj ((h ss).mpr hs |>.symm.trans <| (h ss').mpr hs')

def crowded : String :=
  "add:data &add,-1+2//3\n\thlt"

theorem parse_accepts_grammar_crowded :
    ShortLiterals crowded ∧
      Renders crowded
        [.label "add", .data [.label "add", .constant (-1), .constant 2], .instruction .halt []] :=
  have short : ShortLiterals crowded := shortLiterals_of_scan (by decide +kernel)
  ⟨short, (parse_accepts_grammar crowded short).left _ |>.mp (by decide +kernel)⟩

end Grammar
end Intcode.Assembly
