import Mathlib.Data.List.TakeWhile
import Intcode.Assembly.Token
import Intcode.Proofs.Text

namespace Intcode.Assembly

open Text (Stops isGap)
open Text.Literal (Begins)
open Token (isWordStart isWordPart isBoundary startsComment scanFrom)

structure Free (c : Char) (cs : List Char) : Prop where
  blank   : isGap c = false
  comment : startsComment (c :: cs) = false
  word    : isWordStart c = false
  literal : ∀ l, ¬Begins (c :: cs) l

-- The tokens that a text spells, which stands after some character. Words and literals are as long
-- as they can be, and blanks and comments may stand anywhere around them. After a comment there is
-- a line end or nothing, so it does not matter which character was its last.
inductive Spells : Option Char → List Char → List Lexeme → Prop
  | nil {previous : Option Char} : Spells previous [] []
  | blank {previous : Option Char} {c : Char} {cs : List Char} {ls : List Lexeme}
    (blank : isGap c = true) (rest : Spells (some c) cs ls) : Spells previous (c :: cs) ls
  | comment {previous : Option Char} {body cs : List Char} {ls : List Lexeme}
    (line : '\n' ∉ body) (stops : Stops (· ≠ '\n') cs) (rest : Spells none cs ls) :
    Spells previous ('/' :: '/' :: body ++ cs) ls
  | word {previous : Option Char} {c : Char} {more cs : List Char} {ls : List Lexeme}
    (start : isWordStart c = true) (part : ∀ c ∈ more, isWordPart c = true)
    (stops : Stops isWordPart cs) (rest : Spells (c :: more).getLast? cs ls) :
    Spells previous (c :: more ++ cs)
      (.word (c :: more) (isBoundary previous && isBoundary cs.head?) :: ls)
  | literal {previous : Option Char} {cs : List Char} {sign : Decimal.Sign}
    {digits after : List Char} {ls : List Lexeme} (begins : Begins cs ⟨sign, digits, after⟩)
    (rest : Spells digits.getLast? after ls) : Spells previous cs (.literal sign digits :: ls)
  | mark {previous : Option Char} {c : Char} {cs : List Char} {ls : List Lexeme}
    (free : Free c cs) (rest : Spells (some c) cs ls) : Spells previous (c :: cs) (.mark c :: ls)

variable {previous : Option Char} {c : Char} {cs body more : List Char}
variable {l : Text.Literal} {ls ls' : List Lexeme}

def lexemes (ts : List Token) : List Lexeme :=
  ts.map (·.lexeme)

@[simp] theorem lexemes_nil : lexemes [] = [] :=
  rfl

@[simp] theorem lexemes_cons (t : Token) (ts : List Token) :
    lexemes (t :: ts) = t.lexeme :: lexemes ts :=
  rfl

namespace Token

theorem isWordStart_of_isDigit (h : c.isDigit = true) : isWordStart c = false := by
  have hd : 48 ≤ c.val.toNat ∧ c.val.toNat ≤ 57 := Char.isDigit_iff_toNat.mp h
  have hu : c ≠ '_' := by
    rintro rfl
    simp at h
  simp only [isWordStart, isLetter, Char.le_def, UInt32.le_iff_toNat_le, Bool.or_eq_false_iff,
    Bool.and_eq_false_iff, decide_eq_false_iff_not, beq_eq_false_iff_ne]
  refine ⟨?_, hu⟩
  change (¬97 ≤ c.val.toNat ∨ ¬c.val.toNat ≤ 122) ∧ (¬65 ≤ c.val.toNat ∨ ¬c.val.toNat ≤ 90)
  omega

theorem isGap_of_isWordPart (h : isWordPart c = true) : isGap c = false := by
  by_contra hg
  simp only [isGap, Bool.not_eq_false, Bool.or_eq_true, beq_iff_eq] at hg
  rcases hg with ((rfl | rfl) | rfl) | rfl <;> revert h <;> decide

theorem startsComment_of_ne (h : c ≠ '/') (cs : List Char) : startsComment (c :: cs) = false := by
  unfold startsComment
  split
  case h_1 he =>
    obtain ⟨rfl, -⟩ := List.cons.inj he
    exact absurd rfl h
  case h_2 => rfl

theorem startsComment_eq_true_iff :
    startsComment (c :: cs) = true ↔ c = '/' ∧ cs.head? = some '/' := by
  cases cs
  case nil => by_cases h : c = '/' <;> simp [startsComment]
  case cons d cs =>
    constructor
    case mp =>
      intro h
      unfold startsComment at h
      split at h
      case h_1 he => simp_all
      case h_2    => simp at h
    case mpr =>
      rintro ⟨rfl, hd⟩
      obtain rfl : d = '/' := by simpa using hd
      rfl

theorem free_of_begins (h : Begins (c :: cs) l) :
    isGap c = false ∧ startsComment (c :: cs) = false ∧ isWordStart c = false := by
  obtain hd | ⟨rfl | rfl, -⟩ := Text.Literal.exists_begins_iff.mp ⟨l, h⟩
  case inl =>
    have hc : c ≠ '/' := by
      rintro rfl
      simp at hd
    have hg := Text.isGap_of_not_isBlank (Text.isBlank_of_isDigit hd)
    exact ⟨hg, startsComment_of_ne hc cs, isWordStart_of_isDigit hd⟩
  all_goals exact ⟨by decide, startsComment_of_ne (by decide) cs, by decide⟩

theorem scanFrom_blank (offset : Nat) (previous : Option Char) (h : isGap c = true) :
    scanFrom offset previous (c :: cs) = scanFrom (offset + 1) (some c) cs := by
  rw [scanFrom, if_pos h]

theorem scanFrom_comment (offset : Nat) (previous : Option Char) (hl : '\n' ∉ body)
    (hs : Stops (· ≠ '\n') cs) :
    ∃ offset', scanFrom offset previous ('/' :: '/' :: body ++ cs) = scanFrom offset' none cs := by
  have hb : ∀ c ∈ '/' :: body, decide (c ≠ '\n') = true := by
    intro c hc
    obtain rfl | hc := List.mem_cons.mp hc
    · decide
    · exact decide_eq_true fun he => hl (he ▸ hc)
  have hd : ('/' :: body ++ cs).dropWhile (· ≠ '\n') = cs := hs.dropWhile_append hb
  have hc : startsComment ('/' :: ('/' :: body ++ cs)) = true := rfl
  rw [List.cons_append, scanFrom, if_neg (by decide), if_pos hc, hd]
  exact ⟨_, rfl⟩

theorem scanFrom_word (offset : Nat) (previous : Option Char) (hc : isWordStart c = true)
    (hm : ∀ c ∈ more, isWordPart c = true) (hs : Stops isWordPart cs) :
    ∃ offset', scanFrom offset previous (c :: more ++ cs) =
      ⟨offset, .word (c :: more) (isBoundary previous && isBoundary cs.head?)⟩ ::
        scanFrom offset' (c :: more).getLast? cs := by
  have hg := isGap_of_isWordPart (isWordPart_of_isWordStart hc)
  have hn : c ≠ '/' := by
    rintro rfl
    revert hc
    decide
  rw [List.cons_append, scanFrom, if_neg (by simp [hg]), if_neg (by simp [startsComment_of_ne hn]),
    if_pos hc, hs.takeWhile_append hm, hs.dropWhile_append hm]
  exact ⟨_, rfl⟩

theorem scanFrom_literal (offset : Nat) (previous : Option Char) (h : Begins cs l) :
    ∃ offset', scanFrom offset previous cs =
      ⟨offset, .literal l.sign l.digits⟩ :: scanFrom offset' l.digits.getLast? l.rest := by
  have hr := h.read?
  cases cs
  case nil => simp [Text.Literal.read?, Text.Literal.splitSign] at hr
  case cons c cs =>
    obtain ⟨hg, hc, hw⟩ := free_of_begins h
    rw [scanFrom, if_neg (by simp [hg]), if_neg (by simp [hc]), if_neg (by simp [hw])]
    split
    case h_1 hr' =>
      obtain rfl := Option.some.inj (hr.symm.trans hr')
      exact ⟨_, rfl⟩
    case h_2 hr' => simp [hr] at hr'

theorem scanFrom_mark (offset : Nat) (previous : Option Char) (h : Free c cs) :
    scanFrom offset previous (c :: cs) =
      ⟨offset, .mark c⟩ :: scanFrom (offset + 1) (some c) cs := by
  have hr := Text.Literal.read?_eq_none_iff.mpr h.literal
  rw [scanFrom, if_neg (by simp [h.blank]), if_neg (by simp [h.comment]),
    if_neg (by simp [h.word])]
  split
  case h_1 hr' => simp [hr] at hr'
  case h_2     => rfl

end Token

theorem Spells.scanFrom (h : Spells previous cs ls) (offset : Nat) :
    lexemes (scanFrom offset previous cs) = ls := by
  induction h generalizing offset
  case nil => simp [Token.scanFrom]
  case blank hb _ hi => rw [Token.scanFrom_blank _ _ hb, hi]
  case comment previous _ _ _ hl hs _ hi =>
    obtain ⟨offset', he⟩ := Token.scanFrom_comment offset previous hl hs
    rw [he, hi]
  case word previous _ _ _ _ hc hm hs _ hi =>
    obtain ⟨offset', he⟩ := Token.scanFrom_word offset previous hc hm hs
    rw [he, lexemes_cons, hi]
  case literal previous _ _ _ _ _ hl _ hi =>
    obtain ⟨offset', he⟩ := Token.scanFrom_literal offset previous hl
    rw [he, lexemes_cons, hi]
  case mark hf _ hi => rw [Token.scanFrom_mark _ _ hf, lexemes_cons, hi]

theorem startsComment_spec (h : startsComment (c :: cs) = true) :
    ∃ body rest, c :: cs = '/' :: '/' :: body ++ rest ∧ '\n' ∉ body ∧ Stops (· ≠ '\n') rest ∧
      cs.dropWhile (· ≠ '\n') = rest := by
  obtain ⟨rfl, hd⟩ := Token.startsComment_eq_true_iff.mp h
  obtain ⟨cs, rfl⟩ := List.head?_eq_some_iff.mp hd
  refine ⟨cs.takeWhile (· ≠ '\n'), cs.dropWhile (· ≠ '\n'), ?_, ?_, .dropWhile _ _, by simp⟩
  · simp [List.takeWhile_append_dropWhile]
  · intro hn
    simpa using List.mem_takeWhile_imp hn

theorem spells_scanFrom (offset : Nat) (previous : Option Char) (cs : List Char) :
    Spells previous cs (lexemes (scanFrom offset previous cs)) := by
  fun_induction scanFrom offset previous cs
  case case1 => exact .nil
  case case2 hg hi => exact .blank hg hi
  case case3 hc hi =>
    obtain ⟨body, rest, he, hl, hs, hd⟩ := startsComment_spec hc
    rw [hd, he] at hi ⊢
    exact .comment hl hs hi
  case case4 c rest _ _ hw more after isolated hi =>
    have he : c :: rest = c :: more ++ after := by
      rw [List.cons_append, List.takeWhile_append_dropWhile]
    rw [he]
    exact .word hw (fun _ => List.mem_takeWhile_imp) (.dropWhile _ _) hi
  case case5 hr hi => exact .literal (Text.Literal.read?_eq_some_iff.mp hr) hi
  case case6 hg hc hw hr hi =>
    have hf : Free _ _ := ⟨by simpa using hg, by simpa using hc, by simpa using hw,
      Text.Literal.read?_eq_none_iff.mp hr⟩
    exact .mark hf hi

theorem spells_iff (offset : Nat) :
    Spells previous cs ls ↔ lexemes (scanFrom offset previous cs) = ls :=
  ⟨fun h => h.scanFrom offset, fun h => h ▸ spells_scanFrom offset previous cs⟩

theorem Spells.deterministic (h : Spells previous cs ls) (h' : Spells previous cs ls') : ls = ls' :=
  (spells_iff 0 |>.mp h).symm.trans (spells_iff 0 |>.mp h')

-- Only whether a keyword may stand beside it matters of the character before a text.
theorem Spells.of_isBoundary {previous' : Option Char} :
    Spells previous cs ls → isBoundary previous = isBoundary previous' → Spells previous' cs ls
  | nil,             _ => .nil
  | blank hg h,      _ => .blank hg h
  | comment hl hs h, _ => .comment hl hs h
  | word hc hm hs h, e => e ▸ .word hc hm hs h
  | literal hl h,    _ => .literal hl h
  | mark hf h,       _ => .mark hf h

theorem Spells.spaces (n : Nat) (h : Spells (some ' ') cs ls) :
    Spells (some ' ') (List.replicate n ' ' ++ cs) ls := by
  induction n
  case zero      => exact h
  case succ n hi => exact .blank rfl hi

section Tabs

open Text.Tabs

variable {column : Nat}

theorem isBoundary_head?_expandFrom :
    isBoundary (expandFrom column cs).head? = isBoundary cs.head? := by
  rw [head?_expandFrom]
  cases cs
  case nil => rfl
  case cons c cs =>
    by_cases h : c = '\t'
    case pos => subst h; rfl
    case neg => simp [h]

theorem Free.expandFrom (h : Free c cs) (column : Nat) : Free c (expandFrom column cs) where
  blank   := h.blank
  word    := h.word
  literal := not_exists.mp <| Text.Literal.exists_begins_expandFrom_iff.not.mpr <|
    not_exists.mpr h.literal
  comment := by
    have hc := h.comment
    rw [←Bool.not_eq_true, Token.startsComment_eq_true_iff] at hc ⊢
    rw [head?_expandFrom]
    rintro ⟨rfl, hd⟩
    obtain ⟨d, hd, he⟩ := Option.map_eq_some_iff.mp hd
    split at he
    case isTrue  => simp at he
    case isFalse => exact hc ⟨rfl, he ▸ hd⟩

theorem expandFrom_comment (column : Nat) (hl : '\n' ∉ body) (cs : List Char) :
    ∃ body' column', expandFrom column ('/' :: '/' :: body ++ cs) =
      '/' :: '/' :: body' ++ expandFrom column' cs ∧ '\n' ∉ body' := by
  have ⟨column₁, h₁⟩ := expandFrom_of_ne_tab column (by decide : '/' ≠ '\t') ('/' :: body ++ cs)
  have ⟨column₂, h₂⟩ := expandFrom_of_ne_tab column₁ (by decide : '/' ≠ '\t') (body ++ cs)
  have ⟨column', h₃⟩ := expandFrom_append column₂ body cs
  refine ⟨expandFrom column₂ body, column', ?_, ?_⟩
  · rw [List.cons_append, h₁, List.cons_append, h₂, h₃]
    rfl
  · exact fun h => hl (mem_of_mem_expandFrom h (by decide))

-- Spaces in the place of tabs change nothing.
theorem Spells.expandFrom (h : Spells previous cs ls) (column : Nat) :
    Spells previous (expandFrom column cs) ls := by
  induction h generalizing column
  case nil => exact .nil
  case blank c cs _ hg _ hi =>
    by_cases hc : c = '\t'
    case pos =>
      subst hc
      have ⟨n, column', he⟩ := expandFrom_tab column cs
      exact he ▸ .blank rfl (.spaces n (hi column' |>.of_isBoundary rfl))
    case neg =>
      have ⟨column', he⟩ := expandFrom_of_ne_tab column hc cs
      exact he ▸ .blank hg (hi column')
  case comment cs _ hl hs _ hi =>
    have ⟨body', column', he, hl'⟩ := expandFrom_comment column hl cs
    exact he ▸ .comment hl' (stops_expandFrom rfl |>.mpr hs) (hi column')
  case word previous c more cs _ hc hm hs _ hi =>
    have ht : '\t' ∉ c :: more := by
      intro ht
      obtain rfl | ht := List.mem_cons.mp ht
      · exact absurd hc (by decide)
      · exact absurd (hm _ ht) (by decide)
    have ⟨column', he⟩ := expandFrom_append_of_notMem column ht cs
    rw [he, ←isBoundary_head?_expandFrom]
    exact .word hc hm (stops_expandFrom rfl |>.mpr hs) (hi column')
  case literal hl _ hi =>
    have ⟨column', h⟩ := hl.expandFrom column
    exact .literal h (hi column')
  case mark c cs _ hf _ hi =>
    have hc : c ≠ '\t' := by
      rintro rfl
      exact absurd hf.blank (by decide)
    have ⟨column', he⟩ := expandFrom_of_ne_tab column hc cs
    exact he ▸ .mark (hf.expandFrom column') (hi column')

end Tabs

end Intcode.Assembly
