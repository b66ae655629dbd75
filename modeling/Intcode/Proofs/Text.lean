import Mathlib.Data.List.TakeWhile
import Mathlib.Tactic.Common
import Intcode.Text.Blank
import Intcode.Text.Literal
import Intcode.Text.Tabs

namespace Intcode

inductive Decimal.Sign.Spelled : Sign → List Char → Prop
  | none  : Spelled plus []
  | plus  : Spelled plus ['+']
  | minus : Spelled minus ['-']

theorem Decimal.Sign.Spelled.tab_notMem {sign : Sign} {spelled : List Char}
    (h : sign.Spelled spelled) : '\t' ∉ spelled := by
  cases h <;> decide

namespace Text

variable {p : Char → Bool} {run rest cs : List Char} {c : Char}

def Stops (p : Char → Bool) (cs : List Char) : Prop :=
  ∀ c ∈ cs.head?, p c = false

theorem Stops.nil : Stops p [] := by
  simp [Stops]

theorem Stops.of_forall (h : ∀ c ∈ cs, p c = false) : Stops p cs :=
  fun c hc => h c (List.mem_of_mem_head? hc)

theorem Stops.cons (h : p c = false) : Stops p (c :: cs) := by
  simpa [Stops] using h

theorem Stops.dropWhile (p : Char → Bool) (cs : List Char) : Stops p (cs.dropWhile p) := by
  intro c hc
  have h := cs.head?_dropWhile_not p
  rwa [Option.mem_def.mp hc] at h

theorem Stops.dropWhile_eq (h : Stops p rest) : rest.dropWhile p = rest := by
  cases rest
  case nil => rfl
  case cons c rest =>
    have hc : p c = false := h c rfl
    simp [hc]

theorem Stops.takeWhile_append (h : Stops p rest) (hr : ∀ c ∈ run, p c = true) :
    (run ++ rest).takeWhile p = run := by
  rw [List.takeWhile_append_of_pos hr]
  cases rest
  case nil => simp
  case cons c rest =>
    have hc : p c = false := h c rfl
    simp [hc]

theorem Stops.dropWhile_append (h : Stops p rest) (hr : ∀ c ∈ run, p c = true) :
    (run ++ rest).dropWhile p = rest := by
  rw [List.dropWhile_append_of_pos hr, h.dropWhile_eq]

theorem Stops.append (h : Stops p cs) (hc : p c = false) (cs' : List Char) :
    Stops p (cs ++ c :: cs') := by
  cases cs
  case nil  => exact .cons hc
  case cons => exact h

theorem isBlank_of_isDigit (h : c.isDigit = true) : isBlank c = false := by
  obtain ⟨low, high⟩ : 48 ≤ c.toNat ∧ c.toNat ≤ 57 := by simpa using Char.isDigit_iff_toNat.mp h
  simp only [isBlank, isWhiteSpace, Range.covers, Range.contains, Blank.whiteSpace, List.any_cons,
    List.any_nil, Bool.or_eq_false_iff, Bool.and_eq_false_iff, decide_eq_false_iff_not, and_true]
  omega

theorem isGap_of_not_isBlank (h : isBlank c = false) : isGap c = false := by
  by_contra hg
  simp [isBlank_of_isGap (eq_true_of_ne_false hg)] at h

theorem trim_append {us vs : List Char} (hu : ∀ c ∈ us, p c = true) (hc : ∀ c ∈ cs, p c = false)
    (hv : ∀ c ∈ vs, p c = true) : trim p (us ++ cs ++ vs) = cs := by
  have he : dropWhileEnd p (cs ++ vs) = cs := by
    have hs : Stops p cs.reverse := .of_forall (by simpa using hc)
    rw [dropWhileEnd, List.reverse_append, hs.dropWhile_append (by simpa using hv),
      List.reverse_reverse]
  rw [trim, List.append_assoc, List.dropWhile_append_of_pos hu]
  cases cs
  case nil =>
    have hd : vs.dropWhile p = [] := List.dropWhile_eq_nil_iff.mpr hv
    rw [List.nil_append, hd]
    rfl
  case cons c cs =>
    have hs : Stops p (c :: cs ++ vs) := .cons (hc c (by simp))
    rw [hs.dropWhile_eq, he]

theorem stops_reverse_trim (p : Char → Bool) (cs : List Char) : Stops p (trim p cs).reverse := by
  rw [trim, dropWhileEnd, List.reverse_reverse]
  exact .dropWhile p _

namespace Literal

-- A text begins with a literal, which is as long as it can be.
inductive Begins : List Char → Literal → Prop
  | intro {spelled : List Char} {sign : Decimal.Sign} {digits rest : List Char}
    (signed : sign.Spelled spelled) (nonempty : digits ≠ [])
    (numeric : ∀ c ∈ digits, c.isDigit = true) (stops : Stops Char.isDigit rest) :
    Begins (spelled ++ digits ++ rest) ⟨sign, digits, rest⟩

theorem splitSign_of_isDigit (h : c.isDigit = true) (cs : List Char) :
    splitSign (c :: cs) = (.plus, c :: cs) := by
  unfold splitSign
  split
  case h_1 e =>
    obtain ⟨rfl, -⟩ := List.cons.inj e
    simp at h
  case h_2 e =>
    obtain ⟨rfl, -⟩ := List.cons.inj e
    simp at h
  case h_3 => rfl

theorem splitSign_spelled (cs : List Char) :
    ∃ spelled, (splitSign cs).1.Spelled spelled ∧ cs = spelled ++ (splitSign cs).2 := by
  unfold splitSign
  split
  case h_1 => exact ⟨_, .plus, rfl⟩
  case h_2 => exact ⟨_, .minus, rfl⟩
  case h_3 => exact ⟨_, .none, rfl⟩

theorem Begins.read? {l : Literal} : Begins cs l → read? cs = some l
  | @intro _ _ ds rest hs hn hd ht => by
    have hsplit : ∀ {spelled sign}, Decimal.Sign.Spelled sign spelled →
        splitSign (spelled ++ ds ++ rest) = (sign, ds ++ rest) := by
      intro spelled sign hs
      cases hs
      case none =>
        obtain ⟨d, ds, rfl⟩ := List.exists_cons_of_ne_nil hn
        exact splitSign_of_isDigit (hd d (by simp)) _
      case plus  => rfl
      case minus => rfl
    rw [Literal.read?, hsplit hs]
    simp [ht.takeWhile_append hd, ht.dropWhile_append hd, hn]

theorem read?_eq_some_iff {l : Literal} : read? cs = some l ↔ Begins cs l := by
  refine ⟨fun h => ?_, Begins.read?⟩
  have ⟨spelled, hs, he⟩ := splitSign_spelled cs
  unfold read? at h
  generalize splitSign cs = s at h hs he
  obtain ⟨sign, body⟩ := s
  dsimp only at h hs he
  split at h
  case isTrue => simp at h
  case isFalse hn =>
    obtain rfl := Option.some.inj h
    have hb : cs = spelled ++ body.takeWhile Char.isDigit ++ body.dropWhile Char.isDigit := by
      rw [List.append_assoc, List.takeWhile_append_dropWhile, he]
    exact hb ▸ .intro hs hn (fun _ => List.mem_takeWhile_imp) (.dropWhile _ _)

theorem read?_eq_none_iff : read? cs = none ↔ ∀ l, ¬Begins cs l := by
  simp only [←read?_eq_some_iff, Option.eq_none_iff_forall_ne_some, ne_eq]

theorem exists_begins_of_isDigit {spelled : List Char} {sign : Decimal.Sign} {d : Char}
    (hs : sign.Spelled spelled) (hd : d.isDigit = true) (ds : List Char) :
    ∃ l, Begins (spelled ++ d :: ds) l := by
  have hn : (d :: ds).takeWhile Char.isDigit ≠ [] := by simp [hd]
  have h := Begins.intro hs hn (fun _ => List.mem_takeWhile_imp) (.dropWhile _ (d :: ds))
  rw [List.append_assoc, List.takeWhile_append_dropWhile] at h
  exact ⟨_, h⟩

theorem exists_begins_iff :
    (∃ l, Begins (c :: cs) l) ↔
      c.isDigit = true ∨ (c = '+' ∨ c = '-') ∧ ¬Stops Char.isDigit cs := by
  constructor
  case mp =>
    rintro ⟨l, h⟩
    generalize he : c :: cs = text at h
    obtain ⟨hs, hn, hd, -⟩ := h
    obtain ⟨d, ds, rfl⟩ := List.exists_cons_of_ne_nil hn
    cases hs
    case none  => exact .inl (by simp_all)
    case plus  => exact .inr (by simp_all [Stops])
    case minus => exact .inr (by simp_all [Stops])
  case mpr =>
    rintro (h | ⟨hc, h⟩)
    case inl => exact exists_begins_of_isDigit .none h cs
    case inr =>
      obtain ⟨d, hh, hd⟩ : ∃ d ∈ cs.head?, d.isDigit = true := by simpa [Stops] using h
      obtain ⟨ds, rfl⟩ := List.head?_eq_some_iff.mp hh
      obtain rfl | rfl := hc
      · exact exists_begins_of_isDigit .plus hd ds
      · exact exists_begins_of_isDigit .minus hd ds

theorem Begins.stops_isGap {l : Literal} (h : Begins cs l) : Stops isGap cs := by
  cases cs
  case nil => exact .nil
  case cons c cs =>
    obtain hd | ⟨rfl | rfl, -⟩ := exists_begins_iff.mp ⟨l, h⟩
    case inl => exact .cons (isGap_of_not_isBlank (isBlank_of_isDigit hd))
    all_goals exact .cons rfl

theorem Begins.append {l : Literal} (h : Begins cs l) (hc : c.isDigit = false) (cs' : List Char) :
    Begins (cs ++ c :: cs') { l with rest := l.rest ++ c :: cs' } := by
  obtain ⟨hs, hn, hd, ht⟩ := h
  rw [List.append_assoc]
  exact .intro hs hn hd (ht.append hc cs')

end Literal

namespace Tabs

variable {column : Nat}

theorem expandFrom_of_ne_tab (column : Nat) (h : c ≠ '\t') (cs : List Char) :
    ∃ column', expandFrom column (c :: cs) = c :: expandFrom column' cs := by
  rw [expandFrom, if_neg h]
  split <;> exact ⟨_, rfl⟩

theorem expandFrom_tab (column : Nat) (cs : List Char) :
    ∃ n column', expandFrom column ('\t' :: cs) =
      ' ' :: (List.replicate n ' ' ++ expandFrom column' cs) := by
  have hw : 0 < width - column % width := Nat.sub_pos_of_lt (Nat.mod_lt _ (by decide))
  refine ⟨width - column % width - 1, column + (width - column % width), ?_⟩
  rw [expandFrom, if_pos rfl, ←List.cons_append, ←List.replicate_succ, Nat.sub_add_cancel hw]

theorem expandFrom_append (column : Nat) (as bs : List Char) :
    ∃ column', expandFrom column (as ++ bs) = expandFrom column as ++ expandFrom column' bs := by
  induction as generalizing column
  case nil => exact ⟨column, rfl⟩
  case cons a as hi =>
    rw [List.cons_append, expandFrom, expandFrom]
    split
    case isTrue =>
      obtain ⟨column', h⟩ := hi (column + (width - column % width))
      exact ⟨column', by simp [h]⟩
    case isFalse =>
      split
      case isTrue =>
        obtain ⟨column', h⟩ := hi 0
        exact ⟨column', by simp [h]⟩
      case isFalse =>
        obtain ⟨column', h⟩ := hi (column + 1)
        exact ⟨column', by simp [h]⟩

theorem expandFrom_eq_self (h : '\t' ∉ cs) : expandFrom column cs = cs := by
  induction cs generalizing column
  case nil => rfl
  case cons c cs hi =>
    rw [List.mem_cons, not_or] at h
    have ⟨column', he⟩ := expandFrom_of_ne_tab column (Ne.symm h.left) cs
    rw [he, hi h.right]

theorem expandFrom_append_of_notMem (column : Nat) (h : '\t' ∉ run) (rest : List Char) :
    ∃ column', expandFrom column (run ++ rest) = run ++ expandFrom column' rest := by
  have ⟨column', he⟩ := expandFrom_append column run rest
  exact ⟨column', by rw [he, expandFrom_eq_self h]⟩

theorem mem_of_mem_expandFrom (h : c ∈ expandFrom column cs) (hs : c ≠ ' ') : c ∈ cs := by
  induction cs generalizing column
  case nil => simp [expandFrom] at h
  case cons a cs hi =>
    rw [expandFrom] at h
    split at h
    case isTrue =>
      obtain h | h := List.mem_append.mp h
      case inl => exact absurd (List.eq_of_mem_replicate h) hs
      case inr => exact List.mem_cons_of_mem _ (hi h)
    case isFalse =>
      split at h
      all_goals
        obtain rfl | h := List.mem_cons.mp h
        · exact List.mem_cons_self
        · exact List.mem_cons_of_mem _ (hi h)

theorem head?_expandFrom (column : Nat) (cs : List Char) :
    (expandFrom column cs).head? = cs.head?.map fun c => if c = '\t' then ' ' else c := by
  cases cs
  case nil => rfl
  case cons c cs =>
    by_cases h : c = '\t'
    case pos =>
      subst h
      have ⟨_, _, he⟩ := expandFrom_tab column cs
      simp [he]
    case neg =>
      have ⟨_, he⟩ := expandFrom_of_ne_tab column h cs
      simp [he, h]

theorem stops_expandFrom (hp : p '\t' = p ' ') : Stops p (expandFrom column cs) ↔ Stops p cs := by
  rw [Stops, Stops, head?_expandFrom]
  cases cs
  case nil => simp
  case cons c cs => by_cases h : c = '\t' <;> simp [h, hp]

theorem dropWhile_isGap_expandFrom (column : Nat) (cs : List Char) :
    ∃ column', (expandFrom column cs).dropWhile isGap =
      expandFrom column' (cs.dropWhile isGap) := by
  induction cs generalizing column
  case nil => exact ⟨column, rfl⟩
  case cons c cs hi =>
    by_cases hc : c = '\t'
    case pos =>
      subst hc
      obtain ⟨n, column₁, he⟩ := expandFrom_tab column cs
      obtain ⟨column', hd⟩ := hi column₁
      have hs : ∀ c ∈ List.replicate n ' ', isGap c = true := by simp +contextual [isGap]
      refine ⟨column', ?_⟩
      rw [he, List.dropWhile_cons_of_pos rfl, List.dropWhile_append_of_pos hs, hd,
        List.dropWhile_cons_of_pos rfl]
    case neg =>
      obtain ⟨column₁, he⟩ := expandFrom_of_ne_tab column hc cs
      by_cases hg : isGap c = true
      case pos =>
        obtain ⟨column', hd⟩ := hi column₁
        refine ⟨column', ?_⟩
        rw [he, List.dropWhile_cons_of_pos hg, hd, List.dropWhile_cons_of_pos hg]
      case neg =>
        exact ⟨column, by rw [he, List.dropWhile_cons_of_neg hg, List.dropWhile_cons_of_neg hg, he]⟩

theorem expandFrom_of_stops (column : Nat) (h : Stops isGap (c :: cs)) :
    ∃ column', expandFrom column (c :: cs) = c :: expandFrom column' cs := by
  refine expandFrom_of_ne_tab column ?_ cs
  rintro rfl
  exact absurd (h '\t' rfl) (by decide)

theorem expandFrom_eq_nil_iff : expandFrom column cs = [] ↔ cs = [] := by
  rw [←List.head?_eq_none_iff, head?_expandFrom, Option.map_eq_none_iff, List.head?_eq_none_iff]

end Tabs

namespace Literal

theorem Begins.expandFrom {l : Literal} (h : Begins cs l) (column : Nat) :
    ∃ column', Begins (Tabs.expandFrom column cs)
      { l with rest := Tabs.expandFrom column' l.rest } := by
  obtain @⟨spelled, sign, digits, rest, hs, hn, hd, ht⟩ := h
  have hr : '\t' ∉ spelled ++ digits := by
    rw [List.mem_append, not_or]
    exact ⟨hs.tab_notMem, fun h => absurd (hd _ h) (by decide)⟩
  have ⟨column', he⟩ := Tabs.expandFrom_append_of_notMem column hr rest
  exact ⟨column', he ▸ .intro hs hn hd (Tabs.stops_expandFrom rfl |>.mpr ht)⟩

theorem exists_begins_expandFrom_iff {column : Nat} :
    (∃ l, Begins (c :: Tabs.expandFrom column cs) l) ↔ ∃ l, Begins (c :: cs) l := by
  rw [exists_begins_iff, exists_begins_iff, Tabs.stops_expandFrom rfl]

def expandRest (column : Nat) (l : Literal) : Literal :=
  { l with rest := Tabs.expandFrom column l.rest }

theorem read?_expandFrom (h : Stops isGap cs) (column : Nat) :
    ∃ column', read? (Tabs.expandFrom column cs) = (read? cs).map (expandRest column') := by
  cases hr : read? cs
  case some l =>
    have ⟨column', hb⟩ := (read?_eq_some_iff.mp hr).expandFrom column
    exact ⟨column', hb.read?⟩
  case none =>
    refine ⟨column, ?_⟩
    cases cs
    case nil => rfl
    case cons c cs =>
      have ⟨column', he⟩ := Tabs.expandFrom_of_stops column h
      have hn := not_exists.mpr (read?_eq_none_iff.mp hr)
      rw [he, Option.map_none, read?_eq_none_iff]
      exact not_exists.mp (exists_begins_expandFrom_iff.not.mpr hn)

end Literal
end Text
end Intcode
