import Mathlib.Data.List.TakeWhile
import Intcode.Proofs.Program

namespace Intcode.Program

structure Numeral where
  sign   : Decimal.Sign
  digits : List Char

namespace Numeral

def value (n : Numeral) : Int :=
  n.sign.apply (Decimal.value n.digits)

def Short (n : Numeral) : Prop :=
  n.digits.length ≤ Decimal.limit

instance : DecidablePred Short :=
  fun _ => inferInstanceAs (Decidable (_ ≤ _))

inductive Written : Numeral → List Char → Prop
  | intro {gap spelled digits : List Char} {sign : Decimal.Sign}
    (blank : ∀ c ∈ gap, Text.isGap c = true) (signed : sign.Spelled spelled)
    (nonempty : digits ≠ []) (numeric : ∀ c ∈ digits, c.isDigit = true) :
    Written ⟨sign, digits⟩ (gap ++ (spelled ++ digits))

end Numeral

inductive Written : List Numeral → List Char → Prop
  | single {n : Numeral} {cs : List Char} (word : n.Written cs) : Written [n] cs
  | cons {n : Numeral} {ns : List Numeral} {cs gap cs' : List Char} (word : n.Written cs)
    (blank : ∀ c ∈ gap, Text.isGap c = true) (rest : Written ns cs') :
    Written (n :: ns) (cs ++ (gap ++ ',' :: cs'))

-- The longest part from the start of a text that consists of words.
structure LongestPart (text part : List Char) (ns : List Numeral) : Prop where
  isPrefix : part <+: text
  written  : Written ns part
  longest  : ∀ part' ns', part' <+: text → Written ns' part' → part'.length ≤ part.length

def stripped (s : String) : List Char :=
  Text.trim Text.isBlank s.toList

variable {cs rest : List Char} {l : Text.Literal} {n : Numeral} {ns ms : List Numeral}

def numeral (l : Text.Literal) : Numeral :=
  ⟨l.sign, l.digits⟩

theorem exists_gap (cs : List Char) :
    ∃ gap, (∀ c ∈ gap, Text.isGap c = true) ∧ cs = gap ++ skip cs :=
  ⟨cs.takeWhile Text.isGap, fun _ => List.mem_takeWhile_imp,
    List.takeWhile_append_dropWhile.symm⟩

theorem literal?_eq_some_iff :
    literal? cs = some l ↔
      Text.Stops Char.isDigit l.rest ∧ ∃ part, (numeral l).Written part ∧ cs = part ++ l.rest := by
  rw [literal?, Text.Literal.read?_eq_some_iff]
  constructor
  case mp =>
    intro h
    obtain ⟨gap, blank, hc⟩ := exists_gap cs
    generalize skip cs = body at h hc
    obtain ⟨signed, nonempty, numeric, stops⟩ := h
    exact ⟨stops, _, .intro blank signed nonempty numeric, by simp [hc]⟩
  case mpr =>
    rintro ⟨stops, part, hw, rfl⟩
    obtain ⟨sign, digits, rest⟩ := l
    obtain @⟨gap, spelled, _, _, blank, signed, nonempty, numeric⟩ := hw
    have hb : Text.Literal.Begins (spelled ++ digits ++ rest) ⟨sign, digits, rest⟩ :=
      .intro signed nonempty numeric stops
    rw [List.append_assoc, skip, hb.stops_isGap.dropWhile_append blank]
    exact hb

theorem nextLiteral?_eq_some_iff :
    nextLiteral? cs = some l ↔
      ∃ gap cs', (∀ c ∈ gap, Text.isGap c = true) ∧ cs = gap ++ ',' :: cs' ∧
        literal? cs' = some l := by
  unfold nextLiteral?
  constructor
  case mp =>
    intro h
    have ⟨gap, blank, hc⟩ := exists_gap cs
    split at h
    case h_1 cs' he => exact ⟨gap, cs', blank, he ▸ hc, h⟩
    case h_2        => simp at h
  case mpr =>
    rintro ⟨gap, cs', blank, rfl, h⟩
    have hs : Text.Stops Text.isGap (',' :: cs') := .cons rfl
    rw [skip, hs.dropWhile_append blank]
    exact h

inductive More : List Char → List Numeral → List Char → Prop
  | stop {cs : List Char} (none : nextLiteral? cs = none) : More cs [] cs
  | step {cs rest : List Char} {l : Text.Literal} {ns : List Numeral}
    (some : nextLiteral? cs = some l) (more : More l.rest ns rest) : More cs (numeral l :: ns) rest

inductive Reads (cs : List Char) : List Numeral → List Char → Prop
  | intro {rest : List Char} {l : Text.Literal} {ns : List Numeral} (some : literal? cs = some l)
    (more : More l.rest ns rest) : Reads cs (numeral l :: ns) rest

namespace More

theorem total (cs : List Char) : ∃ ns rest, More cs ns rest := by
  induction hk : cs.length using Nat.strong_induction_on generalizing cs
  case h k hi =>
    cases hn : nextLiteral? cs
    case none => exact ⟨[], cs, .stop hn⟩
    case some l =>
      have ⟨ns, rest, h⟩ := hi _ (hk ▸ nextLiteral?_rest_length_lt hn) l.rest rfl
      exact ⟨_, _, .step hn h⟩

theorem deterministic {rest' : List Char} (h : More cs ns rest) (h' : More cs ms rest') :
    ns = ms ∧ rest = rest' := by
  induction h generalizing ms
  case stop hn =>
    cases h'
    case stop       => exact ⟨rfl, rfl⟩
    case step hn' _ => simp [hn] at hn'
  case step hn _ hi =>
    cases h'
    case stop hn'       => simp [hn] at hn'
    case step l' _ hn' h' =>
      obtain rfl := Option.some.inj (hn.symm.trans hn')
      obtain ⟨rfl, rfl⟩ := hi h'
      exact ⟨rfl, rfl⟩

theorem written (h : More cs ns rest) :
    ns = [] ∧ cs = rest ∨
      ∃ gap part, (∀ c ∈ gap, Text.isGap c = true) ∧ Written ns part ∧
        cs = gap ++ ',' :: (part ++ rest) := by
  induction h
  case stop => exact .inl ⟨rfl, rfl⟩
  case step hn _ hi =>
    obtain ⟨gap, cs', blank, rfl, hl⟩ := nextLiteral?_eq_some_iff.mp hn
    obtain ⟨-, part, hw, rfl⟩ := literal?_eq_some_iff.mp hl
    obtain ⟨rfl, hr⟩ | ⟨gap', part', blank', hw', hr⟩ := hi
    case inl => exact .inr ⟨gap, part, blank, .single hw, by rw [hr]⟩
    case inr => exact .inr ⟨gap, _, blank, .cons hw blank' hw', by simp [hr]⟩

end More

namespace Reads

theorem deterministic {rest' : List Char} (h : Reads cs ns rest) (h' : Reads cs ms rest') :
    ns = ms ∧ rest = rest' := by
  obtain ⟨hl, h⟩ := h
  obtain ⟨hl', h'⟩ := h'
  obtain rfl := Option.some.inj (hl.symm.trans hl')
  obtain ⟨rfl, rfl⟩ := h.deterministic h'
  exact ⟨rfl, rfl⟩

theorem written (h : Reads cs ns rest) : ∃ part, Written ns part ∧ cs = part ++ rest := by
  obtain ⟨hl, h⟩ := h
  obtain ⟨-, part, hw, rfl⟩ := literal?_eq_some_iff.mp hl
  obtain ⟨rfl, hr⟩ | ⟨gap, part', blank, hw', hr⟩ := h.written
  case inl => exact ⟨part, .single hw, by rw [hr]⟩
  case inr => exact ⟨_, .cons hw blank hw', by simp [hr]⟩

-- Words are read if they do not end in the middle of a literal, and then what follows is.
theorem of_written {part rest' : List Char} (h : Written ns part)
    (stops : Text.Stops Char.isDigit rest) (more : More rest ms rest') :
    Reads (part ++ rest) (ns ++ ms) rest' := by
  induction h
  case single n part hw =>
    have hl : literal? (part ++ rest) = some ⟨n.sign, n.digits, rest⟩ :=
      literal?_eq_some_iff.mpr ⟨stops, part, hw, rfl⟩
    exact .intro hl more
  case cons n ns part gap part' hw blank _ hi =>
    generalize hk : ns ++ ms = ks at hi
    obtain ⟨hl', more'⟩ := hi
    have stops' : Text.Stops Char.isDigit (gap ++ ',' :: (part' ++ rest)) := by
      cases gap
      case nil => exact .cons rfl
      case cons c gap =>
        refine .cons (Bool.eq_false_iff.mpr fun hd => ?_)
        have hb := Text.isBlank_of_isDigit hd
        simp [Text.isBlank_of_isGap (blank c (by simp))] at hb
    have hl : literal? (part ++ (gap ++ ',' :: part') ++ rest) =
        some ⟨n.sign, n.digits, gap ++ ',' :: (part' ++ rest)⟩ :=
      literal?_eq_some_iff.mpr ⟨stops', part, hw, by simp⟩
    rw [List.cons_append, hk]
    exact .intro hl (.step (nextLiteral?_eq_some_iff.mpr ⟨gap, _, blank, rfl, hl'⟩) more')

end Reads

theorem reads_nil_iff : Reads cs ns [] ↔ Written ns cs := by
  constructor
  case mp =>
    intro h
    obtain ⟨part, hw, rfl⟩ := h.written
    simpa using hw
  case mpr =>
    intro h
    have more : More [] [] [] := .stop rfl
    simpa using Reads.of_written h .nil more

theorem More.length_le (h : More cs ns rest) : rest.length ≤ cs.length ∧
    (rest.length = cs.length → ns = []) := by
  obtain ⟨rfl, rfl⟩ | ⟨gap, part, -, -, rfl⟩ := h.written
  case inl => exact ⟨le_rfl, fun _ => rfl⟩
  case inr =>
    simp only [List.length_append, List.length_cons]
    omega

theorem Written.extend {part : List Char} (h : Written ns part) (run : List Char)
    (hr : ∀ c ∈ run, c.isDigit = true) : ∃ ns', Written ns' (part ++ run) := by
  induction h
  case single hw =>
    obtain @⟨gap, spelled, digits, _, blank, signed, nonempty, numeric⟩ := hw
    have he : gap ++ (spelled ++ digits) ++ run = gap ++ (spelled ++ (digits ++ run)) := by simp
    have numeric' := List.forall_mem_append.mpr ⟨numeric, hr⟩
    refine ⟨_, he ▸ Written.single (.intro blank signed ?_ numeric')⟩
    simp [nonempty]
  case cons n _ _ _ _ hw blank _ hi =>
    have ⟨ns', hi⟩ := hi
    refine ⟨n :: ns', ?_⟩
    simpa using Written.cons hw blank hi

-- Some words at the start of a text are read, though the last literal may be read further.
theorem Written.exists_reads {part : List Char} (h : Written ns part) (rest : List Char) :
    ∃ ns' rest', Reads (part ++ rest) ns' rest' ∧ rest'.length ≤ rest.length := by
  have ⟨ns₁, h₁⟩ := h.extend (rest.takeWhile Char.isDigit) fun _ => List.mem_takeWhile_imp
  have ⟨ms, rest', more⟩ := More.total (rest.dropWhile Char.isDigit)
  have hr := Reads.of_written h₁ (.dropWhile _ rest) more
  rw [List.append_assoc, List.takeWhile_append_dropWhile] at hr
  refine ⟨_, rest', hr, more.length_le.left.trans ?_⟩
  exact (List.dropWhile_sublist _).length_le

theorem longestPart_iff {part : List Char} :
    LongestPart cs part ns ↔ ∃ rest, cs = part ++ rest ∧ Reads cs ns rest := by
  constructor
  case mp =>
    rintro ⟨⟨rest, rfl⟩, written, longest⟩
    refine ⟨rest, rfl, ?_⟩
    -- No digit follows, or the part could have been longer.
    have stops : Text.Stops Char.isDigit rest := by
      intro c hc
      by_contra hd
      obtain ⟨rest, rfl⟩ := List.head?_eq_some_iff.mp hc
      have ⟨_, hw⟩ := written.extend [c] (by simpa using hd)
      have hl := longest _ _ (by simp) hw
      rw [List.length_append, List.length_singleton] at hl
      omega
    have ⟨ms, rest', more⟩ := More.total rest
    have hr := Reads.of_written written stops more
    -- Nor does another word.
    have ⟨part', hw, he⟩ := hr.written
    have hl := longest part' _ ⟨rest', he.symm⟩ hw
    have hlen := congrArg List.length he
    simp only [List.length_append] at hlen
    have ⟨hle, hnil⟩ := more.length_le
    obtain rfl := hnil (by omega)
    obtain ⟨-, rfl⟩ | ⟨_, _, -, hw, -⟩ := more.written
    case inl => simpa using hr
    case inr => cases hw
  case mpr =>
    rintro ⟨rest, rfl, h⟩
    have ⟨part₁, hw, he⟩ := h.written
    obtain rfl := List.append_cancel_right he
    refine ⟨⟨rest, rfl⟩, hw, ?_⟩
    rintro part' ns' ⟨rest', he'⟩ hw'
    obtain ⟨_, _, h', hle⟩ := hw'.exists_reads rest'
    obtain ⟨-, rfl⟩ := (he' ▸ h').deterministic h
    have hlen := congrArg List.length he'
    simp only [List.length_append] at hlen
    omega

theorem LongestPart.unique {part part' : List Char} (h : LongestPart cs part ns)
    (h' : LongestPart cs part' ms) : ns = ms := by
  have ⟨_, _, hr⟩ := longestPart_iff.mp h
  have ⟨_, _, hr'⟩ := longestPart_iff.mp h'
  exact (hr.deterministic hr').left

theorem Written.longestPart (h : Written ns cs) : LongestPart cs cs ns :=
  ⟨List.prefix_rfl, h, fun _ _ hp _ => hp.length_le⟩

section Tabs

open Text.Tabs (expandFrom)

theorem skip_expandFrom (column : Nat) (cs : List Char) :
    ∃ column', skip (expandFrom column cs) = expandFrom column' (skip cs) :=
  Text.Tabs.dropWhile_isGap_expandFrom column cs

theorem literal?_expandFrom (column : Nat) (cs : List Char) :
    ∃ column', literal? (expandFrom column cs) = (literal? cs).map (·.expandRest column') := by
  have ⟨column₁, hs⟩ := skip_expandFrom column cs
  rw [literal?, hs]
  exact Text.Literal.read?_expandFrom (.dropWhile _ cs) column₁

theorem nextLiteral?_expandFrom (column : Nat) (cs : List Char) :
    ∃ column', nextLiteral? (expandFrom column cs) =
      (nextLiteral? cs).map (·.expandRest column') := by
  obtain ⟨column₁, hs⟩ := skip_expandFrom column cs
  have hg : Text.Stops Text.isGap (skip cs) := .dropWhile _ cs
  rw [nextLiteral?, hs, nextLiteral?]
  cases hc : skip cs
  case nil => exact ⟨column, rfl⟩
  case cons c cs' =>
    obtain ⟨column₂, he⟩ := Text.Tabs.expandFrom_of_stops column₁ (hc ▸ hg)
    rw [he]
    by_cases h : c = ','
    case pos => exact h ▸ literal?_expandFrom column₂ cs'
    case neg => exact ⟨column, by simp [h]⟩

theorem More.expandFrom (h : More cs ns rest) (column : Nat) :
    ∃ column', More (expandFrom column cs) ns (expandFrom column' rest) := by
  induction h generalizing column
  case stop cs hn =>
    have ⟨_, he⟩ := nextLiteral?_expandFrom column cs
    exact ⟨column, .stop (by rw [he, hn, Option.map_none])⟩
  case step cs rest l ns hn _ hi =>
    have ⟨column₁, he⟩ := nextLiteral?_expandFrom column cs
    rw [hn, Option.map_some] at he
    have ⟨column', h⟩ := hi column₁
    have hm : More _ (numeral (l.expandRest column₁) :: ns) _ := .step he h
    exact ⟨column', hm⟩

theorem Reads.expandFrom (h : Reads cs ns rest) (column : Nat) :
    ∃ column', Reads (expandFrom column cs) ns (expandFrom column' rest) := by
  obtain @⟨_, l, ns, hl, h⟩ := h
  have ⟨column₁, he⟩ := literal?_expandFrom column cs
  rw [hl, Option.map_some] at he
  have ⟨column', h⟩ := h.expandFrom column₁
  have hr : Reads _ (numeral (l.expandRest column₁) :: ns) _ := .intro he h
  exact ⟨column', hr⟩

end Tabs

namespace Numeral

def read (n : Numeral) : Except Decimal.Overlong Int :=
  Decimal.read n.sign n.digits

theorem mapM_read_cases (ns : List Numeral) :
    (∀ n ∈ ns, n.Short) ∧ ns.mapM read = .ok (ns.map value) ∨
      ∃ n, ns.find? (¬·.Short) = some n ∧ ns.mapM read = .error (.reading n.digits.length) := by
  induction ns
  case nil => exact .inl ⟨by simp, rfl⟩
  case cons n ns hi =>
    rw [List.mapM_cons]
    by_cases hs : n.Short
    case neg =>
      have hr : n.read = .error (.reading n.digits.length) :=
        Decimal.read_of_limit_lt n.sign (Nat.lt_of_not_le hs)
      exact .inr ⟨n, by simp [hs], by rw [hr, Result.error_bind]⟩
    case pos =>
      have hr : n.read = .ok n.value := Decimal.read_of_length_le n.sign hs
      rw [hr, Result.ok_bind]
      obtain ⟨short, hm⟩ | ⟨n', hf, hm⟩ := hi
      case inl => exact .inl ⟨by simpa using ⟨hs, short⟩, by rw [hm]; rfl⟩
      case inr => exact .inr ⟨n', by simpa [hs] using hf, by rw [hm]; rfl⟩

end Numeral

theorem More.moreWords_eq (h : More cs ns rest) :
    moreWords cs = (do return (← ns.mapM Numeral.read, rest)) := by
  induction h
  case stop hn =>
    rw [moreWords]
    split <;> simp_all
  case step l ns hn _ hi =>
    rw [moreWords]
    split
    case h_1 hn' => simp [hn] at hn'
    case h_2 l' hn' =>
      obtain rfl := Option.some.inj (hn.symm.trans hn')
      have hv : l.value = (numeral l).read := rfl
      rw [hi, hv, List.mapM_cons]
      simp only [bind_assoc, pure_bind]

theorem Reads.parseChars_eq (h : Reads cs ns rest) :
    parseChars cs =
      match ns.mapM Numeral.read with
      | .error e => .error (.overlong e)
      | .ok ws   =>
        if skip rest = [] then .ok ws
        else .error (.mismatch (.ofRest "Expected end of text" cs (skip rest))) := by
  obtain @⟨_, l, ns, hl, h⟩ := h
  have hv : l.value = (numeral l).read := rfl
  rw [parseChars, hl]
  simp only [h.moreWords_eq, hv, List.mapM_cons, bind_assoc, pure_bind]
  cases (numeral l).read
  case error => rfl
  case ok w  => cases ns.mapM Numeral.read <;> rfl

variable {s : String}

theorem skip_eq_nil_iff (h : rest <:+ stripped s) : skip rest = [] ↔ rest = [] := by
  constructor
  case mp =>
    intro hs
    obtain rfl | ⟨init, c, rfl⟩ := rest.eq_nil_or_concat
    case inl => rfl
    case inr =>
      have ⟨before, he⟩ := h
      have hg : Text.isGap c = true := List.dropWhile_eq_nil_iff.mp hs c (by simp)
      have hb : Text.isBlank c = false := by
        refine Text.stops_reverse_trim Text.isBlank s.toList c ?_
        rw [←stripped, ←he]
        simp
      simp [Text.isBlank_of_isGap hg] at hb
  case mpr =>
    rintro rfl
    rfl

theorem parse_of_not_reads (h : ∀ ns rest, ¬Reads (stripped s) ns rest) :
    ∃ place, parse s = .error (.mismatch place) := by
  have hl : literal? (stripped s) = none := by
    by_contra hl
    have ⟨l, hl⟩ := Option.ne_none_iff_exists'.mp hl
    have ⟨_, _, more⟩ := More.total l.rest
    exact h _ _ (.intro hl more)
  have ⟨_, he⟩ := literal?_expandFrom 0 (stripped s)
  have hp : literal? (prepare s) = none := by rw [prepare, Text.expandTabs, ←stripped, he, hl]; rfl
  exact ⟨_, by rw [parse, parseChars, hp]⟩

-- A text of which some words are read: one that is too long is reported before what is left.
theorem Reads.parse_cases (h : Reads (stripped s) ns rest) :
    (∃ n, ns.find? (¬·.Short) = some n ∧
        parse s = .error (.overlong (.reading n.digits.length))) ∨
      (∀ n ∈ ns, n.Short) ∧
        (rest = [] ∧ parse s = .ok (ns.map Numeral.value) ∨
          rest ≠ [] ∧ ∃ place, parse s = .error (.mismatch place)) := by
  have ⟨part, _, hpart⟩ := h.written
  have ⟨column, he⟩ := h.expandFrom 0
  have ⟨column', hs⟩ := skip_expandFrom column rest
  have hend : skip (Text.Tabs.expandFrom column rest) = [] ↔ rest = [] := by
    rw [hs, Text.Tabs.expandFrom_eq_nil_iff, skip_eq_nil_iff ⟨part, hpart.symm⟩]
  have hp : parse s = _ := he.parseChars_eq
  obtain ⟨short, hm⟩ | ⟨n, hf, hm⟩ := Numeral.mapM_read_cases ns
  all_goals rw [hm] at hp
  case inr => exact .inl ⟨n, hf, hp⟩
  case inl =>
    refine .inr ⟨short, ?_⟩
    by_cases hr : rest = []
    case pos => exact .inl ⟨hr, hp.trans (if_pos (hend.mpr hr))⟩
    case neg => exact .inr ⟨hr, _, hp.trans (if_neg (hend.not.mpr hr))⟩

inductive Verdict (s : String) : Prop
  | read (ns : List Numeral) (written : Written ns (stripped s)) (short : ∀ n ∈ ns, n.Short)
    (ok : parse s = .ok (ns.map Numeral.value))
  | overlong (part : List Char) (ns : List Numeral) (n : Numeral)
    (longest : LongestPart (stripped s) part ns) (first : ns.find? (¬·.Short) = some n)
    (error : parse s = .error (.overlong (.reading n.digits.length)))
  | mismatch (place : Text.Mismatch) (foreign : ∀ ns, ¬Written ns (stripped s))
    (short : ∀ part ns, LongestPart (stripped s) part ns → ∀ n ∈ ns, n.Short)
    (error : parse s = .error (.mismatch place))

theorem verdict (s : String) : Verdict s := by
  by_cases h : ∃ ns rest, Reads (stripped s) ns rest
  case neg =>
    have hn : ∀ ns rest, ¬Reads (stripped s) ns rest := by simpa using h
    have ⟨place, hp⟩ := parse_of_not_reads hn
    refine .mismatch place (fun ns hw => hn _ _ (reads_nil_iff.mpr hw)) ?_ hp
    intro part ns hl
    have ⟨rest, _, hr⟩ := longestPart_iff.mp hl
    exact absurd hr (hn ns rest)
  case pos =>
    obtain ⟨ns, rest, h⟩ := h
    have ⟨part, _, hpart⟩ := h.written
    have hl : LongestPart (stripped s) part ns := longestPart_iff.mpr ⟨rest, hpart, h⟩
    obtain ⟨n, hf, hp⟩ | ⟨short, ⟨rfl, hp⟩ | ⟨hr, place, hp⟩⟩ := h.parse_cases
    case inl     => exact .overlong part ns n hl hf hp
    case inr.inl => exact .read ns (reads_nil_iff.mp h) short hp
    case inr.inr =>
      refine .mismatch place (fun ms hw => ?_) (fun _ _ hl' => hl.unique hl' ▸ short) hp
      exact hr (h.deterministic (reads_nil_iff.mpr hw)).right

theorem not_short_of_first (h : ns.find? (¬·.Short) = some n) : n ∈ ns ∧ ¬n.Short :=
  ⟨List.mem_of_find?_eq_some h, by simpa using List.find?_some h⟩

theorem parse_eq_ok_iff {ws : List Int} :
    parse s = .ok ws ↔
      ∃ ns, Written ns (stripped s) ∧ (∀ n ∈ ns, n.Short) ∧ ws = ns.map Numeral.value := by
  constructor
  case mp =>
    intro h
    cases verdict s
    case read ns hw short hp => exact ⟨ns, hw, short, Except.ok.inj (h.symm.trans hp)⟩
    all_goals simp_all
  case mpr =>
    rintro ⟨ns, hw, short, rfl⟩
    cases verdict s
    case read hw' _ hp        => rw [hp, hw.longestPart.unique hw'.longestPart]
    case mismatch foreign _ _ => exact absurd hw (foreign ns)
    case overlong n hl hf _ =>
      have ⟨hm, hn⟩ := not_short_of_first hf
      exact absurd (short n (hw.longestPart.unique hl ▸ hm)) hn

theorem parse_eq_overlong_iff {e : Decimal.Overlong} :
    parse s = .error (.overlong e) ↔
      ∃ part ns n, LongestPart (stripped s) part ns ∧ ns.find? (¬·.Short) = some n ∧
        e = .reading n.digits.length := by
  constructor
  case mp =>
    intro h
    cases verdict s
    case overlong part ns n hl hf hp => exact ⟨part, ns, n, hl, hf, by simpa [h] using hp⟩
    all_goals simp_all
  case mpr =>
    rintro ⟨part, ns, n, hl, hf, rfl⟩
    have ⟨hm, hn⟩ := not_short_of_first hf
    cases verdict s
    case read hw short _  => exact absurd (short n (hl.unique hw.longestPart ▸ hm)) hn
    case mismatch short _ => exact absurd (short part ns hl n hm) hn
    case overlong hl' hf' hp =>
      obtain rfl := hl.unique hl'
      obtain rfl := Option.some.inj (hf.symm.trans hf')
      exact hp

theorem parse_eq_mismatch_iff :
    (∃ place, parse s = .error (.mismatch place)) ↔
      (∀ ns, ¬Written ns (stripped s)) ∧
        ∀ part ns, LongestPart (stripped s) part ns → ∀ n ∈ ns, n.Short := by
  constructor
  case mp =>
    rintro ⟨place, h⟩
    cases verdict s
    case mismatch foreign short _ => exact ⟨foreign, short⟩
    all_goals simp_all
  case mpr =>
    rintro ⟨foreign, short⟩
    cases verdict s
    case read ns hw _ _        => exact absurd hw (foreign ns)
    case mismatch place _ _ hp => exact ⟨place, hp⟩
    case overlong part ns n hl hf _ =>
      have ⟨hm, hn⟩ := not_short_of_first hf
      exact absurd (short part ns hl n hm) hn

-- A text is read if and only if it consists of words none of which is too long. The first word that
-- is too long is reported, but only where nothing before it is out of form. Any other text is.
theorem parse_exact (s : String) :
    (∀ ws, parse s = .ok ws ↔
      ∃ ns, Written ns (stripped s) ∧ (∀ n ∈ ns, n.Short) ∧ ws = ns.map Numeral.value) ∧
    (∀ e, parse s = .error (.overlong e) ↔
      ∃ part ns n, LongestPart (stripped s) part ns ∧ ns.find? (¬·.Short) = some n ∧
        e = .reading n.digits.length) ∧
    ((∃ place, parse s = .error (.mismatch place)) ↔
      (∀ ns, ¬Written ns (stripped s)) ∧
        ∀ part ns, LongestPart (stripped s) part ns → ∀ n ∈ ns, n.Short) :=
  ⟨fun _ => parse_eq_ok_iff, fun _ => parse_eq_overlong_iff, parse_eq_mismatch_iff⟩

example : parse " +1 ,\t-2\n" = .ok [1, -2] := by
  decide +kernel

example : parse "1,2," = .error (.mismatch ⟨"Expected end of text", "1,2".toList, ",".toList⟩) := by
  decide +kernel

end Intcode.Program
