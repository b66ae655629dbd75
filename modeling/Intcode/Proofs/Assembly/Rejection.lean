import Mathlib
import Intcode.Proofs.Assembly.Meaning
import Intcode.Proofs.Assembly.Rendering

namespace Intcode.Assembly

variable {ms : List Module} {ss ss' before : List Statement} {s : Statement} {l l' : Layout}
variable {op : Opcode} {os : List Operand} {r : Rejection} {name : String}

namespace Statement

def label? : Statement → Option String
  | label name => some name
  | _          => none

def references (s : Statement) : List String :=
  s.targets.filterMap fun
    | .constant _ => none
    | .label name => some name

def WritesPositional : Statement → Prop
  | instruction op os =>
    ∀ o n, (o, n) ∈ os.zipIdx 1 → op.writeTarget? = some n → o.mode = Mode.positional
  | _ => True

end Statement

def labels (ss : List Statement) : List String :=
  ss.filterMap Statement.label?

def references (ss : List Statement) : List String :=
  ss.flatMap Statement.references

inductive Defect (before : List Statement) : Statement → Rejection → Prop
  | duplicate {name : String} (defined : name ∈ labels before) :
    Defect before (.label name) (.duplicateLabel name)
  | target {op : Opcode} {os : List Operand}
    (immediate : ¬(Statement.instruction op os).WritesPositional) :
    Defect before (.instruction op os) (.writeTarget op.code)

def Clean (before : List Statement) : List Statement → Prop
  | []      => True
  | s :: ss => (∀ r, ¬Defect before s r) ∧ Clean (before ++ [s]) ss

-- Statements that make up a program.
structure Consistent (ss : List Statement) : Prop where
  distinct : (labels ss).Nodup
  targets  : ∀ s ∈ ss, s.WritesPositional
  defined  : ∀ name ∈ references ss, name ∈ labels ss

-- The first error of modules: one of them cannot be read, or a statement of it is wrong, and all
-- before it is in order; or else all is in order, and a label that is referred to is missing.
inductive FirstError (ms : List Module) : Rejection → Prop
  | mismatch {before after : List Module} {m : Module} {ss : List Statement}
    {place : Text.Mismatch} (split : ms = before ++ m :: after)
    (read : statements before = .ok ss) (clean : Clean [] ss)
    (error : Grammar.parse m.contents = .error (.mismatch place)) :
    FirstError ms (.mismatch m.name place)
  | defect {before after : List Module} {m : Module} {ss ss₁ ss₂ : List Statement} {s : Statement}
    {r : Rejection} (split : ms = before ++ m :: after) (read : statements before = .ok ss)
    (parsed : Grammar.parse m.contents = .ok (ss₁ ++ s :: ss₂)) (clean : Clean [] (ss ++ ss₁))
    (error : Defect (ss ++ ss₁) s r) : FirstError ms r
  | reference {ss : List Statement} {name : String} (read : statements ms = .ok ss)
    (clean : Clean [] ss) (error : (references ss).find? (· ∉ labels ss) = some name) :
    FirstError ms (.unknownLabel name)

theorem mem_labels : name ∈ labels ss ↔ .label name ∈ ss := by
  simp only [labels, List.mem_filterMap]
  constructor
  case mp =>
    rintro ⟨s, hs, hn⟩
    cases s <;> simp_all [Statement.label?]
  case mpr => exact fun h => ⟨_, h, rfl⟩

theorem clean_append : Clean before (ss ++ ss') ↔ Clean before ss ∧ Clean (before ++ ss) ss' := by
  induction ss generalizing before
  case nil => simp [Clean]
  case cons s ss hi => simp [Clean, hi, and_assoc]

theorem forall_not_defect_iff :
    (∀ r, ¬Defect before s r) ↔
      (∀ name ∈ s.label?, name ∉ labels before) ∧ s.WritesPositional := by
  cases s
  case label name =>
    constructor
    case mp =>
      intro h
      exact ⟨by simpa [Statement.label?] using fun hn => h _ (.duplicate hn), trivial⟩
    case mpr =>
      rintro ⟨h, -⟩ r ⟨hn⟩
      exact h _ rfl hn
  case instruction op os =>
    constructor
    case mp => exact fun h => ⟨by simp [Statement.label?], by_contra fun hn => h _ (.target hn)⟩
    case mpr =>
      rintro ⟨-, h⟩ r ⟨⟩
      contradiction
  case data vs =>
    refine iff_of_true ?_ ⟨by simp [Statement.label?], trivial⟩
    rintro r ⟨⟩

theorem clean_iff :
    Clean before ss ↔
      (labels ss).Nodup ∧ (∀ name ∈ labels ss, name ∉ labels before) ∧
        ∀ s ∈ ss, s.WritesPositional := by
  induction ss generalizing before
  case nil => simp [Clean, labels]
  case cons s ss hi =>
    have hs : labels (s :: ss) = s.label?.toList ++ labels ss := by
      cases hl : s.label? <;> simp [labels, hl]
    have hb : labels (before ++ [s]) = labels before ++ s.label?.toList := by
      cases hl : s.label? <;> simp [labels, hl]
    have hd : (s.label?.toList ++ labels ss).Nodup ↔
        (labels ss).Nodup ∧ ∀ name ∈ labels ss, name ∉ s.label?.toList := by
      cases s.label?
      case none      => simp
      case some name => simp [and_comm, List.forall_mem_ne']
    rw [Clean, hi, forall_not_defect_iff, hs, hb, hd]
    simp only [List.forall_mem_cons, List.mem_append, Option.mem_toList, Option.mem_def, not_or,
      forall_and, or_imp]
    tauto

namespace Layout

theorem modeDigits_eq_error_iff {n : Nat} :
    modeDigits op.code n os = .error r ↔
      r = .writeTarget op.code ∧
        ∃ o k, (o, k) ∈ os.zipIdx n ∧ op.writeTarget? = some k ∧ o.mode ≠ Mode.positional := by
  induction os generalizing n
  case nil => simp [modeDigits]
  case cons o os hi =>
    have hcons : (∃ o' k, (o', k) ∈ (o :: os).zipIdx n ∧ op.writeTarget? = some k ∧
        o'.mode ≠ Mode.positional) ↔ (op.writeTarget? = some n ∧ o.mode ≠ Mode.positional) ∨
          ∃ o' k, (o', k) ∈ os.zipIdx (n + 1) ∧ op.writeTarget? = some k ∧
            o'.mode ≠ Mode.positional := by
      simp only [List.zipIdx_cons, List.mem_cons, Prod.mk.injEq, or_and_right, exists_or]
      simp
    rw [modeDigits, writeTarget?_code, hcons]
    split
    case isTrue ht =>
      split
      case isTrue hm  => simp [hi, hm]
      case isFalse hm => simp [ht, hm, eq_comm]
    case isFalse ht =>
      simp only [ht, false_and, false_or, ←hi]
      cases modeDigits op.code (n + 1) os <;> simp

theorem encode_eq_error_iff :
    encode op.code os = .error r ↔
      r = .writeTarget op.code ∧ ¬(Statement.instruction op os).WritesPositional := by
  have h : encode op.code os = .error r ↔ modeDigits op.code 1 os = .error r := by
    rw [encode]
    cases modeDigits op.code 1 os <;> simp
  rw [h, modeDigits_eq_error_iff]
  simp [Statement.WritesPositional]

theorem Describes.add_eq_error_iff (d : Describes l ss) (h : s.WellFormed) :
    (l.add s).result = .error r ↔ Defect ss s r := by
  cases s
  case label name =>
    have hm : name ∈ Assembly.labels ss ↔ (l.find? name).isSome := mem_labels.trans d.mem_iff
    rw [Layout.add, addLabel_result]
    constructor
    case mp =>
      intro h
      split at h
      case isTrue hn => exact Except.error.inj h ▸ .duplicate (hm.mpr hn)
      case isFalse   => simp at h
    case mpr =>
      rintro ⟨hn⟩
      rw [if_pos (hm.mp hn)]
  case instruction op os =>
    have hw : (l.add (.instruction op os)).result = .error r ↔ encode op.code os = .error r := by
      simp only [Layout.add, addInstruction, Logged.result_bind, Logged.result_lift,
        Logged.result_note, addTargets_result]
      cases he : encode op.code os
      case error => simp
      case ok w =>
        have hw := Decimal.write_of_writable (encode_eq he ▸ writable_instructionWord h)
        simp [hw, Except.mapError]
    rw [hw, encode_eq_error_iff]
    constructor
    case mp =>
      rintro ⟨rfl, hn⟩
      exact .target hn
    case mpr =>
      rintro (_ | hn)
      exact ⟨rfl, hn⟩
  case data vs =>
    rw [Layout.add, addTargets_result]
    refine iff_of_false (by simp) ?_
    rintro ⟨⟩

theorem Describes.exists_add_iff (d : Describes l ss) (h : s.WellFormed) :
    (∃ l', (l.add s).result = .ok l') ↔ ∀ r, ¬Defect ss s r := by
  simp only [←d.add_eq_error_iff h]
  cases (l.add s).result <;> simp

theorem Describes.exists_foldlM_iff (d : Describes l ss) (h : ∀ s ∈ ss', s.WellFormed) :
    (∃ l', ss'.foldlM (fun l s => (l.add s).result) l = .ok l') ↔ Clean ss ss' := by
  induction ss' generalizing l ss
  case nil => simp [Clean]
  case cons s ss' hi =>
    rw [List.forall_mem_cons] at h
    rw [List.foldlM_cons, Clean, ←d.exists_add_iff h.left]
    cases ha : (l.add s).result
    case error => simp
    case ok l₁ => simpa using hi (d.add ha) h.right

theorem Describes.foldlM_eq_error_iff (d : Describes l ss) (h : ∀ s ∈ ss', s.WellFormed) :
    ss'.foldlM (fun l s => (l.add s).result) l = .error r ↔
      ∃ ss₁ s ss₂, ss' = ss₁ ++ s :: ss₂ ∧ Clean ss ss₁ ∧ Defect (ss ++ ss₁) s r := by
  rw [Result.foldlM_eq_error_iff]
  constructor
  case mp =>
    rintro ⟨ss₁, s, ss₂, l₁, rfl, hf, ha⟩
    rw [List.forall_mem_append, List.forall_mem_cons] at h
    refine ⟨ss₁, s, ss₂, rfl, ?_, ?_⟩
    · exact (d.exists_foldlM_iff h.left).mp ⟨l₁, hf⟩
    · exact ((d.foldlM hf).add_eq_error_iff h.right.left).mp ha
  case mpr =>
    rintro ⟨ss₁, s, ss₂, rfl, hc, hd⟩
    rw [List.forall_mem_append, List.forall_mem_cons] at h
    have ⟨l₁, hf⟩ := (d.exists_foldlM_iff h.left).mpr hc
    exact ⟨ss₁, s, ss₂, l₁, rfl, hf, ((d.foldlM hf).add_eq_error_iff h.right.left).mpr hd⟩

end Layout

def Slot.reference? : Slot → Option String
  | word _         => none
  | reference name => some name

theorem filterMap_slots (s : Statement) : s.slots.filterMap Slot.reference? = s.references := by
  have ht (ts : List Target) : (ts.map (·.slot)).filterMap Slot.reference? =
      ts.filterMap fun | .constant _ => none | .label name => some name := by
    rw [List.filterMap_map]
    congr 1
    funext t
    cases t <;> rfl
  cases s
  case label => rfl
  case instruction op os =>
    rw [Statement.slots, List.filterMap_cons_none rfl, Statement.references, Statement.targets, ←ht,
      List.map_map]
    rfl
  case data vs => exact ht vs

namespace Layout

theorem resolve_reference (l : Layout) (name : String) :
    l.resolve (.reference name) =
      if (l.find? name).isSome then .ok ((l.find? name).getD 0 : Nat)
      else .error (.unknownLabel name) := by
  rw [resolve]
  cases l.find? name <;> rfl

-- Slots are resolved unless one of them refers to a label that is not there, and then the first
-- that does so is reported.
theorem mapM_resolve_cases (l : Layout) (slots : List Slot) :
    (∃ ws, slots.mapM l.resolve = .ok ws) ∧
        (slots.filterMap Slot.reference?).find? (fun name => (l.find? name).isNone) = none ∨
      ∃ name, slots.mapM l.resolve = .error (.unknownLabel name) ∧
        (slots.filterMap Slot.reference?).find? (fun name => (l.find? name).isNone) =
          some name := by
  induction slots
  case nil => exact .inl ⟨⟨[], rfl⟩, rfl⟩
  case cons slot slots hi =>
    rw [List.mapM_cons]
    cases slot
    case word n =>
      obtain ⟨⟨ws, hw⟩, hf⟩ | ⟨name, hw, hf⟩ := hi
      case inl => exact .inl ⟨⟨n :: ws, by simp [resolve, hw]⟩, hf⟩
      case inr => exact .inr ⟨name, by simp [resolve, hw], hf⟩
    case reference name =>
      have hr : (Slot.reference name :: slots).filterMap Slot.reference? =
          name :: slots.filterMap Slot.reference? := rfl
      rw [hr, resolve_reference]
      cases hn : l.find? name
      case none => exact .inr ⟨name, by simp, by simp [hn]⟩
      case some place =>
        obtain ⟨⟨ws, hw⟩, hf⟩ | ⟨name', hw, hf⟩ := hi
        case inl => exact .inl ⟨⟨place :: ws, by simp [hw]⟩, by simpa [hn] using hf⟩
        case inr => exact .inr ⟨name', by simp [hw], by simpa [hn] using hf⟩

theorem Describes.link_cases (d : Describes l ss) :
    (∃ ws, l.link = .ok ws) ∧ (references ss).find? (· ∉ Assembly.labels ss) = none ∨
      ∃ name, l.link = .error (.unknownLabel name) ∧
        (references ss).find? (· ∉ Assembly.labels ss) = some name := by
  have hr : references ss = l.slots.toList.filterMap Slot.reference? := by
    rw [d.slots, List.filterMap_flatMap, references]
    simp only [filterMap_slots]
  have hp : (fun name => decide (name ∉ Assembly.labels ss)) =
      fun name => (l.find? name).isNone := by
    funext name
    have hm : name ∈ Assembly.labels ss ↔ (l.find? name).isSome := mem_labels.trans d.mem_iff
    cases hf : l.find? name <;> simp [hm, hf]
  rw [hr, hp]
  exact mapM_resolve_cases l _

theorem layout_append_singleton (ms : List Module) (m : Module) :
    (layout (ms ++ [m])).result = (layout ms).result >>= fun l => (l.addModule m).result := by
  simp [layout, Logged.result_foldlM]

end Layout

theorem statements_append (ms ms' : List Module) :
    statements (ms ++ ms') = do return (← statements ms) ++ (← statements ms') := by
  simp only [statements, List.mapM_append]
  cases ms.mapM Module.parse
  case error => rfl
  case ok => cases ms'.mapM Module.parse <;> simp

theorem statements_singleton (m : Module) : statements [m] = m.parse := by
  rw [statements_cons]
  cases m.parse <;> simp [statements]

theorem statements_append_singleton_iff {m : Module} :
    statements (ms ++ [m]) = .ok ss ↔
      ∃ ss₁ ss₂, statements ms = .ok ss₁ ∧ m.parse = .ok ss₂ ∧ ss = ss₁ ++ ss₂ := by
  rw [statements_append, statements_singleton]
  cases statements ms <;> cases m.parse <;> simp [eq_comm]

theorem Layout.Describes.exists_addModule_iff {m : Module} (d : Describes l ss) :
    (∃ l', (l.addModule m).result = .ok l') ↔ ∃ ss', m.parse = .ok ss' ∧ Clean ss ss' := by
  rw [addModule_result]
  cases hp : m.parse
  case error => simp
  case ok ss' => simpa using d.exists_foldlM_iff (m.wellFormed_of_parse hp)

theorem exists_layout_iff :
    (∃ l, (layout ms).result = .ok l) ↔ ∃ ss, statements ms = .ok ss ∧ Clean [] ss := by
  induction ms using List.reverseRecOn
  case nil => exact iff_of_true ⟨_, rfl⟩ ⟨_, rfl, trivial⟩
  case append_singleton ms m hi =>
    rw [Layout.layout_append_singleton]
    constructor
    case mp =>
      rintro ⟨l', h⟩
      have ⟨l, hl, h⟩ := Result.bind_eq_ok_iff.mp h
      obtain ⟨ss, hs, d⟩ := describes_layout hl
      obtain ⟨ss₀, hs₀, hc⟩ := hi.mp ⟨l, hl⟩
      obtain rfl := Except.ok.inj (hs.symm.trans hs₀)
      obtain ⟨ss', hp, hc'⟩ := d.exists_addModule_iff.mp ⟨l', h⟩
      exact ⟨ss ++ ss', statements_append_singleton_iff.mpr ⟨_, _, hs, hp, rfl⟩,
        clean_append.mpr ⟨hc, hc'⟩⟩
    case mpr =>
      rintro ⟨_, h, hc⟩
      obtain ⟨ss, ss', hs, hp, rfl⟩ := statements_append_singleton_iff.mp h
      obtain ⟨hc, hc'⟩ := clean_append.mp hc
      obtain ⟨l, hl⟩ := hi.mpr ⟨ss, hs, hc⟩
      obtain ⟨ss₀, hs₀, d⟩ := describes_layout hl
      obtain rfl := Except.ok.inj (hs.symm.trans hs₀)
      obtain ⟨l', h⟩ := d.exists_addModule_iff.mpr ⟨ss', hp, hc'⟩
      exact ⟨l', by rw [hl, Result.ok_bind, h]⟩

theorem exists_describes (hs : statements ms = .ok ss) (hc : Clean [] ss) :
    ∃ l, (layout ms).result = .ok l ∧ l.Describes ss := by
  obtain ⟨l, hl⟩ := exists_layout_iff.mpr ⟨ss, hs, hc⟩
  obtain ⟨ss', hs', d⟩ := describes_layout hl
  obtain rfl := Except.ok.inj (hs.symm.trans hs')
  exact ⟨l, hl, d⟩

theorem clean_of_layout (h : (layout ms).result = .ok l) :
    ∃ ss, statements ms = .ok ss ∧ Clean [] ss ∧ l.Describes ss := by
  obtain ⟨ss, hs, hc⟩ := exists_layout_iff.mp ⟨l, h⟩
  obtain ⟨ss', hs', d⟩ := describes_layout h
  obtain rfl := Except.ok.inj (hs.symm.trans hs')
  exact ⟨ss, hs, hc, d⟩

theorem Module.parse_eq_ok_iff {m : Module} :
    m.parse = .ok ss ↔ Grammar.parse m.contents = .ok ss := by
  unfold parse
  split <;> simp_all

theorem Module.parse_eq_error_iff {m : Module} (short : ShortLiterals m.contents) :
    m.parse = .error r ↔
      ∃ place, r = .mismatch m.name place ∧
        Grammar.parse m.contents = .error (.mismatch place) := by
  unfold parse
  obtain ⟨ss, h⟩ | ⟨place, h⟩ := Grammar.parse_of_short short
  case inl => simp [h]
  case inr => simp [h, eq_comm]

theorem layout_eq_error_iff :
    (layout ms).result = .error r ↔
      ∃ before m after l, ms = before ++ m :: after ∧ (layout before).result = .ok l ∧
        (l.addModule m).result = .error r := by
  simp only [layout, Logged.result_foldlM, Result.foldlM_eq_error_iff]

theorem firstError_of_layout (short : ∀ m ∈ ms, ShortLiterals m.contents)
    (h : (layout ms).result = .error r) : FirstError ms r := by
  obtain ⟨before, m, after, l, rfl, hl, h⟩ := layout_eq_error_iff.mp h
  obtain ⟨ss, hs, hc, d⟩ := clean_of_layout hl
  rw [Layout.addModule_result] at h
  cases hp : m.parse
  case error r' =>
    obtain ⟨place, hr, hg⟩ := (Module.parse_eq_error_iff (short m (by simp))).mp hp
    obtain rfl : r' = r := by simpa [hp] using h
    exact hr ▸ .mismatch rfl hs hc hg
  case ok ss' =>
    rw [hp, Result.ok_bind] at h
    obtain ⟨ss₁, s, ss₂, rfl, hc', hd⟩ :=
      (d.foldlM_eq_error_iff (m.wellFormed_of_parse hp)).mp h
    exact .defect rfl hs (Module.parse_eq_ok_iff.mp hp) (clean_append.mpr ⟨hc, hc'⟩) hd

theorem assemble_result (ms : List Module) :
    (assemble ms).result = (layout ms).result >>= Layout.link := by
  simp only [assemble, Logged.result_bind, Logged.result_lift]

theorem FirstError.assemble_eq (h : FirstError ms r) : (assemble ms).result = .error r := by
  rw [assemble_result]
  cases h
  case mismatch m _ place split read clean error =>
    obtain ⟨l, hl, -⟩ := exists_describes read clean
    have hm : (l.addModule m).result = .error (.mismatch m.name place) := by
      simp [Layout.addModule_result, Module.parse, error]
    rw [layout_eq_error_iff.mpr ⟨_, _, _, l, split, hl, hm⟩, Result.error_bind]
  case defect m ss ss₁ ss₂ s split read parsed clean error =>
    obtain ⟨hc, hc'⟩ := clean_append.mp clean
    obtain ⟨l, hl, d⟩ := exists_describes read hc
    have hp := Module.parse_eq_ok_iff.mpr parsed
    have hm : (l.addModule m).result = .error r := by
      rw [Layout.addModule_result, hp, Result.ok_bind]
      exact (d.foldlM_eq_error_iff (m.wellFormed_of_parse hp)).mpr ⟨_, _, _, rfl, hc', error⟩
    rw [layout_eq_error_iff.mpr ⟨_, _, _, l, split, hl, hm⟩, Result.error_bind]
  case reference ss name read clean error =>
    obtain ⟨l, hl, d⟩ := exists_describes read clean
    rw [hl, Result.ok_bind]
    obtain ⟨-, hf⟩ | ⟨name', hn, hf⟩ := d.link_cases
    case inl => exact absurd (hf.symm.trans error) (by simp)
    case inr =>
      obtain rfl := Option.some.inj (error.symm.trans hf)
      exact hn

theorem firstError_of_assemble (short : ∀ m ∈ ms, ShortLiterals m.contents)
    (h : (assemble ms).result = .error r) : FirstError ms r := by
  rw [assemble_result] at h
  cases hl : (layout ms).result
  case error r' =>
    obtain rfl : r' = r := by simpa [hl] using h
    exact firstError_of_layout short hl
  case ok l =>
    rw [hl, Result.ok_bind] at h
    obtain ⟨ss, hs, hc, d⟩ := clean_of_layout hl
    obtain ⟨⟨ws, hw⟩, -⟩ | ⟨name, hn, hf⟩ := d.link_cases
    case inl => simp [hw] at h
    case inr =>
      obtain rfl := Except.error.inj (hn.symm.trans h)
      exact .reference hs hc hf

theorem consistent_iff :
    Consistent ss ↔ Clean [] ss ∧ (references ss).find? (· ∉ labels ss) = none := by
  have hn : labels [] = [] := rfl
  rw [clean_iff, List.find?_eq_none, hn]
  constructor
  case mp  => exact fun h => ⟨⟨h.distinct, by simp, h.targets⟩, by simpa using h.defined⟩
  case mpr =>
    rintro ⟨⟨distinct, -, targets⟩, defined⟩
    exact ⟨distinct, targets, by simpa using defined⟩

theorem exists_assemble_iff :
    (∃ ws, (assemble ms).result = .ok ws) ↔ ∃ ss, statements ms = .ok ss ∧ Consistent ss := by
  simp only [assemble_result, consistent_iff]
  constructor
  case mp =>
    rintro ⟨ws, h⟩
    obtain ⟨l, hl, h⟩ := Result.bind_eq_ok_iff.mp h
    obtain ⟨ss, hs, hc, d⟩ := clean_of_layout hl
    obtain ⟨-, hf⟩ | ⟨name, hn, -⟩ := d.link_cases
    case inl => exact ⟨ss, hs, hc, hf⟩
    case inr => simp [hn] at h
  case mpr =>
    rintro ⟨ss, hs, hc, hf⟩
    obtain ⟨l, hl, d⟩ := exists_describes hs hc
    obtain ⟨⟨ws, hw⟩, -⟩ | ⟨name, -, hf'⟩ := d.link_cases
    case inl => exact ⟨ws, by rw [hl, Result.ok_bind, hw]⟩
    case inr => exact absurd (hf.symm.trans hf') (by simp)

-- For all modules whose literals are short enough: they are assembled exactly if they can be read
-- and their statements make up a program, and otherwise they are rejected for their first error.
theorem assemble_or_first_error (ms : List Module) (short : ∀ m ∈ ms, ShortLiterals m.contents) :
    ((∃ ws, (assemble ms).result = .ok ws) ↔ ∃ ss, statements ms = .ok ss ∧ Consistent ss) ∧
      ∀ r, (assemble ms).result = .error r ↔ FirstError ms r :=
  ⟨exists_assemble_iff, fun _ => ⟨firstError_of_assemble short, FirstError.assemble_eq⟩⟩

def conflict : List Module :=
  [⟨"first", "start: jt #1, #&nowhere"⟩, ⟨"second", "out 5 start: in #4"⟩]

theorem assemble_or_first_error_conflict :
    FirstError conflict (.duplicateLabel "start") ∧
      (Rejection.duplicateLabel "start").message = "Label start defined twice" ∧
      ∃ ss, statements countdown = .ok ss ∧ Consistent ss := by
  have short : ∀ m ∈ conflict ++ countdown, ShortLiterals m.contents := by
    have h : ∀ m ∈ conflict ++ countdown, ∀ l ∈ lexemes (Token.scan (Text.expandTabs
        m.contents.toList)), l.Short := by decide +kernel
    exact fun m hm => Grammar.shortLiterals_of_scan (h m hm)
  rw [List.forall_mem_append] at short
  obtain ⟨-, rejected⟩ := assemble_or_first_error conflict short.left
  obtain ⟨assembled, -⟩ := assemble_or_first_error countdown short.right
  exact ⟨(rejected _).mp (by decide +kernel), rfl, assembled.mp ⟨_, assemble_countdown⟩⟩

end Intcode.Assembly
