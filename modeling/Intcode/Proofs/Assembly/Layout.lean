import Mathlib
import Intcode.Assembly
import Intcode.Proofs.Result

namespace Intcode.Assembly

variable {ms : List Module} {ss ss' : List Statement} {s : Statement} {l l' : Layout}
variable {name : String} {op : Opcode} {os : List Operand}

def Target.word (place : String → Int) : Target → Int
  | constant n => n
  | label name => place name

-- The word of an instruction: the opcode, and for each parameter that is read, counted from one,
-- its mode in the digit two places further to the left.
def instructionWord (op : Opcode) (os : List Operand) : Int :=
  op.code + (os.zipIdx 1 |>.map digit |>.sum)
where
  digit : Operand × Nat → Int
    | (o, n) => if op.writeTarget? = some n then 0 else o.mode * 10 ^ (n + 1)

namespace Statement

def words (place : String → Int) : Statement → List Int
  | label _           => []
  | instruction op os => instructionWord op os :: os.map (·.target.word place)
  | data vs           => vs.map (·.word place)

def size : Statement → Nat
  | label _          => 0
  | instruction _ os => os.length + 1
  | data vs          => vs.length

theorem length_words (place : String → Int) (s : Statement) : (s.words place).length = s.size := by
  cases s <;> simp [words, size]

def targets : Statement → List Target
  | label _          => []
  | instruction _ os => os.map (·.target)
  | data vs          => vs

end Statement

def totalSize (ss : List Statement) : Nat :=
  (ss.map Statement.size).sum

def placeOf (ss : List Statement) (name : String) : Nat :=
  totalSize (ss.takeWhile (· ≠ .label name))

def image (ss : List Statement) : List Int :=
  ss.flatMap (Statement.words fun name => placeOf ss name)

def statements (ms : List Module) : Except Rejection (List Statement) := do
  return (← ms.mapM Module.parse).flatten

theorem totalSize_append (ss ss' : List Statement) :
    totalSize (ss ++ ss') = totalSize ss + totalSize ss' := by
  simp [totalSize]

theorem length_flatMap_words (place : String → Int) (ss : List Statement) :
    (ss.flatMap (Statement.words place)).length = totalSize ss := by
  simp only [List.length_flatMap, Statement.length_words, totalSize]

theorem length_image (ss : List Statement) : (image ss).length = totalSize ss :=
  length_flatMap_words ..

theorem getElem?_flatMap_words (place : String → Int) (before after : List Statement) {k : Nat}
    (h : k < s.size) :
    ((before ++ s :: after).flatMap (Statement.words place))[totalSize before + k]? =
      (s.words place)[k]? := by
  have hb := length_flatMap_words place before
  rw [List.flatMap_append, List.flatMap_cons, List.getElem?_append_right (by omega), hb,
    Nat.add_sub_cancel_left, List.getElem?_append_left (by rwa [Statement.length_words])]

theorem placeOf_le_totalSize (ss : List Statement) (name : String) :
    placeOf ss name ≤ totalSize ss := by
  rw [placeOf]
  conv_rhs => rw [←List.takeWhile_append_dropWhile (p := (· ≠ .label name)) (l := ss)]
  rw [totalSize_append]
  exact Nat.le_add_right _ _

theorem placeOf_append_label (h : .label name ∉ ss) (ss' : List Statement) :
    placeOf (ss ++ .label name :: ss') name = totalSize ss := by
  have hs : ∀ s ∈ ss, decide (s ≠ .label name) = true := by
    intro s hs
    exact decide_eq_true fun he => h (he ▸ hs)
  rw [placeOf, List.takeWhile_append_of_pos hs]
  simp

theorem placeOf_append_of_mem (h : .label name ∈ ss) (ss' : List Statement) :
    placeOf (ss ++ ss') name = placeOf ss name := by
  obtain ⟨before, after, rfl, hb⟩ := List.eq_append_cons_of_mem h
  rw [List.append_assoc, List.cons_append, placeOf_append_label hb, placeOf_append_label hb]

def Target.slot : Target → Slot
  | constant n => .word n
  | label name => .reference name

def Slot.fill (place : String → Int) : Slot → Int
  | word n         => n
  | reference name => place name

namespace Statement

def slots : Statement → List Slot
  | label _           => []
  | instruction op os => .word (instructionWord op os) :: os.map (·.target.slot)
  | data vs           => vs.map (·.slot)

theorem length_slots (s : Statement) : s.slots.length = s.size := by
  cases s <;> simp [slots, size]

theorem map_fill_slots (place : String → Int) (s : Statement) :
    s.slots.map (·.fill place) = s.words place := by
  have hw (n : Int) : (Slot.word n).fill place = n := rfl
  have ht (t : Target) : t.slot.fill place = t.word place := by cases t <;> rfl
  cases s <;> simp [slots, words, hw, ht]

theorem reference_mem_slots {name : String} (s : Statement) (h : .label name ∈ s.targets) :
    .reference name ∈ s.slots := by
  cases s
  case label => simp [targets] at h
  case instruction op os =>
    have ⟨o, ho, ht⟩ := List.mem_map.mp h
    exact List.mem_cons_of_mem _ (List.mem_map.mpr ⟨o, ho, by rw [ht]; rfl⟩)
  case data vs => exact List.mem_map.mpr ⟨_, h, rfl⟩

def definitions (offset : Nat) : Statement → List (String × Nat)
  | label name => [(name, offset)]
  | _          => []

theorem lookup_definitions (s : Statement) (offset : Nat) (name : String) :
    (s.definitions offset).lookup name = if s = .label name then some offset else none := by
  cases s
  case label name' =>
    by_cases h : name = name'
    case pos => simp [definitions, h]
    case neg =>
      have hb : (name == name') = false := beq_false_of_ne h
      simp [definitions, List.lookup, hb, Ne.symm h]
  all_goals simp [definitions]

end Statement

namespace Layout

theorem writeTarget?_code (op : Opcode) : writeTarget? op.code = op.writeTarget? := by
  simp [writeTarget?, Opcode.ofCode?_code]

theorem cast_powerOfTen (k : Nat) : (Decimal.powerOfTen k : Int) = 10 ^ k := by
  simp [Decimal.powerOfTen]

theorem modeDigits_eq {n : Nat} {d : Int} (h : modeDigits op.code n os = .ok d) :
    d = (os.zipIdx n |>.map (instructionWord.digit op) |>.sum) := by
  induction os generalizing n d
  case nil => simpa [modeDigits, eq_comm] using h
  case cons o os hi =>
    rw [modeDigits, writeTarget?_code] at h
    split at h
    case isTrue ht =>
      split at h
      case isTrue  => simpa [instructionWord.digit, ht] using hi h
      case isFalse => simp at h
    case isFalse ht =>
      have ⟨d', hd, h⟩ := Result.bind_eq_ok_iff.mp h
      obtain rfl : _ = d := by simpa using h
      simp [instructionWord.digit, ht, hi hd, cast_powerOfTen]

theorem encode_eq {w : Int} (h : encode op.code os = .ok w) : w = instructionWord op os := by
  have ⟨d, hd, h⟩ := Result.bind_eq_ok_iff.mp h
  obtain rfl : _ = w := by simpa using h
  rw [modeDigits_eq hd, instructionWord]

def extend (l : Layout) (slots : List Slot) : Layout :=
  { l with slots := l.slots ++ slots, offset := l.offset + slots.length }

theorem extend_singleton (l : Layout) (s : Slot) : l.extend [s] = l.push s := by
  simp [extend, push]

theorem extend_append (l : Layout) (ss ss' : List Slot) :
    l.extend (ss ++ ss') = (l.extend ss).extend ss' := by
  have hs : l.slots ++ (ss ++ ss') = l.slots ++ ss ++ ss' := Array.ext' (by simp)
  simp [extend, hs, Nat.add_assoc]

theorem addTarget_result (l : Layout) (t : Target) :
    (l.addTarget t).result = .ok (l.extend [t.slot]) := by
  rw [extend_singleton]
  cases t <;> rfl

theorem addTargets_result (l : Layout) (ts : List Target) :
    (l.addTargets ts).result = .ok (l.extend (ts.map (·.slot))) := by
  rw [addTargets, Logged.result_foldlM]
  induction ts generalizing l
  case nil => simp [extend]
  case cons t ts hi =>
    rw [List.foldlM_cons, addTarget_result, Result.ok_bind, hi, ←extend_append]
    rfl

theorem addLabel_result (l : Layout) (name : String) :
    (l.addLabel name).result =
      if (l.find? name).isSome then .error (.duplicateLabel name)
      else .ok { l with labels := l.labels ++ [(name, l.offset)] } := by
  unfold addLabel
  split <;> rfl

theorem addInstruction_eq (h : (l.addInstruction op.code os).result = .ok l') :
    l' = l.extend (.word (instructionWord op os) :: os.map (·.target.slot)) := by
  simp only [addInstruction, Logged.result_bind, Logged.result_lift] at h
  have ⟨w, hw, h⟩ := Result.bind_eq_ok_iff.mp h
  obtain ⟨_, -, h⟩ := Result.bind_eq_ok_iff.mp h
  rw [Logged.result_note, Result.ok_bind, addTargets_result, addWord, ←extend_singleton,
    ←extend_append, List.map_map, encode_eq hw] at h
  exact (Except.ok.inj h).symm

theorem add_eq (h : (l.add s).result = .ok l') :
    l' = { l.extend s.slots with labels := l.labels ++ s.definitions l.offset } ∧
      ∀ name, s = .label name → l.find? name = none := by
  cases s
  case label name =>
    rw [add, addLabel_result] at h
    split at h
    case isTrue  => simp at h
    case isFalse hf =>
      refine ⟨?_, ?_⟩
      · simpa [extend, Statement.slots, Statement.definitions, eq_comm] using h
      · simpa using hf
  case instruction op os =>
    refine ⟨?_, by simp⟩
    rw [addInstruction_eq h]
    simp [extend, Statement.slots, Statement.definitions]
  case data vs =>
    refine ⟨?_, by simp⟩
    rw [add, addTargets_result] at h
    simpa [extend, Statement.slots, Statement.definitions, eq_comm] using h

structure Describes (l : Layout) (ss : List Statement) : Prop where
  slots  : l.slots.toList = ss.flatMap Statement.slots
  offset : l.offset = totalSize ss
  labels : ∀ name, l.find? name = if .label name ∈ ss then some (placeOf ss name) else none
  unique : ∀ {before name after}, ss = before ++ .label name :: after → .label name ∉ before

namespace Describes

theorem empty : Describes .empty [] where
  slots    := rfl
  offset   := rfl
  labels _ := rfl
  unique   := by simp

theorem mem_iff (d : Describes l ss) : .label name ∈ ss ↔ (l.find? name).isSome := by
  rw [d.labels]
  split <;> simp_all

theorem add (d : Describes l ss) (h : (l.add s).result = .ok l') : Describes l' (ss ++ [s]) := by
  obtain ⟨rfl, fresh⟩ := add_eq h
  constructor
  case slots  => simp [extend, d.slots]
  case offset => simp [extend, d.offset, totalSize, Statement.length_slots]
  case labels =>
    intro name
    have hl : (l.labels ++ s.definitions l.offset).lookup name =
        (l.find? name).or (if s = .label name then some l.offset else none) := by
      rw [List.lookup_append, Statement.lookup_definitions, find?]
    rw [find?, hl, d.labels]
    by_cases hm : .label name ∈ ss
    case pos => simp [hm, placeOf_append_of_mem hm]
    case neg =>
      by_cases hs : s = .label name
      case pos => simp [hm, hs, placeOf_append_label hm, d.offset]
      case neg => simp [hm, hs, eq_comm]
  case unique =>
    intro before name after he
    obtain rfl | ⟨after', s', rfl⟩ := after.eq_nil_or_concat'
    case inl =>
      obtain ⟨rfl, hs⟩ := List.append_inj' he rfl
      have hf := fresh name (List.cons.inj hs).left
      simpa [d.mem_iff] using hf
    case inr =>
      rw [←List.cons_append, ←List.append_assoc] at he
      exact d.unique (List.append_inj' he rfl).left

theorem foldlM (d : Describes l ss) (h : ss'.foldlM (fun l s => (l.add s).result) l = .ok l') :
    Describes l' (ss ++ ss') := by
  induction ss' generalizing l ss
  case nil =>
    obtain rfl : l = l' := by simpa using h
    simpa using d
  case cons s ss' hi =>
    rw [List.foldlM_cons] at h
    have ⟨l₁, ha, h⟩ := Result.bind_eq_ok_iff.mp h
    simpa using hi (d.add ha) h

theorem placeOf_eq {before after : List Statement} (d : Describes l ss)
    (h : ss = before ++ .label name :: after) : placeOf ss name = totalSize before := by
  have hb := d.unique h
  rw [h, placeOf_append_label hb]

theorem resolve_eq {slot : Slot} {w : Int} (d : Describes l ss) (h : l.resolve slot = .ok w) :
    w = slot.fill (fun name => placeOf ss name) ∧
      ∀ name, slot = .reference name → .label name ∈ ss := by
  cases slot
  case word n => simpa [resolve, Slot.fill, eq_comm] using h
  case reference name =>
    simp only [resolve] at h
    split at h
    case h_2 => simp at h
    case h_1 place hf =>
      have hm := d.mem_iff.mpr (by simp [hf] : (l.find? name).isSome)
      rw [d.labels, if_pos hm] at hf
      obtain rfl := Option.some.inj hf
      obtain rfl : _ = w := by simpa using h
      exact ⟨rfl, by simpa using hm⟩

theorem link_eq {ws : List Int} (d : Describes l ss) (h : l.link = .ok ws) : ws = image ss := by
  have hs := Result.mapM_eq_map h fun _ _ _ hr => (d.resolve_eq hr).left
  rw [hs, d.slots, image, List.map_flatMap]
  simp only [Statement.map_fill_slots]

theorem label_mem {ws : List Int} (d : Describes l ss) (h : l.link = .ok ws) (hs : s ∈ ss)
    (ht : .label name ∈ s.targets) : .label name ∈ ss := by
  have hm : .reference name ∈ l.slots.toList := by
    rw [d.slots]
    exact List.mem_flatMap.mpr ⟨s, hs, s.reference_mem_slots ht⟩
  have ⟨_, hr⟩ := Result.exists_of_mapM_eq_ok h hm
  exact (d.resolve_eq hr).right name rfl

end Describes

theorem addModule_result (l : Layout) (m : Module) :
    (l.addModule m).result =
      m.parse >>= fun ss => ss.foldlM (fun l s => (l.add s).result) l := by
  simp only [addModule, Logged.result_bind, Logged.result_note, Result.ok_bind,
    Logged.result_lift, Logged.result_foldlM]

end Layout

theorem statements_cons (m : Module) (ms : List Module) :
    statements (m :: ms) = do return (← m.parse) ++ (← statements ms) := by
  simp only [statements, List.mapM_cons]
  cases m.parse
  case error => rfl
  case ok ss => cases List.mapM Module.parse ms <;> rfl

theorem describes_layout (h : (layout ms).result = .ok l) :
    ∃ ss, statements ms = .ok ss ∧ l.Describes ss := by
  rw [layout, Logged.result_foldlM] at h
  suffices hg : ∀ l₀ ss₀, Layout.Describes l₀ ss₀ →
      ms.foldlM (fun l m => (l.addModule m).result) l₀ = .ok l →
        ∃ ss, statements ms = .ok ss ∧ l.Describes (ss₀ ++ ss) from hg _ _ .empty h
  clear h
  induction ms
  case nil =>
    intro l₀ ss₀ d h
    obtain rfl : l₀ = l := by simpa using h
    exact ⟨[], rfl, by simpa using d⟩
  case cons m ms hi =>
    intro l₀ ss₀ d h
    rw [List.foldlM_cons, Layout.addModule_result] at h
    have ⟨l₁, hm, h⟩ := Result.bind_eq_ok_iff.mp h
    have ⟨ss, hp, hm⟩ := Result.bind_eq_ok_iff.mp hm
    have ⟨ss', hs, d'⟩ := hi _ _ (d.foldlM hm) h
    refine ⟨ss ++ ss', ?_, by simpa using d'⟩
    simp [statements_cons, hp, hs]

theorem describes_of_assemble {ws : List Int} (h : (assemble ms).result = .ok ws) :
    ∃ (l : Layout) (ss : List Statement),
      statements ms = .ok ss ∧ l.Describes ss ∧ l.link = .ok ws := by
  rw [assemble, Logged.result_bind] at h
  have ⟨l, hl, h⟩ := Result.bind_eq_ok_iff.mp h
  have ⟨ss, hs, d⟩ := describes_layout hl
  exact ⟨l, ss, hs, d, h⟩

theorem eq_image_of_assemble {ws : List Int} (h : (assemble ms).result = .ok ws)
    (hs : statements ms = .ok ss) : ws = image ss := by
  have ⟨l, ss', hs', d, hl⟩ := describes_of_assemble h
  obtain rfl := Except.ok.inj (hs.symm.trans hs')
  exact d.link_eq hl

-- For every list of modules that is assembled: its words are those of all statements in order, a
-- label that is referred to is defined, and its place is the number of words before it.
theorem assemble_image {ws : List Int} (h : (assemble ms).result = .ok ws) :
    ∃ ss, statements ms = .ok ss ∧
      ws = ss.flatMap (Statement.words fun name => placeOf ss name) ∧
      (∀ s ∈ ss, ∀ name, .label name ∈ s.targets → .label name ∈ ss) ∧
      ∀ before name after, ss = before ++ .label name :: after →
        placeOf ss name =
          (before.flatMap (Statement.words fun name => placeOf ss name)).length := by
  have ⟨l, ss, hs, d, hl⟩ := describes_of_assemble h
  refine ⟨ss, hs, d.link_eq hl, ?_, ?_⟩
  · exact fun _ hm _ ht => d.label_mem hl hm ht
  · exact fun _ _ _ he => (d.placeOf_eq he).trans (length_flatMap_words ..).symm

def countdown : List Module :=
  [⟨"loop", "loop: add &cell, #-1, &cell\njt &cell, #&loop\n"⟩, ⟨"cell", "hlt\ncell: data 3\n"⟩]

theorem statements_countdown :
    statements countdown = .ok
      [.label "loop",
        .instruction .add [⟨0, .label "cell"⟩, ⟨1, .constant (-1)⟩, ⟨0, .label "cell"⟩],
        .instruction .jumpIfTrue [⟨0, .label "cell"⟩, ⟨1, .label "loop"⟩], .instruction .halt [],
        .label "cell", .data [.constant 3]] := by
  decide +kernel

theorem assemble_countdown :
    (assemble countdown).result = .ok [1001, 8, -1, 8, 1005, 8, 0, 99, 3] := by
  decide +kernel

theorem assemble_image_countdown :
    ∃ ss, statements countdown = .ok ss ∧
      [1001, 8, -1, 8, 1005, 8, 0, 99, 3] =
        ss.flatMap (Statement.words fun name => placeOf ss name) ∧
      placeOf ss "loop" = 0 ∧ placeOf ss "cell" = 8 := by
  obtain ⟨ss, hs, hw, -, hp⟩ := assemble_image assemble_countdown
  obtain rfl := Except.ok.inj (statements_countdown.symm.trans hs)
  exact ⟨_, hs, hw, hp [] "loop" _ rfl, hp [_, _, _, _] "cell" _ rfl⟩

end Intcode.Assembly
