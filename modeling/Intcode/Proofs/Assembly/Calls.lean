import Intcode.Proofs.Assembly.Layout

namespace Intcode.Assembly

inductive Call where
  | word (n : Int)
  | reference (name : String)
  | target (t : Target)
  | label (name : String)
  | instruction (opcode : Int) (operands : List Operand)
  | data (values : List Target)

namespace Layout

variable {l l₁ l₂ l₃ : Layout} {c : Call} {cs : List Call} {name : String} {place : Nat}

def call (l : Layout) : Call → Logged Rejection Layout
  | .word n                => pure (l.addWord n)
  | .reference name        => l.addReference name
  | .target t              => l.addTarget t
  | .label name            => l.addLabel name
  | .instruction opcode os => l.addInstruction opcode os
  | .data ts               => l.addTargets ts

def issue (slots : List Slot) : EStateM Rejection Layout Unit :=
  forM slots fun s => modify (·.push s)

def perform : Call → EStateM Rejection Layout Unit
  | .word n         => issue [.word n]
  | .reference name => issue [.reference name]
  | .target t       => issue [t.slot]
  | .label name => do
    if ((← get).find? name).isSome then throw (.duplicateLabel name)
    modify fun l => { l with labels := l.labels ++ [(name, l.offset)] }
  | .instruction opcode os => do
    let word ← ofExcept (encode opcode os)
    let _ ← ofExcept ((Decimal.write word).mapError .overlong)
    issue [.word word]
    issue (os.map (·.target.slot))
  | .data ts => issue (ts.map (·.slot))

theorem issue_run (slots : List Slot) (l : Layout) :
    (issue slots).run l = .ok () (l.extend slots) := by
  rw [issue]
  induction slots generalizing l
  case nil => simp [extend]
  case cons s slots hi =>
    rw [List.forM_cons, EStateM.run_bind, EStateM.run_modify]
    dsimp only
    rw [hi, ←extend_singleton, ←extend_append]
    rfl

theorem addInstruction_result (l : Layout) (opcode : Int) (os : List Operand) :
    (l.addInstruction opcode os).result = (do
      let word ← encode opcode os
      let _ ← (Decimal.write word).mapError Rejection.overlong
      return l.extend (.word word :: os.map (·.target.slot))) := by
  simp only [addInstruction, Logged.result_bind, Logged.result_lift, Logged.result_note,
    Result.ok_bind, addTargets_result, addWord, ←extend_singleton, ←extend_append, List.map_map]
  rfl

-- In place, a call does all that it does or nothing: whatever can fail comes before the first slot.
theorem perform_run (c : Call) (l : Layout) :
    (perform c).run l = Result.atomic l (l.call c).result := by
  cases c
  case word n         => rw [perform, issue_run, extend_singleton]; rfl
  case reference name => rw [perform, issue_run, extend_singleton]; rfl
  case target t       => rw [perform, issue_run, call, addTarget_result]; rfl
  case data ts        => rw [perform, issue_run, call, addTargets_result]; rfl
  case label name =>
    rw [perform, call, addLabel_result, EStateM.run_bind, EStateM.run_get]
    dsimp only
    split <;> rfl
  case instruction opcode os =>
    rw [perform, call, addInstruction_result, EStateM.run_bind]
    cases encode opcode os
    case error => rfl
    case ok word =>
      dsimp only [ofExcept, Result.ok_bind, EStateM.run_pure]
      rw [EStateM.run_bind]
      cases (Decimal.write word).mapError Rejection.overlong
      case error => rfl
      case ok =>
        dsimp only [ofExcept, Result.ok_bind, EStateM.run_pure]
        rw [EStateM.run_bind, issue_run]
        dsimp only
        rw [issue_run, ←extend_append]
        rfl

def undergo (l : Layout) (c : Call) : Layout :=
  Result.stateAfter ((perform c).run l)

def after (l : Layout) (cs : List Call) : Layout :=
  cs.foldl undergo l

-- All that a call can do: take slots, or define a label. One that fails takes none.
inductive Step (l : Layout) : Call → Layout → Prop
  | extend {c : Call} (slots : List Slot) : Step l c (l.extend slots)
  | define {name : String} (fresh : l.find? name = none) :
    Step l (.label name) { l with labels := l.labels ++ [(name, l.offset)] }

theorem extend_nil (l : Layout) : l.extend [] = l := by
  simp [extend]

theorem Step.refl (l : Layout) (c : Call) : Step l c l := by
  have e : Step l c (l.extend []) := .extend []
  rwa [extend_nil] at e

theorem Step.of_issue {slots : List Slot} (h : perform c = issue slots) :
    Step l c (l.undergo c) := by
  rw [undergo, h, issue_run]
  exact .extend slots

theorem step_undergo (l : Layout) (c : Call) : Step l c (l.undergo c) := by
  cases c
  case word      => exact .of_issue rfl
  case reference => exact .of_issue rfl
  case target    => exact .of_issue rfl
  case data      => exact .of_issue rfl
  case label name =>
    rw [undergo, perform_run, call, addLabel_result]
    split
    case isTrue     => exact .refl l _
    case isFalse hf => exact .define (by simpa using hf)
  case instruction opcode os =>
    rw [undergo, perform_run, call, addInstruction_result]
    cases encode opcode os
    case error => exact .refl l _
    case ok word =>
      rw [Result.ok_bind]
      cases (Decimal.write word).mapError Rejection.overlong
      case error => exact .refl l _
      case ok    => exact .extend _

structure Sound (l : Layout) : Prop where
  offset  : l.offset = l.slots.size
  bounded : ∀ {name place}, l.find? name = some place → place ≤ l.offset

structure Keeps (l₁ l₂ : Layout) : Prop where
  offset : l₁.offset ≤ l₂.offset
  slots  : l₁.slots.toList <+: l₂.slots.toList
  labels : ∀ {name place}, l₁.find? name = some place → l₂.find? name = some place
  later  : ∀ {name place}, l₁.find? name = none → l₂.find? name = some place → l₁.offset ≤ place

theorem Sound.empty : Sound empty where
  offset  := rfl
  bounded := by simp [find?, Layout.empty]

namespace Keeps

theorem refl (l : Layout) : Keeps l l where
  offset     := Nat.le_refl _
  slots      := List.prefix_refl _
  labels h   := h
  later h h' := by simp [h] at h'

theorem trans (h₁ : Keeps l₁ l₂) (h₂ : Keeps l₂ l₃) : Keeps l₁ l₃ where
  offset   := h₁.offset.trans h₂.offset
  slots    := h₁.slots.trans h₂.slots
  labels h := h₂.labels (h₁.labels h)
  later {name place} hn hp := by
    cases hs : l₂.find? name
    case none => exact h₁.offset.trans (h₂.later hs hp)
    case some place' =>
      obtain rfl : place' = place := by simpa [h₂.labels hs] using hp
      exact h₁.later hn hs

end Keeps

theorem find?_define (l : Layout) (name name' : String) :
    ({ l with labels := l.labels ++ [(name, l.offset)] } : Layout).find? name' =
      (l.find? name').or (if name' = name then some l.offset else none) := by
  have h := Statement.lookup_definitions (.label name) l.offset name'
  rw [find?, List.lookup_append, find?]
  simpa [Statement.definitions, eq_comm] using congrArg (l.labels.lookup name').or h

namespace Step

theorem kept (e : Step l₁ c l₂) (h : l₁.find? name = some place) : l₂.find? name = some place := by
  cases e
  case extend => exact h
  case define => rw [find?_define, h]; rfl

theorem defined (e : Step l₁ c l₂) (hn : l₁.find? name = none) (h : l₂.find? name = some place) :
    c = .label name ∧ place = l₁.offset := by
  cases e
  case extend => exact absurd (hn.symm.trans h) (by simp)
  case define name' _ =>
    rw [find?_define, hn] at h
    obtain ⟨rfl, rfl⟩ : name = name' ∧ l₁.offset = place := by simpa using h
    exact ⟨rfl, rfl⟩

theorem keeps (e : Step l₁ c l₂) : Keeps l₁ l₂ where
  offset     := by cases e <;> simp [Layout.extend]
  slots      := by cases e <;> simp [Layout.extend]
  labels     := e.kept
  later hn h := (e.defined hn h).right.ge

theorem sound (e : Step l₁ c l₂) (s : Sound l₁) : Sound l₂ where
  offset := by
    cases e
    case extend slots => simp [Layout.extend, s.offset, ←Array.length_toList]
    case define       => exact s.offset
  bounded {name place} h := by
    refine Nat.le_trans ?_ e.keeps.offset
    cases hn : l₁.find? name
    case none => exact (e.defined hn h).right.le
    case some place' =>
      obtain rfl : place' = place := by simpa [e.kept hn] using h
      exact s.bounded hn

end Step

theorem after_append (l : Layout) (cs cs' : List Call) :
    l.after (cs ++ cs') = (l.after cs).after cs' :=
  List.foldl_append

theorem after_keeps (l : Layout) (cs : List Call) : Keeps l (l.after cs) := by
  induction cs generalizing l
  case nil          => exact .refl l
  case cons c cs hi => exact (step_undergo l c).keeps.trans (hi _)

theorem Sound.after (s : Sound l) (cs : List Call) : Sound (l.after cs) := by
  induction cs generalizing l
  case nil          => exact s
  case cons c cs hi => exact hi ((step_undergo l c).sound s)

theorem exists_definition (hn : l.find? name = none) (h : (l.after cs).find? name = some place) :
    ∃ before later, cs = before ++ .label name :: later ∧ (l.after before).find? name = none ∧
      place = (l.after before).offset := by
  induction cs generalizing l
  case nil => exact absurd (hn.symm.trans h) (by simp)
  case cons c cs hi =>
    have e := step_undergo l c
    cases hs : (l.undergo c).find? name
    case none =>
      obtain ⟨before, later, rfl, hb, hp⟩ := hi hs h
      exact ⟨c :: before, later, rfl, hb, hp⟩
    case some place' =>
      obtain ⟨rfl, rfl⟩ := e.defined hn hs
      have hk := (after_keeps _ cs).labels hs
      exact ⟨[], cs, rfl, hn, Option.some.inj (h.symm.trans hk)⟩

def made (cs : List Call) : Layout :=
  Layout.empty.after cs

theorem made_append (cs cs' : List Call) : made (cs ++ cs') = (made cs).after cs' :=
  after_append ..

theorem calls_in_place (cs : List Call) :
    (made cs).offset = (made cs).slots.size ∧
    (∀ name place, (made cs).find? name = some place →
      place ≤ (made cs).offset ∧
      ∃ before later, cs = before ++ .label name :: later ∧ (made before).find? name = none ∧
        place = (made before).offset) ∧
    (∀ later, (made cs).slots.toList <+: (made (cs ++ later)).slots.toList ∧
      ∀ name place, (made cs).find? name = some place →
        (made (cs ++ later)).find? name = some place ∧
        ∀ name' place', (made cs).find? name' = none →
          (made (cs ++ later)).find? name' = some place' → place ≤ place') ∧
    ∀ c, (perform c).run (made cs) = Result.atomic (made cs) ((made cs).call c).result := by
  have s : Sound (made cs) := Sound.empty.after cs
  refine ⟨s.offset, ?labels, ?later, fun c => perform_run c (made cs)⟩
  case labels => exact fun name place h => ⟨s.bounded h, exists_definition rfl h⟩
  case later =>
    intro later
    rw [made_append]
    have k := after_keeps (made cs) later
    refine ⟨k.slots, fun name place h => ⟨k.labels h, ?_⟩⟩
    exact fun name' place' hn h' => (s.bounded h).trans (k.later hn h')

def attempts : List Call :=
  [.label "a", .instruction 4 [⟨1, .label "b"⟩],
    .instruction 1 [⟨0, .constant 7⟩, ⟨0, .label "a"⟩, ⟨1, .constant 3⟩], .label "a", .label "b",
    .data [.constant 5]]

theorem calls_in_place_attempts :
    made attempts = ⟨#[.word 104, .reference "b", .word 5], 3, [("a", 0), ("b", 2)]⟩ ∧
    (∃ before later, attempts = before ++ .label "b" :: later ∧
      (made before).find? "b" = none ∧ (made before).offset = 2) ∧
    (perform (.label "a")).run (made attempts) =
      .error (.duplicateLabel "a") (made attempts) := by
  have ⟨_, labels, _, atomic⟩ := calls_in_place attempts
  have hm : made attempts = ⟨#[.word 104, .reference "b", .word 5], 3, [("a", 0), ("b", 2)]⟩ := by
    decide +kernel
  refine ⟨hm, ?defined, ?refused⟩
  case defined =>
    have ⟨_, before, later, he, hn, hp⟩ := labels "b" 2 (by rw [hm]; decide)
    exact ⟨before, later, he, hn, hp.symm⟩
  case refused =>
    have hr : ((made attempts).call (.label "a")).result = .error (.duplicateLabel "a") := by
      rw [hm]
      decide +kernel
    rw [atomic, hr]
    rfl

end Layout
end Intcode.Assembly
