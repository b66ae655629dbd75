import Mathlib.Logic.Relation
import Mathlib.Data.List.Basic
import Intcode.Proofs.Suspension

namespace Intcode

namespace Machine

variable {settings : Settings} {start m m₁ m₂ : Machine} {vs ws : List Int} {v : Int}

inductive Follows (settings : Settings) (start : Machine) : List Int → Machine → Prop
  | loaded {vs : List Int} : Follows settings start vs (start.addInputs vs)
  | resumed {c d : List Int} {m : Machine} (r : Resumes settings (start.addInputs c) m) :
    Follows settings start (c ++ d) (m.addInputs d)

def Settled (m : Machine) : Prop :=
  m.Ended ∨ (m.status = .waiting ∧ m.inputs = [])

namespace Follows

theorem addInput (v : Int) : (Follows settings start vs m) →
    Follows settings start (vs ++ [v]) (m.addInput v)
  | loaded => by
    have h : (start.addInputs vs).addInput v = start.addInputs (vs ++ [v]) :=
      (addInputs_append start vs [v]).symm
    exact h ▸ .loaded
  | resumed (d := d) (m := m) r => by
    have h : (m.addInputs d).addInput v = m.addInputs (d ++ [v]) := (addInputs_append m d [v]).symm
    rw [h, List.append_assoc]
    exact .resumed r

theorem of_resumes (r : Resumes settings (start.addInputs vs) m) : Follows settings start vs m := by
  have f : Follows settings start (vs ++ []) (m.addInputs []) := .resumed r
  rwa [List.append_nil] at f

theorem resume (unlimited : settings.stepLimit = none) (hs : start.Showable settings)
    (f : Follows settings start vs m₁) (r : Resumes settings m₁ m₂) :
    Follows settings start vs m₂ := by
  cases f
  case loaded     => exact of_resumes r
  case resumed r' => exact of_resumes ((resumes_addInputs_append_iff unlimited hs).mpr ⟨_, r', r⟩)

theorem resumes (unlimited : settings.stepLimit = none) (hs : start.Showable settings)
    (hr : start.status = .runnable) (f : Follows settings start vs m) (h : m.Settled) :
    Resumes settings (start.addInputs vs) m := by
  cases f
  case loaded =>
    have hr' := (addInputs_status start vs).trans hr
    cases h
    case inl he => exact absurd he (not_ended_of_runnable hr')
    case inr hw => simp [hr] at hw
  case resumed c d m r =>
    cases h
    case inl he =>
      rw [resumes_addInputs_append_iff unlimited hs]
      exact ⟨m, r, (resumes_iff_of_ended he).mpr rfl⟩
    case inr hw =>
      obtain ⟨-, rfl⟩ : m.inputs = [] ∧ d = [] := by simpa [addInputs_eq] using hw.right
      rwa [List.append_nil]

theorem outputs_isPrefix (unlimited : settings.stepLimit = none) (hs : start.Showable settings)
    (f : Follows settings start vs m₁) (h : vs <+: ws)
    (r : Resumes settings (start.addInputs ws) m₂) :
    m₁.outputs.toList <+: m₂.outputs.toList := by
  obtain ⟨rest, rfl⟩ := h
  cases f
  case loaded => simpa using r.outputs_isPrefix
  case resumed r₁ =>
    rw [List.append_assoc, resumes_addInputs_append_iff unlimited hs] at r
    have ⟨m', r₁', r₂⟩ := r
    obtain rfl := r₁.deterministic r₁'
    simpa using r₂.outputs_isPrefix

end Follows
end Machine

-- Machines with their settings, programs and first inputs, each wired to at most one successor, and
-- no two to the same one.
structure Network (ι : Type) where
  settings  : ι → Settings
  program   : ι → List Int
  inputs    : ι → List Int
  successor : ι → Option ι
  unlimited : ∀ i, (settings i).stepLimit = none
  injective : ∀ {i j k}, successor i = some k → successor j = some k → i = j

namespace Network

@[ext]
structure State (ι : Type) where
  machines  : ι → Machine
  delivered : ι → Nat

variable {ι : Type} {n : Network ι} {s s₁ s₂ : State ι} {h h₁ h₂ : ι → List Int}

def initial (n : Network ι) : State ι where
  machines i  := (Machine.ofWords (n.program i)).setInputs (n.inputs i)
  delivered _ := 0

-- A machine is resumed, and the call returns; or the first output of a machine that was not passed
-- on yet is added to the inputs of its successor.
inductive Step [DecidableEq ι] (n : Network ι) (s : State ι) : State ι → Prop
  | resume {i : ι} {m : Machine} (r : Machine.Resumes (n.settings i) (s.machines i) m) :
    Step n s { s with machines := Function.update s.machines i m }
  | deliver {i j : ι} {v : Int} (wired : n.successor i = some j)
    (output : (s.machines i).outputs[s.delivered i]? = some v) :
    Step n s {
      machines  := Function.update s.machines j ((s.machines j).addInput v)
      delivered := Function.update s.delivered i (s.delivered i + 1)
    }

abbrev Steps [DecidableEq ι] (n : Network ι) : State ι → State ι → Prop :=
  Relation.ReflTransGen (Step n)

structure Finished (n : Network ι) (s : State ι) : Prop where
  delivered : ∀ {i j}, n.successor i = some j → s.delivered i = (s.machines i).outputs.size
  settled   : ∀ i, (s.machines i).Settled

-- The inputs that each machine was given from the start on: its own, and then what its predecessor
-- has passed on.
structure History (n : Network ι) (s : State ι) (h : ι → List Int) : Prop where
  follows : ∀ i, Machine.Follows (n.settings i) (.ofWords (n.program i)) (h i) (s.machines i)
  bounded : ∀ i, s.delivered i ≤ (s.machines i).outputs.size
  wired   : ∀ {i j}, n.successor i = some j →
    h j = n.inputs j ++ (s.machines i).outputs.toList.take (s.delivered i)
  free    : ∀ {j}, (∀ i, n.successor i ≠ some j) → h j = n.inputs j
  idle    : ∀ {i}, n.successor i = none → s.delivered i = 0

theorem Finished.resumes (f : Finished n s) (hist : History n s h) (i : ι) :
    Machine.Resumes (n.settings i) ((Machine.ofWords (n.program i)).addInputs (h i))
      (s.machines i) :=
  (hist.follows i).resumes (n.unlimited i) (Machine.ofWords_showable _) rfl (f.settled i)

namespace History

theorem initial (n : Network ι) : History n n.initial n.inputs where
  follows i := by
    simp only [Network.initial, Machine.ofWords_setInputs]
    exact .loaded
  bounded _ := Nat.zero_le _
  wired _   := by simp [Network.initial]
  free _    := rfl
  idle _    := rfl

variable [DecidableEq ι]

theorem resume {i : ι} {m : Machine} (hist : History n s h)
    (r : Machine.Resumes (n.settings i) (s.machines i) m) :
    History n { s with machines := Function.update s.machines i m } h := by
  have grows (k : ι) : (s.machines k).outputs.toList <+:
      (Function.update s.machines i m k).outputs.toList := by
    by_cases hk : k = i
    case pos => subst hk; simpa using r.outputs_isPrefix
    case neg => simp [Function.update_of_ne hk]
  have bounded (k : ι) : s.delivered k ≤ (s.machines k).outputs.toList.length := by
    simpa using hist.bounded k
  constructor
  case follows =>
    intro k
    by_cases hk : k = i
    case pos =>
      subst hk
      simpa using (hist.follows k).resume (n.unlimited k) (Machine.ofWords_showable _) r
    case neg => simpa [Function.update_of_ne hk] using hist.follows k
  case bounded => exact fun k => by simpa using Nat.le_trans (bounded k) (grows k).length_le
  case wired =>
    intro k j hw
    have ⟨more, hm⟩ := grows k
    simp only [←hm, List.take_append_of_le_length (bounded k)]
    exact hist.wired hw
  case free => exact hist.free
  case idle => exact hist.idle

theorem deliver {i j : ι} {v : Int} (hist : History n s h) (hw : n.successor i = some j)
    (output : (s.machines i).outputs[s.delivered i]? = some v) :
    History n {
      machines  := Function.update s.machines j ((s.machines j).addInput v)
      delivered := Function.update s.delivered i (s.delivered i + 1)
    } (Function.update h j (h j ++ [v])) := by
  have same (k : ι) : (Function.update s.machines j ((s.machines j).addInput v) k).outputs =
      (s.machines k).outputs := by
    by_cases hk : k = j
    case pos => subst hk; simp [Machine.addInput]
    case neg => simp [Function.update_of_ne hk]
  constructor
  case follows =>
    intro k
    by_cases hk : k = j
    case pos => subst hk; simpa using (hist.follows k).addInput v
    case neg => simpa [Function.update_of_ne hk] using hist.follows k
  case bounded =>
    intro k
    simp only [same]
    by_cases hk : k = i
    case pos =>
      subst hk
      rw [Function.update_self]
      exact (Array.getElem?_eq_some_iff.mp output).fst
    case neg => simpa [Function.update_of_ne hk] using hist.bounded k
  case wired =>
    intro k l hk
    simp only [same]
    by_cases hi : k = i
    case pos =>
      subst hi
      obtain rfl : j = l := by simpa [hw] using hk
      have ho : (s.machines k).outputs.toList[s.delivered k]? = some v := by simpa using output
      simp [hist.wired hw, List.take_add_one, ho]
    case neg =>
      have hl : l ≠ j := fun hl => hi (n.injective hk (hl ▸ hw))
      simpa [Function.update_of_ne hi, Function.update_of_ne hl] using hist.wired hk
  case free =>
    intro k hk
    have hj : k ≠ j := fun hj => hk i (hj ▸ hw)
    simpa [Function.update_of_ne hj] using hist.free hk
  case idle =>
    intro k hk
    have hi : k ≠ i := by rintro rfl; simp [hw] at hk
    simpa [Function.update_of_ne hi] using hist.idle hk

-- The history is not a part of the state, but the state determines it.
omit [DecidableEq ι] in
theorem deterministic (hist₁ : History n s h₁) (hist₂ : History n s h₂) : h₁ = h₂ := by
  funext j
  by_cases hw : ∃ i, n.successor i = some j
  case pos =>
    have ⟨i, hw⟩ := hw
    rw [hist₁.wired hw, hist₂.wired hw]
  case neg =>
    have hf := not_exists.mp hw
    rw [hist₁.free hf, hist₂.free hf]

omit [DecidableEq ι] in
theorem inputs_isPrefix (hist : History n s h) (j : ι) : n.inputs j <+: h j := by
  by_cases hw : ∃ i, n.successor i = some j
  case pos =>
    have ⟨i, hw⟩ := hw
    exact hist.wired hw ▸ List.prefix_append ..
  case neg => exact hist.free (not_exists.mp hw) ▸ List.prefix_refl _

end History

theorem Finished.delivered_eq (f : Finished n s) (hist : History n s h) (i : ι) :
    s.delivered i = if (n.successor i).isSome then (s.machines i).outputs.size else 0 := by
  cases hw : n.successor i
  case none => simpa using hist.idle hw
  case some => simpa using f.delivered hw

namespace Steps

variable [DecidableEq ι]

theorem history (e : Steps n n.initial s) : ∃ h, History n s h := by
  induction e
  case refl => exact ⟨n.inputs, .initial n⟩
  case tail e hi =>
    have ⟨h, hist⟩ := hi
    cases e
    case resume r          => exact ⟨h, hist.resume r⟩
    case deliver hw output => exact ⟨_, hist.deliver hw output⟩

-- No order of steps gets a machine further than a finished network has got it. By induction on the
-- steps: what a machine has passed on is a part of its outputs, and these are the first outputs
-- that the machine has in the end, where all of them were passed on.
theorem history_isPrefix (e : Steps n n.initial s₁) (hist₁ : History n s₁ h₁) (f : Finished n s₂)
    (hist₂ : History n s₂ h₂) (k : ι) : h₁ k <+: h₂ k := by
  induction e generalizing h₁ k
  case refl => exact hist₁.deterministic (.initial n) ▸ hist₂.inputs_isPrefix k
  case tail s _ e e' hi =>
    have ⟨h, hist⟩ := Steps.history e
    cases e'
    case resume r => exact hist₁.deterministic (hist.resume r) ▸ hi hist k
    case deliver i j v hw output =>
      obtain rfl := hist₁.deterministic (hist.deliver hw output)
      by_cases hk : k = j
      case neg => simpa [Function.update_of_ne hk] using hi hist k
      case pos =>
        subst hk
        have ho : (s.machines i).outputs.toList[s.delivered i]? = some v := by simpa using output
        have passed : h k ++ [v] =
            n.inputs k ++ (s.machines i).outputs.toList.take (s.delivered i + 1) := by
          simp [hist.wired hw, List.take_add_one, ho]
        have all : h₂ k = n.inputs k ++ (s₂.machines i).outputs.toList := by
          rw [hist₂.wired hw, f.delivered hw, List.take_of_length_le (by simp)]
        have grows := (hist.follows i).outputs_isPrefix (n.unlimited i) (Machine.ofWords_showable _)
          (hi hist i) (f.resumes hist₂ i)
        rw [Function.update_self, passed, all, List.prefix_append_right_inj]
        exact (List.take_prefix ..).trans grows

end Steps

variable [DecidableEq ι]

theorem confluent (e₁ : Steps n n.initial s₁) (e₂ : Steps n n.initial s₂) (f₁ : Finished n s₁)
    (f₂ : Finished n s₂) : s₁ = s₂ := by
  have ⟨h₁, hist₁⟩ := Steps.history e₁
  have ⟨h₂, hist₂⟩ := Steps.history e₂
  have hh (i : ι) : h₁ i = h₂ i := by
    have p₁ := Steps.history_isPrefix e₁ hist₁ f₂ hist₂ i
    have p₂ := Steps.history_isPrefix e₂ hist₂ f₁ hist₁ i
    exact p₁.eq_of_length (Nat.le_antisymm p₁.length_le p₂.length_le)
  have hm (i : ι) : s₁.machines i = s₂.machines i :=
    (f₁.resumes hist₁ i).deterministic (hh i ▸ f₂.resumes hist₂ i)
  ext1
  case machines  => exact funext hm
  case delivered => exact funext fun i => by rw [f₁.delivered_eq hist₁, f₂.delivered_eq hist₂, hm]

def ring : Network Bool where
  settings _  := .default
  program i   := if i then [3, 0, 1001, 0, 1, 0, 4, 0, 99] else [104, 5, 3, 0, 99]
  inputs _    := []
  successor i := some !i
  unlimited _ := rfl
  injective   := by decide

-- In the first order the machine that answers is resumed too early, and then once more.
theorem confluent_ring :
    ∃ s₁ s₂, Steps ring ring.initial s₁ ∧ Steps ring ring.initial s₂ ∧ Finished ring s₁ ∧
      Finished ring s₂ ∧ s₁ = s₂ ∧ (s₂.machines false).memory.get 0 = 6 := by
  have ⟨s₁, e₁, f₁⟩ : ∃ s, Steps ring ring.initial s ∧ Finished ring s :=
    ⟨_, .tail (.tail (.tail (.tail (.tail (.tail .refl
      (.resume (i := true) ⟨9, _, rfl⟩))
      (.resume (i := false) ⟨9, _, rfl⟩))
      (.deliver (i := false) rfl rfl))
      (.resume (i := true) ⟨9, _, rfl⟩))
      (.deliver (i := true) rfl rfl))
      (.resume (i := false) ⟨9, _, rfl⟩),
    { delivered := fun {i} _ _ => by cases i <;> rfl
      settled   := fun i => by cases i <;> exact .inl (.inl rfl) }⟩
  have ⟨s₂, e₂, f₂, h⟩ : ∃ s, Steps ring ring.initial s ∧ Finished ring s ∧
      (s.machines false).memory.get 0 = 6 :=
    ⟨_, .tail (.tail (.tail (.tail (.tail .refl
      (.resume (i := false) ⟨9, _, rfl⟩))
      (.deliver (i := false) rfl rfl))
      (.resume (i := true) ⟨9, _, rfl⟩))
      (.deliver (i := true) rfl rfl))
      (.resume (i := false) ⟨9, _, rfl⟩),
    { delivered := fun {i} _ _ => by cases i <;> rfl
      settled   := fun i => by cases i <;> exact .inl (.inl rfl) }, rfl⟩
  exact ⟨s₁, s₂, e₁, e₂, f₁, f₂, confluent e₁ e₂ f₁ f₂, h⟩

end Network
end Intcode
