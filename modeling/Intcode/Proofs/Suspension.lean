import Intcode.Proofs.Run

namespace Intcode

-- Only an instruction that reads an input looks at the inputs, and then only at the first one.
theorem Instruction.effect_append
    {i : Instruction} {memory : Memory} {strict : Bool} {inputs vs : List Int} {op : Opcode}
    (h : op = .input → inputs ≠ []) :
    i.effect memory strict (inputs ++ vs) op = i.effect memory strict inputs op := by
  cases op
  case input =>
    cases inputs
    case nil  => exact absurd rfl (h rfl)
    case cons => rfl
  all_goals rfl

namespace Machine

variable {settings : Settings} {m m₁ m₂ m₃ : Machine} {strict : Bool} {op : Opcode} {e : Effect}
variable {vs c d : List Int} {cs : List (List Int)}

def addInputs (m : Machine) (vs : List Int) : Machine :=
  vs.foldl addInput m

theorem addInputs_eq (m : Machine) (vs : List Int) :
    m.addInputs vs = { m with inputs := m.inputs ++ vs } := by
  induction vs generalizing m
  case nil          => simp [addInputs]
  case cons v vs hi => simpa [addInputs, addInput] using hi (m.addInput v)

@[simp] theorem addInputs_status (m : Machine) (vs : List Int) :
    (m.addInputs vs).status = m.status := by
  rw [addInputs_eq]

@[simp] theorem addInputs_outputs (m : Machine) (vs : List Int) :
    (m.addInputs vs).outputs = m.outputs := by
  rw [addInputs_eq]

theorem addInputs_append (m : Machine) (c d : List Int) :
    m.addInputs (c ++ d) = (m.addInputs c).addInputs d :=
  List.foldl_append

theorem addInputs_ended_iff : (m.addInputs vs).Ended ↔ m.Ended := by
  simp [Ended]

theorem addInputs_showable_iff : (m.addInputs vs).Showable settings ↔ m.Showable settings := by
  simp [Showable, addInputs_eq]

theorem addInputs_wake (m : Machine) (vs : List Int) :
    (m.addInputs vs).wake = m.wake.addInputs vs := by
  simp only [addInputs_eq, wake]

theorem addInputs_count (m : Machine) (vs : List Int) :
    (m.addInputs vs).count = m.count.addInputs vs := by
  simp only [addInputs_eq, count]
  split <;> rfl

-- The machine is at an instruction that reads an input, and there is none.
def Stalled (m : Machine) : Prop :=
  m.inputs = [] ∧ ∃ i, m.fetch = .ok (.input, i)

theorem Stalled.next_eq (h : m.Stalled) : m.next strict = .ok (.input, .wait) := by
  have ⟨hi, i, hf⟩ := h
  exact next_eq_ok_iff.mpr ⟨i, hf, by rw [hi]; rfl⟩

theorem stalled_of_next_eq_wait (h : m.next strict = .ok (op, .wait)) : m.Stalled := by
  have ⟨i, hf, he⟩ := next_eq_ok_iff.mp h
  obtain ⟨rfl, hi⟩ := Instruction.effect_suits he
  exact ⟨hi, i, hf⟩

theorem addInputs_next (h : ¬m.Stalled) : (m.addInputs vs).next strict = m.next strict := by
  have hf : (m.addInputs vs).fetch = m.fetch := by simp only [fetch, addInputs_eq]
  simp only [next, hf]
  cases hm : m.fetch
  case error => rfl
  case ok p =>
    have hi : p.1 = .input → m.inputs ≠ [] := fun hop hi => h ⟨hi, p.2, by rw [hm, ←hop]⟩
    simp only [addInputs_eq, Result.ok_bind, Instruction.effect_append hi]

theorem addInputs_perform (h : m.next strict = .ok (op, e)) :
    (m.addInputs vs).perform op e = (m.perform op e).addInputs vs := by
  obtain ⟨_, -, he⟩ := next_eq_ok_iff.mp h
  cases e
  case take =>
    obtain ⟨-, hh⟩ := Instruction.effect_suits he
    have hi : m.inputs ≠ [] := by intro hi; simp [hi] at hh
    simp [addInputs_eq, perform, List.tail_append_of_ne_nil hi]
  all_goals simp [addInputs_eq, perform]

-- A machine that is not stalled steps in the same way whatever inputs are added behind its own.
theorem step_addInputs_iff (h : ¬m.Stalled) :
    Step settings (m.addInputs vs) m₂ ↔ ∃ m₁, Step settings m m₁ ∧ m₁.addInputs vs = m₂ := by
  constructor
  case mp =>
    intro e
    cases e
    case perform hn hs =>
      rw [addInputs_next h] at hn
      rw [addInputs_perform hn, addInputs_showable_iff] at hs
      exact ⟨_, .perform hn hs, by rw [addInputs_perform hn, addInputs_count]⟩
    case stop hn hw hs =>
      rw [addInputs_next h] at hn
      rw [addInputs_showable_iff] at hs
      simp only [addInputs_eq] at hw
      refine ⟨_, .stop hn hw hs, ?_⟩
      rw [←addInputs_count]
      simp only [addInputs_eq, stopOn]
  case mpr =>
    rintro ⟨m₁, e, rfl⟩
    cases e
    case perform hn hs =>
      rw [←addInputs_count, ←addInputs_perform hn]
      refine .perform (by rw [addInputs_next h, hn]) ?_
      rwa [addInputs_perform hn, addInputs_showable_iff]
    case stop cause _ hn hw hs =>
      have he : (m.addInputs vs).stopOn ⟨cause, some (m.addInputs vs).pc⟩ =
          (m.stopOn ⟨cause, some m.pc⟩).addInputs vs := by simp only [addInputs_eq, stopOn]
      rw [←addInputs_count, ←he]
      rw [←addInputs_next h] at hn
      exact .stop hn (by simpa only [addInputs_eq] using hw) (addInputs_showable_iff.mpr hs)

def suspend (m : Machine) : Machine :=
  { m with status := .waiting }

theorem Stalled.step (h : m.Stalled) (hs : m.Showable settings) : Step settings m m.suspend := by
  have hc : (m.perform .input .wait).count = m.suspend := by simp [perform, count, suspend]
  exact hc ▸ .perform h.next_eq hs

theorem Step.runnable_or_ended (e : Step settings m₁ m₂) (hr : m₁.status = .runnable)
    (h : ¬m₁.Stalled) : m₂.status = .runnable ∨ m₂.Ended := by
  cases e
  case perform e hn _ =>
    cases e
    case wait => exact absurd (stalled_of_next_eq_wait hn) h
    case halt => exact .inr (.inl (by simp [Machine.perform]))
    all_goals exact .inl (by simpa [Machine.perform] using hr)
  case stop => exact .inr (.inr (by simp [stopOn]))

theorem Steps.showable (es : Steps settings m₁ m₂) (hs : m₁.Showable settings) :
    m₂.Showable settings := by
  induction es
  case refl          => exact hs
  case step e _ hi   => exact hi e.showable

theorem Resumes.showable (r : Resumes settings m₁ m₂) (hs : m₁.Showable settings) :
    m₂.Showable settings := by
  by_cases h : m₁.Ended
  case pos => exact (resumes_iff_of_ended h).mp r ▸ hs
  case neg => exact ((resumes_iff_of_not_ended h).mp r).steps.showable hs

theorem Stalled.resumes_iff (h : m.status = .runnable) :
    Resumes settings (m.suspend.addInputs vs) m₂ ↔ Runs settings (m.addInputs vs) m₂ := by
  have hw : (m.suspend.addInputs vs).wake = m.addInputs vs := by
    simp only [addInputs_eq, suspend, wake, ←h]
  rw [resumes_iff_of_not_ended (by simp [Ended, suspend]), hw]

-- The induction is on the steps of the longer run. Up to the place where the machine stalls, both
-- runs take the same steps; from there on the longer run is what `resume` does.
theorem runs_of_runs_addInputs (unlimited : settings.stepLimit = none)
    (hr : m.status = .runnable) (hs : m.Showable settings)
    (r : Runs settings (m.addInputs vs) m₂) :
    ∃ m₁, Runs settings m m₁ ∧ Resumes settings (m₁.addInputs vs) m₂ := by
  have ⟨es, stopped⟩ := (runs_iff unlimited).mp r
  generalize ha : m.addInputs vs = a at es
  induction es generalizing m
  case refl =>
    subst ha
    exact absurd (by simpa using hr) stopped
  case step e es hi =>
    subst ha
    by_cases h : m.Stalled
    case pos =>
      refine ⟨m.suspend, ?_, (Stalled.resumes_iff hr).mpr r⟩
      exact (runs_iff unlimited).mpr ⟨.step hr (h.step hs) .refl, by simp [suspend]⟩
    case neg =>
      obtain ⟨m', e', rfl⟩ := (step_addInputs_iff h).mp e
      cases e'.runnable_or_ended hr h
      case inl hr' =>
        have r' := (runs_iff unlimited).mpr ⟨es, stopped⟩
        have ⟨m₁, r₁, r₂⟩ := hi hr' e'.showable r' stopped rfl
        exact ⟨m₁, (runs_iff unlimited).mpr ⟨.step hr e' r₁.steps, r₁.stopped⟩, r₂⟩
      case inr he =>
        have hn : m'.status ≠ .runnable := fun hr' => not_ended_of_runnable hr' he
        refine ⟨m', (runs_iff unlimited).mpr ⟨.step hr e' .refl, hn⟩, ?_⟩
        rw [resumes_iff_of_ended (addInputs_ended_iff.mpr he)]
        exact es.eq_of_stopped (by simpa using hn)

theorem runs_addInputs_of_runs (unlimited : settings.stepLimit = none)
    (hr : m.status = .runnable) (hs : m.Showable settings) (r₁ : Runs settings m m₁)
    (r₂ : Resumes settings (m₁.addInputs vs) m₂) : Runs settings (m.addInputs vs) m₂ := by
  have ⟨es, stopped⟩ := (runs_iff unlimited).mp r₁
  induction es
  case refl => exact absurd hr stopped
  case step m _ _ _ e es hi =>
    by_cases h : m.Stalled
    case pos =>
      obtain rfl := (h.step hs).deterministic e
      obtain rfl := es.eq_of_stopped (by simp [suspend])
      exact (Stalled.resumes_iff hr).mp r₂
    case neg =>
      have e' : Step settings (m.addInputs vs) _ := (step_addInputs_iff h).mpr ⟨_, e, rfl⟩
      have hr' := (addInputs_status m vs).trans hr
      cases e.runnable_or_ended hr h
      case inl hr₁ =>
        have r := hi hr₁ e.showable ((runs_iff unlimited).mpr ⟨es, stopped⟩) r₂ stopped
        exact (runs_iff unlimited).mpr ⟨.step hr' e' r.steps, r.stopped⟩
      case inr he =>
        have hn := fun hr₁ => not_ended_of_runnable hr₁ he
        obtain rfl := es.eq_of_stopped hn
        obtain rfl := (resumes_iff_of_ended (addInputs_ended_iff.mpr he)).mp r₂
        exact (runs_iff unlimited).mpr ⟨.step hr' e' .refl, by simpa using hn⟩

-- To resume with some inputs is to resume with a part of them and then, where the machine has
-- stopped, with the rest.
theorem resumes_addInputs_append_iff (unlimited : settings.stepLimit = none)
    (hs : m.Showable settings) :
    Resumes settings (m.addInputs (c ++ d)) m₂ ↔
      ∃ m₁, Resumes settings (m.addInputs c) m₁ ∧ Resumes settings (m₁.addInputs d) m₂ := by
  rw [addInputs_append]
  by_cases he : m.Ended
  case pos =>
    have hc : (m.addInputs c).Ended := addInputs_ended_iff.mpr he
    simp [resumes_iff_of_ended hc]
  case neg =>
    have hc : ¬(m.addInputs c).Ended := fun h => he (addInputs_ended_iff.mp h)
    have hd : ¬((m.addInputs c).addInputs d).Ended := fun h => hc (addInputs_ended_iff.mp h)
    have hw : (m.addInputs c).wake.Showable settings := addInputs_showable_iff.mpr hs
    rw [resumes_iff_of_not_ended hd, addInputs_wake]
    simp only [resumes_iff_of_not_ended hc]
    constructor
    case mp  => exact runs_of_runs_addInputs unlimited rfl hw
    case mpr => exact fun ⟨_, r₁, r₂⟩ => runs_addInputs_of_runs unlimited rfl hw r₁ r₂

inductive Feeds (settings : Settings) : Machine → List (List Int) → Machine → Prop
  | nil {m : Machine} : Feeds settings m [] m
  | cons {m₁ m₂ m₃ : Machine} {c : List Int} {cs : List (List Int)}
    (r : Resumes settings (m₁.addInputs c) m₂) (f : Feeds settings m₂ cs m₃) :
    Feeds settings m₁ (c :: cs) m₃

theorem feeds_cons_iff (unlimited : settings.stepLimit = none) (hs : m₁.Showable settings) :
    Feeds settings m₁ (c :: cs) m₂ ↔ Resumes settings (m₁.addInputs (c ++ cs.flatten)) m₂ := by
  induction cs generalizing m₁ c
  case nil =>
    rw [List.flatten_nil, List.append_nil]
    constructor
    case mp  => rintro (_ | ⟨r, ⟨⟩⟩); exact r
    case mpr => exact fun r => .cons r .nil
  case cons d cs hi =>
    rw [resumes_addInputs_append_iff unlimited hs, List.flatten_cons]
    have hc {m : Machine} (r : Resumes settings (m₁.addInputs c) m) : m.Showable settings :=
      r.showable (addInputs_showable_iff.mpr hs)
    constructor
    case mp =>
      rintro (_ | ⟨r, f⟩)
      exact ⟨_, r, (hi (hc r)).mp f⟩
    case mpr =>
      rintro ⟨m, r, r'⟩
      exact .cons r ((hi (hc r)).mpr r')

def RunsInChunks (settings : Settings) (m₁ : Machine) (c : List Int) (cs : List (List Int))
    (m₂ : Machine) : Prop :=
  ∃ m, Runs settings (m₁.setInputs c) m ∧ Feeds settings m cs m₂

theorem ofWords_setInputs (ws vs : List Int) :
    (ofWords ws).setInputs vs = (ofWords ws).addInputs vs := by
  rw [addInputs_eq]
  rfl

theorem ofWords_showable (ws : List Int) : (ofWords ws).Showable settings := by
  intro _
  exact (by decide : Decimal.Writable 0)

theorem runs_ofWords_iff (ws vs : List Int) :
    Runs settings ((ofWords ws).setInputs vs) m ↔
      Resumes settings ((ofWords ws).addInputs vs) m := by
  have hr : ((ofWords ws).addInputs vs).status = .runnable := by simp [ofWords, ofMemory]
  have hw : ((ofWords ws).addInputs vs).wake = (ofWords ws).addInputs vs := by
    rw [addInputs_wake]
    rfl
  rw [resumes_iff_of_not_ended (not_ended_of_runnable hr), hw, ofWords_setInputs]

theorem runsInChunks_iff (unlimited : settings.stepLimit = none) (ws : List Int) :
    RunsInChunks settings (ofWords ws) c cs m ↔
      Runs settings ((ofWords ws).setInputs (c ++ cs.flatten)) m := by
  rw [runs_ofWords_iff, ←feeds_cons_iff unlimited (ofWords_showable ws)]
  simp only [RunsInChunks, runs_ofWords_iff]
  constructor
  case mp  => exact fun ⟨_, r, f⟩ => .cons r f
  case mpr => rintro (_ | ⟨r, f⟩); exact ⟨_, r, f⟩

theorem suspension_transparent (unlimited : settings.stepLimit = none) (ws c : List Int)
    (cs : List (List Int)) :
    ((∃ m, RunsInChunks settings (ofWords ws) c cs m) ↔
        ∃ m, Runs settings ((ofWords ws).setInputs (c ++ cs.flatten)) m) ∧
      ∀ m₁ m₂, RunsInChunks settings (ofWords ws) c cs m₁ →
        Runs settings ((ofWords ws).setInputs (c ++ cs.flatten)) m₂ → m₁ = m₂ := by
  constructor
  case left  => exact exists_congr fun _ => runsInChunks_iff unlimited ws
  case right => exact fun _ _ r₁ r₂ => ((runsInChunks_iff unlimited ws).mp r₁).deterministic r₂

theorem suspension_transparent_sum :
    Settings.default.stepLimit = none ∧
      ∃ m, RunsInChunks .default (ofWords [3, 0, 3, 1, 1, 0, 1, 0, 4, 0, 99]) []
        [[], [20], [22]] m ∧ m.status = .halted ∧ m.outputs = #[42] := by
  have ⟨returns, agree⟩ := @suspension_transparent .default rfl
    [3, 0, 3, 1, 1, 0, 1, 0, 4, 0, 99] [] [[], [20], [22]]
  have ⟨m, r, h⟩ : ∃ m, Runs .default
      ((ofWords [3, 0, 3, 1, 1, 0, 1, 0, 4, 0, 99]).setInputs [20, 22]) m ∧
        m.status = .halted ∧ m.outputs = #[42] := ⟨_, ⟨6, _, rfl⟩, rfl, rfl⟩
  have ⟨m', r'⟩ := returns.mpr ⟨m, r⟩
  exact ⟨rfl, m', r', agree m' m r' r ▸ h⟩

end Machine
end Intcode
