import Intcode.Rack
import Intcode.Proofs.Containment
import Intcode.Proofs.StepLimit

namespace Intcode

namespace Value

def given? : Value → Option Value
  | null => none
  | v    => some v

def integer? : Value → Option Int
  | int n  => some n
  | bool b => some b.toInt
  | _      => none

def IsPositive (v : Value) : Prop :=
  ∃ n, v.integer? = some n ∧ 0 < n

instance : DecidablePred IsPositive := fun v =>
  match h : v.integer? with
  | some n => decidable_of_iff (0 < n) (by simp [IsPositive, h])
  | none   => .isFalse (by simp [IsPositive, h])

instance (v : Value) : Decidable (v = null) :=
  match v with
  | null => .isTrue rfl
  | bool _ | int _ | number _ | string _ | moment _ | list _ | table _ => .isFalse nofun

end Value

namespace StepLimit

variable {v : Value} {l : StepLimit}

theorem integer?_value (l : StepLimit) : l.value.integer? = some (l.bound : Int) := by
  cases l <;> rfl

theorem isPositive_value (l : StepLimit) : l.value.IsPositive :=
  ⟨l.bound, integer?_value l, Int.natCast_pos.mpr l.bound_pos⟩

theorem value_of_ofValue? (h : ofValue? v = some l) : l.value = v := by
  cases v
  case int n =>
    rw [ofValue?] at h
    split at h
    case isFalse => simp at h
    case isTrue hn =>
      obtain rfl := Option.some.inj h
      simp [value, hn.le]
  case bool b =>
    cases b
    case false => simp [ofValue?] at h
    case true  =>
      obtain rfl := Option.some.inj h
      rfl
  all_goals simp [ofValue?] at h

theorem exists_ofValue?_iff : (∃ l, ofValue? v = some l) ↔ v.IsPositive := by
  constructor
  case mp =>
    intro ⟨l, h⟩
    exact value_of_ofValue? h ▸ isPositive_value l
  case mpr =>
    intro ⟨n, hn, hp⟩
    cases v
    case int n' =>
      obtain rfl := Option.some.inj hn
      exact ⟨_, dif_pos hp⟩
    case bool b =>
      obtain rfl := Option.some.inj hn
      cases b
      case false => simp at hp
      case true  => exact ⟨.once, rfl⟩
    all_goals simp [Value.integer?] at hn

end StepLimit

namespace Settings

variable {s t : Settings} {u : Update} {v : Value}

def Update.Acceptable (u : Update) : Prop :=
  u.stepLimit = .null ∨ u.stepLimit.IsPositive

instance : DecidablePred Update.Acceptable :=
  fun _ => inferInstanceAs (Decidable (_ ∨ _))

theorem newValue_eq (old v : Value) : newValue old v = v.given?.getD old := by
  cases v <;> rfl

theorem newLimit_of_ofValue? {l : StepLimit} (old : Option StepLimit)
    (h : StepLimit.ofValue? v = some l) : newLimit old v = .ok (some l) := by
  cases v
  case null => simp [StepLimit.ofValue?] at h
  all_goals simp [newLimit, h]

theorem newLimit_of_not_isPositive (old : Option StepLimit) (hn : v ≠ .null)
    (hp : ¬v.IsPositive) : ∃ e, newLimit old v = .error e := by
  have h : StepLimit.ofValue? v = none :=
    Option.eq_none_iff_forall_ne_some.mpr fun l h => hp (StepLimit.exists_ofValue?_iff.mp ⟨l, h⟩)
  cases v
  case null => exact absurd rfl hn
  all_goals
    simp only [newLimit, h]
    split <;> simp

theorem newLimit_eq_ok {old new : Option StepLimit} (h : newLimit old v = .ok new) :
    v = .null ∧ new = old ∨ ∃ l, new = some l ∧ l.value = v := by
  by_cases hn : v = .null
  case pos =>
    subst hn
    exact .inl ⟨rfl, (Except.ok.inj h).symm⟩
  case neg =>
    by_cases hp : v.IsPositive
    case pos =>
      have ⟨l, hl⟩ := StepLimit.exists_ofValue?_iff.mpr hp
      rw [newLimit_of_ofValue? old hl] at h
      exact .inr ⟨l, (Except.ok.inj h).symm, StepLimit.value_of_ofValue? hl⟩
    case neg =>
      have ⟨e, he⟩ := newLimit_of_not_isPositive old hn hp
      exact absurd (he.symm.trans h) (by simp)

theorem update_values (h : s.update u = .ok t) :
    t.limitValue = newValue s.limitValue u.stepLimit ∧
      t.strictModes = newValue s.strictModes u.strictModes ∧
      t.trace = newValue s.trace u.trace := by
  have ⟨hl, hs, ht⟩ := update_eq_ok_iff.mp h
  refine ⟨?_, hs.symm, ht.symm⟩
  obtain ⟨hv, he⟩ | ⟨l, he, hv⟩ := newLimit_eq_ok hl
  case inl => rw [limitValue, limitValue, he, hv]; rfl
  case inr => rw [limitValue, he, ←hv]; cases l <;> rfl

theorem exists_update (h : u.Acceptable) (s : Settings) : ∃ t, s.update u = .ok t := by
  have ⟨l, hl⟩ : ∃ l, newLimit s.stepLimit u.stepLimit = .ok l := by
    obtain hn | hp := h
    case inl => exact ⟨s.stepLimit, by rw [hn]; rfl⟩
    case inr =>
      have ⟨l, hl⟩ := StepLimit.exists_ofValue?_iff.mpr hp
      exact ⟨some l, newLimit_of_ofValue? s.stepLimit hl⟩
  exact ⟨⟨l, _, _⟩, update_eq_ok_iff.mpr ⟨hl, rfl, rfl⟩⟩

theorem exists_refusal (h : ¬u.Acceptable) (s : Settings) : ∃ e, s.update u = .error e := by
  have ⟨hn, hp⟩ := not_or.mp h
  have ⟨e, he⟩ := newLimit_of_not_isPositive s.stepLimit hn hp
  exact ⟨e, by rw [update, he, Result.error_bind]⟩

theorem exists_refusal_iff : (∃ e, s.update u = .error e) ↔ ¬u.Acceptable where
  mp := by
    intro ⟨e, he⟩ h
    have ⟨t, ht⟩ := exists_update h s
    exact absurd (he.symm.trans ht) (by simp)
  mpr h := exists_refusal h s

def Update.assign (u : Update) : EStateM Refusal Settings Unit := do
  let limit ← ofExcept (newLimit (← get).stepLimit u.stepLimit)
  modify fun s => { s with stepLimit := limit }
  modify fun s => { s with strictModes := newValue s.strictModes u.strictModes }
  modify fun s => { s with trace := newValue s.trace u.trace }

theorem assign_run (u : Update) (s : Settings) : u.assign.run s = Result.atomic s (s.update u) := by
  rw [Update.assign, update, EStateM.run_bind, EStateM.run_get]
  dsimp only
  rw [EStateM.run_bind]
  cases newLimit s.stepLimit u.stepLimit <;> rfl

def undergo (s : Settings) (u : Update) : Settings :=
  Result.stateAfter (u.assign.run s)

def after (s : Settings) (us : List Update) : Settings :=
  us.foldl undergo s

-- The value that was given last by updates that can be accepted, or else the one before them.
def lastGiven (setting : Update → Value) (initial : Value) (us : List Update) : Value :=
  ((us.filter (·.Acceptable)).filterMap fun u => (setting u).given?).getLast?.getD initial

section LastGiven

variable {setting : Update → Value} {initial : Value} {us : List Update}

theorem lastGiven_cons_of_acceptable (h : u.Acceptable) :
    lastGiven setting initial (u :: us) =
      lastGiven setting (newValue initial (setting u)) us := by
  rw [lastGiven, lastGiven, List.filter_cons_of_pos (by simpa using h), newValue_eq]
  cases hg : (setting u).given?
  case none   => rw [List.filterMap_cons, hg]; rfl
  case some v => rw [List.filterMap_cons, hg, List.getLast?_cons]; rfl

theorem lastGiven_cons_of_not_acceptable (h : ¬u.Acceptable) :
    lastGiven setting initial (u :: us) = lastGiven setting initial us := by
  rw [lastGiven, List.filter_cons_of_neg (by simpa using h), lastGiven]

theorem after_eq_lastGiven {view : Settings → Value}
    (replaces : ∀ {s t u}, s.update u = .ok t → view t = newValue (view s) (setting u))
    (s : Settings) (us : List Update) : view (s.after us) = lastGiven setting (view s) us := by
  induction us generalizing s
  case nil => rfl
  case cons u us hi =>
    have hs : s.after (u :: us) = (Result.stateAfter (Result.atomic s (s.update u))).after us := by
      rw [←assign_run]
      rfl
    by_cases h : u.Acceptable
    case pos =>
      have ⟨t, ht⟩ := exists_update h s
      rw [hs, ht, lastGiven_cons_of_acceptable h, ←replaces ht]
      exact hi t
    case neg =>
      have ⟨e, he⟩ := exists_refusal h s
      rw [hs, he, lastGiven_cons_of_not_acceptable h]
      exact hi s

end LastGiven

theorem limitValue_cases (s : Settings) : s.limitValue = .null ∨ s.limitValue.IsPositive := by
  cases h : s.stepLimit
  case none   => exact .inl (by rw [limitValue, h]; rfl)
  case some l => exact .inr (by rw [limitValue, h]; exact l.isPositive_value)

end Settings

namespace Machine

variable {settings : Settings} {m m₁ m₂ : Machine}

theorem stepsIn_of_runFrom {taken fuel : Nat} {log : Log} {r : Report} {l : StepLimit}
    (h : runFrom settings taken m log fuel = some r) (hc : r.interruption = some (.stepLimit l)) :
    ∃ n, StepsIn settings n m r.machine ∧ l.bound ≤ taken + n := by
  induction fuel generalizing taken m log
  case zero => simp [runFrom] at h
  case succ fuel hi =>
    unfold runFrom at h
    split at h
    case isFalse =>
      obtain rfl := Option.some.inj h
      simp at hc
    case isTrue hr =>
      split at h
      case h_1 l' hl =>
        obtain rfl := Option.some.inj h
        obtain rfl : l' = l := by simpa using hc
        obtain ⟨-, hb⟩ : _ ∧ l'.bound ≤ taken := by simpa [reached?] using hl
        exact ⟨0, .refl, hb⟩
      case h_2 =>
        dsimp only at h
        split at h
        case h_1 hn =>
          obtain ⟨n, es, hb⟩ := hi h
          exact ⟨n + 1, .step hr (step_of_uninterrupted hn) es, by omega⟩
        case h_2 e he =>
          -- A step is interrupted for another reason.
          obtain rfl := Option.some.inj h
          obtain rfl : e = .stepLimit l := by simpa using hc
          obtain ⟨_, _, ⟨hs, -⟩ | ⟨hs, -⟩⟩ := step_cases settings m <;> simp [hs] at he

theorem Exceeds.exists_stepsIn (x : Exceeds settings m₁ m₂) :
    ∃ n, 1 ≤ n ∧ StepsIn settings n m₁ m₂ := by
  have ⟨fuel, log, l, h⟩ := x
  have ⟨n, es, hb⟩ := stepsIn_of_runFrom h rfl
  have := l.bound_pos
  exact ⟨n, by omega, es⟩

end Machine

namespace Rack

variable {r : Rack} {k : Key} {b b' : Bay} {u : Settings.Update}

def updates (r : Rack) (calls : List (Key × Settings.Update)) : Rack :=
  calls.foldl (fun r c => (r.update c.1 c.2).rack) r

theorem update_bays (r : Rack) (k : Key) (u : Settings.Update) :
    (r.update k u).rack.bays = r.bays := by
  unfold update
  split
  case h_1 => rfl
  case h_2 => split <;> rfl

theorem settings_update (hk : r.find? k = some b) (shared : b.panel = b'.panel)
    (hp : b'.panel < r.panels.size) (u : Settings.Update) :
    (r.update k u).rack.settings b' = (r.settings b').undergo u ∧
      (r.update k u).rack.panels.size = r.panels.size := by
  have hb : r.settings b = r.settings b' := by rw [settings, settings, shared]
  have hu : (r.settings b').undergo u =
      Result.stateAfter (Result.atomic (r.settings b') ((r.settings b').update u)) := by
    rw [Settings.undergo, Settings.assign_run]
  simp only [update, hk, hb, hu]
  cases (r.settings b').update u
  case error => exact ⟨rfl, rfl⟩
  case ok s  => simp [settings, shared, hp, Result.atomic, Result.stateAfter]

theorem settings_updates {calls : List (Key × Settings.Update)}
    (shared : ∀ c ∈ calls, ∃ b', r.find? c.1 = some b' ∧ b'.panel = b.panel)
    (hp : b.panel < r.panels.size) :
    (r.updates calls).settings b = (r.settings b).after (calls.map Prod.snd) := by
  induction calls generalizing r
  case nil => rfl
  case cons c calls hi =>
    have ⟨b', hk, hs⟩ := shared c (by simp)
    have ⟨hu, hn⟩ := settings_update hk hs hp c.2
    have h := hi (r := (r.update c.1 c.2).rack) (by
      intro c' hc
      rw [find?, update_bays]
      exact shared c' (by simp [hc])) (by rwa [hn])
    rw [hu] at h
    exact h

end Rack

namespace Settings

-- For all updates of fresh settings, be they accepted or refused. The settings may be those of any
-- number of machines, which then all run with them.
theorem updates_atomic_last_wins (us : List Update) :
    (∀ (s : Settings) (u : Update),
      ((∃ e, s.update u = .error e) ↔ ¬(u.stepLimit = .null ∨ u.stepLimit.IsPositive)) ∧
      u.assign.run s = Result.atomic s (s.update u)) ∧
    (default.after us).limitValue = lastGiven (·.stepLimit) .null us ∧
    (default.after us).strictModes = lastGiven (·.strictModes) (.bool true) us ∧
    (default.after us).trace = lastGiven (·.trace) (.bool false) us ∧
    ((default.after us).limitValue = .null ∨ (default.after us).limitValue.IsPositive) ∧
    (∀ m m', Machine.Exceeds (default.after us) m m' →
      ∃ n, 1 ≤ n ∧ Machine.StepsIn (default.after us) n m m') ∧
    ∀ (r : Rack) (b : Rack.Bay) (calls : List (Rack.Key × Update)),
      r.panels[b.panel]? = some default → calls.map Prod.snd = us →
      (∀ c ∈ calls, ∃ b', r.find? c.1 = some b' ∧ b'.panel = b.panel) →
        (r.updates calls).settings b = default.after us := by
  refine ⟨fun s u => ⟨exists_refusal_iff, assign_run u s⟩, ?limit, ?strict, ?trace,
    limitValue_cases _, fun m m' x => x.exists_stepsIn, ?rack⟩
  case limit  => exact after_eq_lastGiven (fun h => (update_values h).left) default us
  case strict => exact after_eq_lastGiven (fun h => (update_values h).right.left) default us
  case trace  => exact after_eq_lastGiven (fun h => (update_values h).right.right) default us
  case rack =>
    rintro r b calls hf rfl shared
    have ⟨hp, _⟩ := Array.getElem?_eq_some_iff.mp hf
    have hd : r.settings b = default := by rw [Rack.settings, Array.getD_eq_getD_getElem?, hf]; rfl
    rw [Rack.settings_updates shared hp, hd]

def attempts : List Update :=
  [⟨.int 3, .null, .bool true⟩, ⟨.int 0, .bool false, .bool false⟩, ⟨.bool true, .int 0, .null⟩,
    ⟨.string "2", .null, .bool false⟩]

def pair : Rack where
  panels := #[default]
  bays   := [(.number 0, ⟨.ofWords [1105, 1, 0], 0⟩), (.number 1, ⟨.ofWords [99], 0⟩)]

theorem updates_atomic_last_wins_attempts :
    (∃ e, default.update ⟨.int 0, .bool false, .bool false⟩ = .error e) ∧
    (default.after attempts).limitValue = .bool true ∧
    (default.after attempts).strictModes = .int 0 ∧ (default.after attempts).trace = .bool true ∧
    (pair.updates (attempts.map (Rack.Key.number 1, ·))).settings ⟨.ofWords [1105, 1, 0], 0⟩ =
      default.after attempts ∧
    ∃ m n, 1 ≤ n ∧ Machine.StepsIn (default.after attempts) n (.ofWords [1105, 1, 0]) m := by
  have ⟨updates, limit, strict, trace, _, exceeds, shared⟩ := updates_atomic_last_wins attempts
  have x : ∃ m, Machine.Exceeds (default.after attempts) (.ofWords [1105, 1, 0]) m :=
    ⟨_, 2, _, _, rfl⟩
  have ⟨m, x⟩ := x
  refine ⟨?refused, limit, strict, trace, ?shared, m, exceeds _ m x⟩
  case refused =>
    have ⟨refused, _⟩ := updates default ⟨.int 0, .bool false, .bool false⟩
    exact refused.mpr (by decide)
  case shared =>
    refine shared pair _ _ rfl rfl fun c hc => ?_
    obtain ⟨u, -, rfl⟩ := List.mem_map.mp hc
    exact ⟨_, rfl, rfl⟩

end Settings
end Intcode
