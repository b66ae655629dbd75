import Mathlib.Data.List.TakeWhile
import Intcode.Command.Run
import Intcode.Proofs.Demand
import Intcode.Proofs.Lifecycle
import Intcode.Proofs.StepLimit

namespace Intcode

namespace Machine

theorem farewell_eq_ok {m : Machine} (hr : m.status ≠ .runnable)
    (hw : m.status = .waiting → Decimal.Writable m.pc)
    (hf : ∀ f, m.fault = some f → ∃ text, f.text = .ok text) :
    ∃ record, m.farewell = .ok record := by
  unfold farewell
  cases hs : m.status
  case runnable => exact absurd hs hr
  case halted   => exact ⟨_, rfl⟩
  case waiting  => simp [Decimal.write_of_writable (hw hs)]
  case faulted =>
    cases hm : m.fault
    case none => exact ⟨_, rfl⟩
    case some f =>
      have ⟨_, ht⟩ := hf f hm
      simp [ht]

end Machine

theorem ExitStatus.code_ofMachine {m : Machine} (h : m.status ≠ .runnable) :
    ((ofMachine m).code = 0 ↔ m.status = .halted) ∧ ((ofMachine m).code = 1 ↔ m.status = .waiting) ∧
      ((ofMachine m).code = 2 ↔ m.status = .faulted) := by
  cases hs : m.status
  case runnable => exact absurd hs h
  all_goals simp [ofMachine, hs, code]

namespace Execution

variable {settings : Settings} {program inputs : List Int} {m : Machine} {fuel : Nat} {o : Outcome}

def Raises (settings : Settings) (program inputs : List Int) (cause : Interruption) : Prop :=
  ∃ fuel events,
    execute settings program inputs none fuel = some ⟨events, 0, .error (.interruption cause)⟩

theorem execute_none (settings : Settings) (program inputs : List Int) (fuel : Nat) :
    execute settings program inputs none fuel =
      (((Machine.ofWords program).setInputs inputs).run settings fuel).map fun r =>
        ⟨Event.ofLog r.log, 0,
          r.interruption.elim (.ok r.machine) fun cause => .error (.interruption cause)⟩ := by
  unfold execute
  cases ((Machine.ofWords program).setInputs inputs).run settings fuel
  case none   => rfl
  case some r => cases hi : r.interruption <;> simp [hi]

theorem execute_unique {fuel' : Nat} {o' : Outcome}
    (h : execute settings program inputs none fuel = some o)
    (h' : execute settings program inputs none fuel' = some o') : o = o' := by
  rw [execute_none, Option.map_eq_some_iff] at h h'
  obtain ⟨r, hr, rfl⟩ := h
  obtain ⟨r', hr', rfl⟩ := h'
  rw [Machine.run_unique hr hr']

theorem raises_or_returns (h : execute settings program inputs none fuel = some o) :
    (∃ l, Raises settings program inputs (.stepLimit l)) ∨
      (∃ e, Raises settings program inputs (.overlong e)) ∨
        ∃ m, Returns settings program inputs m := by
  rw [execute_none, Option.map_eq_some_iff] at h
  obtain ⟨r, hr, -⟩ := h
  have he := execute_none settings program inputs fuel
  rw [hr, Option.map_some] at he
  match hi : r.interruption with
  | some (.stepLimit l) => exact .inl ⟨l, fuel, _, by rw [he, hi]; rfl⟩
  | some (.overlong e)  => exact .inr (.inl ⟨e, fuel, _, by rw [he, hi]; rfl⟩)
  | none                => exact .inr (.inr ⟨r.machine, fuel, _, by rw [he, hi]; rfl⟩)

namespace Returns

theorem stopped (h : Returns settings program inputs m) : m.status ≠ .runnable :=
  (returns_iff.mp h).stopped

theorem coherent (h : Returns settings program inputs m) : m.Coherent := by
  have ⟨_, _, hr⟩ := returns_iff.mp h
  exact (Machine.Coherent.of_runnable rfl rfl).run hr

theorem farewell (h : Returns settings program inputs m)
    (fits : m.memory.size ≤ Decimal.powerOfTen Decimal.limit) :
    ∃ record, m.farewell = .ok record := by
  have ⟨_, _, hr⟩ := returns_iff.mp h
  apply Machine.farewell_eq_ok h.stopped
  case hw => exact fun hw => (h.coherent.waiting hw).valid.writable fits
  case hf => exact Machine.run_fault (fun _ _ text _ ht => ⟨text, ht⟩) hr rfl

end Returns
end Execution

namespace Command.Run

open Execution (Returns Raises)

variable {t : FileTree} {r : Request} {settings : Settings} {ws : List Int} {stdin out : String}
variable {code fuel : Nat} {m : Machine}

def lines (vs : List Int) : String :=
  String.join (vs.map fun v => Decimal.text v ++ "\n")

def writables (vs : List Int) : List Int :=
  vs.takeWhile fun v => Decimal.Writable v

theorem printOutputs_eq (vs : List Int) :
    printOutputs vs =
      (lines (writables vs), if ∀ v ∈ vs, Decimal.Writable v then none else some .writing) := by
  induction vs
  case nil => simp [printOutputs, lines, writables]
  case cons v vs hi =>
    by_cases hv : Decimal.Writable v
    case pos =>
      simp [printOutputs, Decimal.write_of_writable hv, hi, lines, writables, hv,
        String.append_assoc]
    case neg =>
      simp [printOutputs, Decimal.write_eq_error_iff.mpr ⟨hv, rfl⟩, lines, writables, hv]

theorem writables_eq_self {vs : List Int} (h : ∀ v ∈ vs, Decimal.Writable v) :
    writables vs = vs := by
  rw [writables, List.takeWhile_eq_self_iff]
  simpa using h

theorem session_eq (t : FileTree) (r : Request) (stdin : String) (fuel : Nat) :
    session t r stdin fuel =
      match (prepare t r).2 with
      | .error f => some (.giveUp (prepare t r).1 "" f)
      | .ok (settings, ws) =>
        (execute settings ws r.inputs (if r.interactive then some (Prompt.source stdin) else none)
          fuel).map fun o => conclude o.result ((prepare t r).1 ++ o.events) := by
  rw [session]
  obtain ⟨_, _ | _⟩ := prepare t r <;> rfl

theorem session_of_load {t : FileTree} {r : Request} {settings : Settings} {ws : List Int}
    (hs : r.settings t = .ok settings) (hl : (Program.load t r.program).result = .ok ws)
    (stdin : String) (fuel : Nat) :
    session t r stdin fuel =
      (execute settings ws r.inputs (if r.interactive then some (Prompt.source stdin) else none)
        fuel).map fun o => conclude o.result ((prepare t r).1 ++ o.events) := by
  have hp : (prepare t r).2 = .ok (settings, ws) := by
    simp only [prepare, hs, hl, Except.mapError, Except.map]
  rw [session_eq, hp]

structure Prepared (t : FileTree) (r : Request) (settings : Settings) (ws : List Int) : Prop where
  batch    : r.interactive = false
  settings : r.settings t = .ok settings
  program  : (Program.load t r.program).result = .ok ws

theorem Prepared.session_eq (p : Prepared t r settings ws) (stdin : String) (fuel : Nat) :
    session t r stdin fuel =
      (execute settings ws r.inputs none fuel).map fun o =>
        conclude o.result ((prepare t r).1 ++ o.events) := by
  simp [session_of_load p.settings p.program, p.batch]

theorem session_of_unprepared {f : Failure} (h : (prepare t r).2 = .error f) (stdin : String)
    (fuel : Nat) : session t r stdin fuel = some (.giveUp (prepare t r).1 "" f) := by
  rw [session_eq, h]

theorem prepare_of_refused {e : Configuration.Error} (h : r.settings t = .error e) :
    ∃ f, (prepare t r).2 = .error f :=
  ⟨.configuration e, by simp only [prepare, h]⟩

theorem prepare_of_unloaded {e : Program.LoadError}
    (h : (Program.load t r.program).result = .error e) : ∃ f, (prepare t r).2 = .error f := by
  cases hs : r.settings t
  case error => exact prepare_of_refused hs
  case ok    => exact ⟨.program e, by simp only [prepare, hs, h, Except.mapError, Except.map]⟩

theorem prepared_cases (batch : r.interactive = false) (t : FileTree) :
    (∃ e, r.settings t = .error e) ∨ (∃ e, (Program.load t r.program).result = .error e) ∨
      ∃ settings ws, Prepared t r settings ws := by
  cases hs : r.settings t
  case error e => exact .inl ⟨e, rfl⟩
  case ok settings =>
    cases hl : (Program.load t r.program).result
    case error e => exact .inr (.inl ⟨e, rfl⟩)
    case ok ws   => exact .inr (.inr ⟨settings, ws, batch, hs, hl⟩)

-- However much fuel a session is given, it ends in one way only.
theorem session_unique (batch : r.interactive = false) {fuel' : Nat} {s s' : Session}
    (h : session t r stdin fuel = some s) (h' : session t r stdin fuel' = some s') : s = s' := by
  have unprepared : (∃ f, (prepare t r).2 = .error f) → s = s' := by
    intro ⟨f, hf⟩
    rw [session_of_unprepared hf] at h h'
    exact Option.some_inj.mp (h.symm.trans h')
  obtain ⟨e, he⟩ | ⟨e, he⟩ | ⟨settings, ws, p⟩ := prepared_cases batch t
  case inl     => exact unprepared (prepare_of_refused he)
  case inr.inl => exact unprepared (prepare_of_unloaded he)
  case inr.inr =>
    rw [p.session_eq, Option.map_eq_some_iff] at h h'
    obtain ⟨o, ho, rfl⟩ := h
    obtain ⟨o', ho', rfl⟩ := h'
    rw [Execution.execute_unique ho ho']

def Exits (t : FileTree) (r : Request) (stdin : String) (code : Nat) (out : String) : Prop :=
  ∃ fuel log failure,
    (session t r stdin fuel).map (transcript r) = some ⟨out, log, .ok (code, failure)⟩

theorem exits_iff :
    Exits t r stdin code out ↔
      ∃ fuel s, session t r stdin fuel = some s ∧ s.status.code = code ∧ s.printed = out := by
  simp only [Exits, Option.map_eq_some_iff, transcript, Transcript.mk.injEq, Except.ok.injEq,
    Prod.mk.injEq]
  grind

theorem Exits.unique (batch : r.interactive = false) {code' : Nat} {out' : String}
    (h : Exits t r stdin code out) (h' : Exits t r stdin code' out') :
    code = code' ∧ out = out' := by
  obtain ⟨_, s, hs, rfl, rfl⟩ := exits_iff.mp h
  obtain ⟨_, s', hs', rfl, rfl⟩ := exits_iff.mp h'
  rw [session_unique batch hs hs']
  exact ⟨rfl, rfl⟩

theorem exits_of_unprepared (h : ∃ f, (prepare t r).2 = .error f) : Exits t r stdin 100 "" := by
  have ⟨_, hf⟩ := h
  exact exits_iff.mpr ⟨0, _, session_of_unprepared hf stdin 0, rfl, rfl⟩

-- What the command tells of a machine that has stopped: why it has, by the exit code, and what it
-- has put out. Where it waits can be told, too, unless its memory is larger than any there can be.
structure Tells (t : FileTree) (r : Request) (stdin : String) (m : Machine) : Prop where
  stopped : m.status ≠ .runnable
  faulted : m.status = .faulted ↔ m.fault ≠ none
  whole   : (∀ v ∈ m.outputs.toList, Decimal.Writable v) →
    m.memory.size ≤ Decimal.powerOfTen Decimal.limit →
      ∃ code, Exits t r stdin code (lines m.outputs.toList) ∧ (code = 0 ↔ m.status = .halted) ∧
        (code = 1 ↔ m.status = .waiting) ∧ (code = 2 ↔ m.status = .faulted)
  cut     : (¬∀ v ∈ m.outputs.toList, Decimal.Writable v) →
    Exits t r stdin 100 (lines (writables m.outputs.toList))

namespace Prepared

theorem exits (p : Prepared t r settings ws) {events : Array Event} {requests : Nat}
    {result : Except Execution.Failure Machine}
    (h : execute settings ws r.inputs none fuel = some ⟨events, requests, result⟩)
    (hc : ∀ events, (conclude result events).status.code = code ∧
      (conclude result events).printed = out) : Exits t r stdin code out :=
  exits_iff.mpr ⟨fuel, _, by rw [p.session_eq, h]; rfl, hc _⟩

theorem exits_of_stepLimit (p : Prepared t r settings ws) {l : StepLimit}
    (h : Raises settings ws r.inputs (.stepLimit l)) : Exits t r stdin 4 "" := by
  have ⟨_, _, he⟩ := h
  exact p.exits he fun _ => ⟨rfl, rfl⟩

theorem exits_of_overlong (p : Prepared t r settings ws) {e : Decimal.Overlong}
    (h : Raises settings ws r.inputs (.overlong e)) : Exits t r stdin 100 "" := by
  have ⟨_, _, he⟩ := h
  exact p.exits he fun _ => ⟨rfl, rfl⟩

theorem tells (p : Prepared t r settings ws) (h : Returns settings ws r.inputs m) :
    Tells t r stdin m := by
  have ⟨_, _, he⟩ := h
  constructor
  case stopped => exact h.stopped
  case faulted => exact h.coherent.faulted.symm
  case whole =>
    intro hw fits
    have ⟨_, hf⟩ := h.farewell fits
    refine ⟨_, p.exits he fun _ => ?_, ExitStatus.code_ofMachine h.stopped⟩
    simp only [conclude, finish, printOutputs_eq, if_pos hw, writables_eq_self hw, hf, and_self]
  case cut =>
    intro hw
    refine p.exits he fun _ => ?_
    simp only [conclude, finish, printOutputs_eq, if_neg hw]
    exact ⟨rfl, rfl⟩

theorem ends (p : Prepared t r settings ws) (h : Exits t r stdin code out) :
    (∃ l, Raises settings ws r.inputs (.stepLimit l)) ∨
      (∃ e, Raises settings ws r.inputs (.overlong e)) ∨ ∃ m, Returns settings ws r.inputs m := by
  obtain ⟨_, _, hs, -⟩ := exits_iff.mp h
  rw [p.session_eq, Option.map_eq_some_iff] at hs
  obtain ⟨_, ho, -⟩ := hs
  exact Execution.raises_or_returns ho

end Prepared

-- Every way in which a run without prompts ends, and what there is to see of it from outside.
theorem exit_status_agrees (t : FileTree) (batch : r.interactive = false) (stdin : String) :
    (∀ e, r.settings t = .error e → Exits t r stdin 100 "") ∧
    (∀ e, (Program.load t r.program).result = .error e → Exits t r stdin 100 "") ∧
    (∀ settings ws, Prepared t r settings ws →
      (∀ l, Raises settings ws r.inputs (.stepLimit l) → Exits t r stdin 4 "") ∧
      (∀ e, Raises settings ws r.inputs (.overlong e) → Exits t r stdin 100 "") ∧
      ∀ m, Returns settings ws r.inputs m → Tells t r stdin m) ∧
    ∀ code out, Exits t r stdin code out →
      (∀ code' out', Exits t r stdin code' out' → code' = code ∧ out' = out) ∧
      ((∃ e, r.settings t = .error e) ∨ (∃ e, (Program.load t r.program).result = .error e) ∨
        ∃ settings ws, Prepared t r settings ws ∧
          ((∃ l, Raises settings ws r.inputs (.stepLimit l)) ∨
            (∃ e, Raises settings ws r.inputs (.overlong e)) ∨
            ∃ m, Returns settings ws r.inputs m)) := by
  refine ⟨?refused, ?unloaded, ?prepared, fun code out h => ⟨?unique, ?ends⟩⟩
  case refused  => exact fun _ he => exits_of_unprepared (prepare_of_refused he)
  case unloaded => exact fun _ he => exits_of_unprepared (prepare_of_unloaded he)
  case prepared =>
    intro settings ws p
    exact ⟨fun _ => p.exits_of_stepLimit, fun _ => p.exits_of_overlong, fun _ => p.tells⟩
  case unique   => exact fun _ _ h' => h'.unique batch h
  case ends =>
    apply (prepared_cases batch t).imp_right
    apply Or.imp_right
    intro ⟨settings, ws, p⟩
    exact ⟨settings, ws, p, p.ends h⟩

def programs : FileTree where
  workingDirectory := ["home"]
  entries          := [
    (["home", "asks"], .file "104,7,3,0".toUTF8.data.toList),
    (["home", "loops"], .file "1105,1,0".toUTF8.data.toList)]

def quietly (name : String) (maxSteps : Option Int) : Request where
  verbose      := false
  inputs       := []
  interactive  := false
  maxSteps     := maxSteps
  lenientModes := false
  trace        := false
  config       := none
  program      := ⟨.workingDirectory, [name]⟩

theorem exit_status_agrees_programs :
    Exits programs (quietly "asks" none) "" 1 "7\n" ∧
    Exits programs (quietly "loops" (some 3)) "" 4 "" ∧
    Exits programs (quietly "loops" (some 0)) "" 100 "" ∧
    Exits programs (quietly "absent" none) "" 100 "" := by
  refine ⟨?asks, ?loops, ?refused, ?absent⟩
  case asks =>
    have p : Prepared programs (quietly "asks" none) .default [104, 7, 3, 0] :=
      ⟨rfl, rfl, by decide +kernel⟩
    have ⟨_, _, prepared, _⟩ := exit_status_agrees programs p.batch ""
    have ⟨_, _, returned⟩ := prepared _ _ p
    have ⟨m, h, ho, hs, hm⟩ : ∃ m, Returns .default [104, 7, 3, 0] [] m ∧ m.outputs.toList = [7] ∧
        m.status = .waiting ∧ m.memory.size = 4 := ⟨_, ⟨3, _, rfl⟩, rfl, rfl, rfl⟩
    have tells := returned m h
    have fits : m.memory.size ≤ Decimal.powerOfTen Decimal.limit := by rw [hm]; decide +kernel
    have ⟨code, exits, _, waiting, _⟩ := tells.whole (by rw [ho]; decide) fits
    obtain rfl := waiting.mpr hs
    rw [ho] at exits
    have hl : lines [7] = "7\n" := by decide +kernel
    exact hl ▸ exits
  case loops =>
    have p : Prepared programs (quietly "loops" (some 3))
        ⟨some (.count 3 (by decide)), .bool true, .bool false⟩ [1105, 1, 0] :=
      ⟨rfl, rfl, by decide +kernel⟩
    have ⟨_, _, prepared, _⟩ := exit_status_agrees programs p.batch ""
    have ⟨limited, _⟩ := prepared _ _ p
    exact limited _ ⟨9, _, rfl⟩
  case refused =>
    have ⟨refused, _⟩ := exit_status_agrees (r := quietly "loops" (some 0)) programs rfl ""
    exact refused _ rfl
  case absent =>
    have ⟨_, unloaded, _⟩ := exit_status_agrees (r := quietly "absent" none) programs rfl ""
    exact unloaded _ rfl

end Command.Run
end Intcode
