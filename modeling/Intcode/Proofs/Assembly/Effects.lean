import Intcode.Command.Assemble
import Intcode.Proofs.Assembly.Output
import Intcode.Proofs.FileTree.Changes

namespace Intcode

namespace Assembly

variable {t t' : FileTree} {sources : List Path} {output : Path} {ms : List Module} {ws : List Int}

theorem Module.load_result (t : FileTree) (p : Path) :
    (Module.load t p).result = (t.readText p).map fun contents => ⟨p.stem, contents⟩ := by
  simp only [Module.load, Logged.result_bind, Logged.result_note, Logged.result_lift,
    Logged.result_pure, Result.ok_bind]
  rfl

theorem Module.exists_loadAll_eq_error_iff :
    (∃ e, (Module.loadAll t sources).result = .error e) ↔ ∃ p ∈ sources, t.Unreadable p := by
  rw [Module.loadAll, Logged.result_mapM, Result.exists_mapM_eq_error_iff]
  refine exists_congr fun p => and_congr_right fun _ => ?_
  rw [FileTree.unreadable_iff, Module.load_result]
  cases t.readText p <;> simp [Except.map]

theorem Module.exists_loadAll_eq_ok (h : ∀ p ∈ sources, ¬t.Unreadable p) :
    ∃ ms, (Module.loadAll t sources).result = .ok ms := by
  cases hm : (Module.loadAll t sources).result
  case ok ms => exact ⟨ms, rfl⟩
  case error e =>
    have ⟨p, hp, hu⟩ := Module.exists_loadAll_eq_error_iff.mp ⟨e, hm⟩
    exact absurd hu (h p hp)

theorem assembleFiles_of_unreadable (h : ∃ p ∈ sources, t.Unreadable p) :
    ∃ e, (assembleFiles t sources).result = .error (.file e) := by
  have ⟨e, he⟩ := Module.exists_loadAll_eq_error_iff.mpr h
  refine ⟨e, ?_⟩
  rw [assembleFiles, Logged.result_bind, Logged.result_mapError, he]
  rfl

theorem assembleFiles_of_loadAll (h : (Module.loadAll t sources).result = .ok ms) :
    (assembleFiles t sources).result = (assemble ms).result.mapError .rejected := by
  rw [assembleFiles, Logged.result_bind, Logged.result_mapError, h]
  rfl

theorem writeProgram_eq_error {e : BuildError} (h : writeProgram t output ws = (t', .error e)) :
    t.Makes t' output.parent ∧ ((∃ e', e = .file e') ∨ ∃ e', Program.format ws = .error e') := by
  have hm := FileTree.Makes.ensureDirectory t output.parent (output.parts.length + 1)
  unfold writeProgram at h
  split at h
  case h_1 ht =>
    rw [ht] at hm
    obtain ⟨rfl, he⟩ := Prod.mk.inj h
    exact ⟨hm, .inl ⟨_, (Except.error.inj he).symm⟩⟩
  case h_2 ht =>
    rw [ht] at hm
    split at h
    case h_1 e' hf =>
      obtain ⟨rfl, -⟩ := Prod.mk.inj h
      exact ⟨hm, .inr ⟨e', hf⟩⟩
    case h_2 =>
      split at h
      case h_2 => simp at h
      case h_1 =>
        obtain ⟨rfl, he⟩ := Prod.mk.inj h
        exact ⟨hm, .inl ⟨_, (Except.error.inj he).symm⟩⟩

theorem writes_of_writeProgram (h : writeProgram t output ws = (t', .ok ())) :
    ∃ s, Program.format ws = .ok s ∧ t.Writes t' output (s ++ "\n") := by
  have ⟨t₀, s, ht, hs, hw⟩ := writeProgram_eq_ok h
  have hm := FileTree.Makes.ensureDirectory t output.parent (output.parts.length + 1)
  rw [ht] at hm
  exact ⟨s, hs, hm.writes hw⟩

section Session

variable {r : Command.Assemble.Request} {c : Command.Transcript BuildError}
variable (h : Command.Assemble.session t r = (t', c))
include h

-- All that a session can do: it fails before anything is written, or it writes what was assembled.
theorem session_cases :
    (∃ e, (assembleFiles t r.sources).result = .error e ∧ c.ending = .error e ∧ t' = t) ∨
    ∃ ws written, (assembleFiles t r.sources).result = .ok ws ∧
      c.ending = written.map (fun _ => (0, none)) ∧
      writeProgram t r.output ws = (t', written) := by
  cases ha : (assembleFiles t r.sources).result
  all_goals
    simp only [Command.Assemble.session, build, ha] at h
    obtain ⟨rfl, rfl⟩ := Prod.mk.inj h
  case error e => exact .inl ⟨e, rfl, rfl, rfl⟩
  case ok ws   => exact .inr ⟨ws, _, rfl, rfl, rfl⟩

theorem session_of_unassembled {e : BuildError}
    (ha : (assembleFiles t r.sources).result = .error e) : c.ending = .error e ∧ t' = t := by
  obtain ⟨e', ha', hc, ht⟩ | ⟨_, _, ha', _, _⟩ := session_cases h
  case inl =>
    obtain rfl := Except.error.inj (ha.symm.trans ha')
    exact ⟨hc, ht⟩
  case inr => simp [ha] at ha'

theorem session_written {status : Nat × Option BuildError} (hs : c.ending = .ok status) :
    ∃ ms ws s, (Module.loadAll t r.sources).result = .ok ms ∧ (assemble ms).result = .ok ws ∧
      Program.format ws = .ok s ∧ t.Writes t' r.output (s ++ "\n") := by
  obtain ⟨_, _, hc, _⟩ | ⟨ws, _ | ⟨⟩, ha, hc, hw⟩ := session_cases h
  case inl       => simp [hs] at hc
  case inr.error => simp [hs, Except.map] at hc
  case inr.ok =>
    have ⟨ms, hm, ha⟩ := assembleFiles_eq_ok_iff.mp ha
    have ⟨s, hf, hw⟩ := writes_of_writeProgram hw
    exact ⟨ms, ws, s, hm, ha, hf, hw⟩

theorem session_unwritten {e : BuildError} (he : c.ending = .error e) :
    t' = t ∨
    ∃ ms ws, (Module.loadAll t r.sources).result = .ok ms ∧ (assemble ms).result = .ok ws ∧
      t.Makes t' r.output.parent ∧
      ((∃ e', e = .file e') ∨ Decimal.powerOfTen Decimal.limit ≤ ws.length) := by
  obtain ⟨_, _, _, ht⟩ | ⟨ws, e' | _, ha, hc, hw⟩ := session_cases h
  case inl    => exact .inl ht
  case inr.ok => simp [he, Except.map] at hc
  case inr.error =>
    obtain rfl : e = e' := by simpa [he, Except.map] using hc
    have ⟨ms, hm, ha⟩ := assembleFiles_eq_ok_iff.mp ha
    have ⟨makes, why⟩ := writeProgram_eq_error hw
    refine .inr ⟨ms, ws, hm, ha, makes, why.imp_right fun ⟨_, hf⟩ => ?_⟩
    exact (format_of_assemble ha).resolve_left fun ⟨s, hs⟩ => by simp [hf] at hs

end Session

-- Sources are read and assembled before the first effect, and what was assembled can be formatted
-- unless it has more words than an integer can tell.
theorem session_effects {t t' : FileTree} {r : Command.Assemble.Request}
    {c : Command.Transcript BuildError} (h : Command.Assemble.session t r = (t', c)) :
    ((∃ p ∈ r.sources, t.Unreadable p) → (∃ e, c.ending = .error (.file e)) ∧ t' = t) ∧
    ((∀ p ∈ r.sources, ¬t.Unreadable p) →
      ∃ ms, (Module.loadAll t r.sources).result = .ok ms ∧
        ∀ e, (assemble ms).result = .error e → c.ending = .error (.rejected e) ∧ t' = t) ∧
    (∀ status, c.ending = .ok status →
      ∃ ms ws s, (Module.loadAll t r.sources).result = .ok ms ∧ (assemble ms).result = .ok ws ∧
        Program.format ws = .ok s ∧ t.Writes t' r.output (s ++ "\n")) ∧
    (∀ e, c.ending = .error e → t' = t ∨
      ∃ ms ws, (Module.loadAll t r.sources).result = .ok ms ∧ (assemble ms).result = .ok ws ∧
        t.Makes t' r.output.parent ∧
        ((∃ e', e = .file e') ∨ Decimal.powerOfTen Decimal.limit ≤ ws.length)) := by
  refine ⟨?unreadable, ?rejected, fun _ => session_written h, fun _ => session_unwritten h⟩
  case unreadable =>
    intro hu
    have ⟨e, ha⟩ := assembleFiles_of_unreadable hu
    have ⟨hc, ht⟩ := session_of_unassembled h ha
    exact ⟨⟨e, hc⟩, ht⟩
  case rejected =>
    intro hr
    have ⟨ms, hm⟩ := Module.exists_loadAll_eq_ok hr
    refine ⟨ms, hm, fun e he => session_of_unassembled h ?_⟩
    rw [assembleFiles_of_loadAll hm, he]
    rfl

def workshop : FileTree where
  workingDirectory := ["home"]
  entries          := countdownFiles.entries ++ [
    (["home", "again.sasm"], .file "loop: hlt\n".toUTF8.data.toList),
    (["home", "blob.sasm"], .file [0xff]),
    (["home", "p"], .file "99\n".toUTF8.data.toList)]

def workshopSession (others output : List String) :
    FileTree × Command.Transcript BuildError :=
  Command.Assemble.session workshop
    ⟨false, countdownSources ++ others.map fun name => ⟨.workingDirectory, [name]⟩,
      ⟨.workingDirectory, output⟩⟩

-- The program is written to a directory that was not there. It is not written if there is another
-- source that is no text, is missing, is a directory, or defines a label again.
theorem session_effects_workshop :
    workshop.Writes (workshopSession [] ["out", "p"]).1 ⟨.workingDirectory, ["out", "p"]⟩
      ("1001,8,-1,8,1005,8,0,99,3" ++ "\n") ∧
    (∀ other ∈ ["blob.sasm", "none.sasm", ".."],
      (∃ e, (workshopSession [other] ["p"]).2.ending = .error (.file e)) ∧
        (workshopSession [other] ["p"]).1 = workshop) ∧
    (workshopSession ["again.sasm"] ["p"]).2.ending = .error (.rejected (.duplicateLabel "loop")) ∧
      (workshopSession ["again.sasm"] ["p"]).1 = workshop := by
  refine ⟨?written, ?unreadable, ?rejected⟩
  case written =>
    have ⟨_, _, written, _⟩ := session_effects (rfl : workshopSession [] ["out", "p"] = _)
    obtain ⟨ms, ws, s, hm, ha, hf, hw⟩ := written (0, none) (by decide +kernel)
    have hl : (Module.loadAll workshop countdownSources).result = .ok countdown := by
      decide +kernel
    obtain rfl := Except.ok.inj (hl.symm.trans hm)
    obtain rfl := Except.ok.inj (assemble_countdown.symm.trans ha)
    have hs : Program.format [1001, 8, -1, 8, 1005, 8, 0, 99, 3] =
        .ok "1001,8,-1,8,1005,8,0,99,3" := by
      decide +kernel
    obtain rfl := Except.ok.inj (hs.symm.trans hf)
    exact hw
  case unreadable =>
    intro other ho
    have ⟨unreadable, _⟩ := session_effects (rfl : workshopSession [other] ["p"] = _)
    refine unreadable ⟨⟨.workingDirectory, [other]⟩, by simp, ?_⟩
    rw [FileTree.unreadable_iff]
    simp only [List.mem_cons, List.not_mem_nil, or_false] at ho
    obtain rfl | rfl | rfl := ho
    · exact ⟨.malformed ⟨.start, 0xff, 0, 1⟩, by decide +kernel⟩
    · exact ⟨.obstacle .missing ⟨.workingDirectory, ["none.sasm"]⟩, by decide +kernel⟩
    · exact ⟨.obstacle .isDirectory ⟨.workingDirectory, [".."]⟩, by decide +kernel⟩
  case rejected =>
    have ⟨_, rejected, _⟩ := session_effects (rfl : workshopSession ["again.sasm"] ["p"] = _)
    have hl : (Module.loadAll workshop (countdownSources ++ [⟨.workingDirectory, ["again.sasm"]⟩])
        ).result = .ok (countdown ++ [⟨"again", "loop: hlt\n"⟩]) := by
      decide +kernel
    obtain ⟨ms, hm, hr⟩ := rejected fun p hp hu => by
      have ⟨e, he⟩ := Module.exists_loadAll_eq_error_iff.mpr ⟨p, hp, hu⟩
      exact absurd (hl.symm.trans he) (by simp)
    obtain rfl := Except.ok.inj (hl.symm.trans hm)
    exact hr (.duplicateLabel "loop") (by decide +kernel)

end Assembly
end Intcode
