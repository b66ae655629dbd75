import Intcode.Assembly.File
import Intcode.Proofs.Assembly.Meaning
import Intcode.Proofs.ExitStatus
import Intcode.Proofs.FileTree
import Intcode.Proofs.Program

namespace Intcode

namespace Program

variable {ws : List Int} {s : String}

theorem parse_line (h : format ws = .ok s) (hn : ws ≠ []) : parse (s ++ "\n") = .ok ws := by
  have hv : ∀ c ∈ "\n".toList, Text.isBlank c = true := by
    simp [Text.isBlank_of_isGap, Text.isGap]
  have hp := parse_format (u := "") (by simp) hv h hn
  rwa [String.empty_append] at hp

theorem mem_line {c : Char} (h : format ws = .ok s) (hc : c ∈ (s ++ "\n").toList) :
    c = '\n' ∨ c = ',' ∨ c = '-' ∨ c.isDigit = true := by
  rw [String.toList_append, List.mem_append] at hc
  obtain hc | hc := hc
  case inl => exact .inr (mem_format h hc)
  case inr => exact .inl (by simpa using hc)

theorem return_notMem_line (h : format ws = .ok s) : '\r' ∉ (s ++ "\n").toList :=
  fun hc => absurd (mem_line h hc) (by decide)

theorem parse_line_nil (h : format [] = .ok s) : ∃ e, parse (s ++ "\n") = .error e := by
  obtain rfl : s = "" := (Except.ok.inj h).symm
  exact ⟨.mismatch (.ofRest "Expected Re:('[+-]?[0-9]+')" [] []), by decide +kernel⟩

theorem load_of_readText {t : FileTree} {p : Path} (hr : t.readText p = .ok s) :
    (load t p).result = (parse s).mapError .text := by
  have hl : (parseLogged s).result = parse s := by
    simp only [parseLogged, Logged.result_bind, Logged.result_lift, Logged.result_note,
      Logged.result_pure]
    cases parse s <;> rfl
  simp only [load, Logged.result_bind, Logged.result_note, Logged.result_lift, hr,
    Logged.result_mapError, hl, Except.mapError, Result.ok_bind]

end Program

namespace Assembly

variable {ms : List Module} {ws : List Int} {ss : List Statement}
variable {t t' : FileTree} {output : Path} {place : String → Int}

theorem Target.writable_word {v : Target} (h : v.Writable)
    (hp : ∀ name, Decimal.Writable (place name)) : Decimal.Writable (v.word place) := by
  cases v
  case constant   => exact h
  case label name => exact hp name

theorem Statement.writable_words {s : Statement} (h : s.WellFormed)
    (hp : ∀ name, Decimal.Writable (place name)) : ∀ w ∈ s.words place, Decimal.Writable w := by
  intro w hw
  cases s
  case label => simp [words] at hw
  case instruction op os =>
    obtain rfl | hw := List.mem_cons.mp hw
    case inl => exact writable_instructionWord h
    case inr =>
      obtain ⟨o, ho, rfl⟩ := List.mem_map.mp hw
      exact Target.writable_word (h.right o ho).target hp
  case data vs =>
    obtain ⟨v, hv, rfl⟩ := List.mem_map.mp hw
    exact Target.writable_word (h v hv) hp

-- A label is not further away than the program is long.
theorem writable_of_assemble (h : (assemble ms).result = .ok ws)
    (hl : ws.length < Decimal.powerOfTen Decimal.limit) : ∀ w ∈ ws, Decimal.Writable w := by
  have ⟨l, ss, hs, d, hk⟩ := describes_of_assemble h
  obtain rfl := d.link_eq hk
  rw [length_image] at hl
  intro w hw
  obtain ⟨s, hm, hw⟩ := List.mem_flatMap.mp hw
  refine Statement.writable_words (wellFormed_of_statements hs s hm) (fun name => ?_) w hw
  rw [Decimal.writable_iff_lt, Int.natAbs_natCast]
  exact Nat.lt_of_le_of_lt (placeOf_le_totalSize ss name) hl

theorem format_of_assemble (h : (assemble ms).result = .ok ws) :
    (∃ s, Program.format ws = .ok s) ∨ Decimal.powerOfTen Decimal.limit ≤ ws.length := by
  by_cases hl : ws.length < Decimal.powerOfTen Decimal.limit
  case pos => exact .inl ⟨_, Program.format_eq_ok_iff.mpr ⟨writable_of_assemble h hl, rfl⟩⟩
  case neg => exact .inr (Nat.not_lt.mp hl)

theorem writeProgram_eq_ok (h : writeProgram t output ws = (t', .ok ())) :
    ∃ (t₀ : FileTree) (s : String),
      t.ensureDirectory output.parent (output.parts.length + 1) = (t₀, none) ∧
        Program.format ws = .ok s ∧ t₀.writeText output (s ++ "\n") = .ok t' := by
  unfold writeProgram at h
  split at h
  case h_1 => simp at h
  case h_2 t₀ ht =>
    split at h
    case h_1 => simp at h
    case h_2 s hs =>
      split at h
      case h_1 => simp at h
      case h_2 t₁ hw =>
        obtain ⟨rfl, -⟩ := Prod.mk.inj h
        exact ⟨t₀, s, ht, hs, hw⟩

theorem load_writeProgram (h : writeProgram t output ws = (t', .ok ())) :
    ∃ s, Program.format ws = .ok s ∧
      (Program.load t' output).result = (Program.parse (s ++ "\n")).mapError .text := by
  have ⟨t₀, s, _, hs, hw⟩ := writeProgram_eq_ok h
  have hr := FileTree.readText_writeText hw (Program.return_notMem_line hs)
  exact ⟨s, hs, Program.load_of_readText hr⟩

theorem assembleFiles_eq_ok_iff {sources : List Path} :
    (assembleFiles t sources).result = .ok ws ↔
      ∃ ms, (Module.loadAll t sources).result = .ok ms ∧ (assemble ms).result = .ok ws := by
  rw [assembleFiles, Logged.result_bind, Result.bind_eq_ok_iff]
  simp only [Logged.result_mapError, Result.mapError_eq_ok_iff]

theorem writeProgram_of_build {sources : List Path} {log : Log}
    (hm : (Module.loadAll t sources).result = .ok ms) (h : (assemble ms).result = .ok ws)
    (hb : build t sources output = (t', ⟨log, .ok ()⟩)) :
    writeProgram t output ws = (t', .ok ()) := by
  have ha := assembleFiles_eq_ok_iff.mpr ⟨ms, hm, h⟩
  simp only [build, ha, Prod.mk.injEq, Logged.mk.injEq] at hb
  exact Prod.ext hb.left hb.right.right

end Assembly

namespace Assembly

theorem assembled_program_runs {ms : List Module} {ws : List Int}
    (h : (assemble ms).result = .ok ws) :
    ((∃ s, Program.format ws = .ok s) ∨ Decimal.powerOfTen Decimal.limit ≤ ws.length) ∧
    (∀ s, Program.format ws = .ok s →
      (ws ≠ [] → Program.parse (s ++ "\n") = .ok ws) ∧
      (ws = [] → s = "" ∧ ∃ e, Program.parse (s ++ "\n") = .error e)) ∧
    ∀ t t' sources output log, (Module.loadAll t sources).result = .ok ms →
      build t sources output = (t', ⟨log, .ok ()⟩) →
        (ws = [] → ∃ e, (Program.load t' output).result = .error e) ∧
        (ws ≠ [] → (Program.load t' output).result = .ok ws ∧
          ∀ (r : Command.Run.Request) settings stdin fuel, r.program = output →
            r.settings t' = .ok settings →
              Command.Run.session t' r stdin fuel =
                (execute settings ws r.inputs
                  (if r.interactive then some (Command.Prompt.source stdin) else none) fuel).map
                    fun o => Command.Run.conclude o.result
                      ((Command.Run.prepare t' r).1 ++ o.events)) := by
  refine ⟨format_of_assemble h, ?text, ?file⟩
  case text =>
    refine fun s hs => ⟨fun hn => Program.parse_line hs hn, ?_⟩
    rintro rfl
    exact ⟨(Except.ok.inj hs).symm, Program.parse_line_nil hs⟩
  case file =>
    intro t t' sources output log hm hb
    have ⟨s, hs, hl⟩ := load_writeProgram (writeProgram_of_build hm h hb)
    refine ⟨?_, fun hn => ?_⟩
    · rintro rfl
      have ⟨e, he⟩ := Program.parse_line_nil hs
      exact ⟨.text e, by rw [hl, he]; rfl⟩
    · rw [Program.parse_line hs hn] at hl
      refine ⟨hl, ?_⟩
      rintro r settings stdin fuel rfl hr
      exact Command.Run.session_of_load hr hl stdin fuel

def countdownFiles : FileTree where
  workingDirectory := ["home"]
  entries          := countdown.map fun m =>
    (["home", m.name ++ ".sasm"], .file m.contents.toUTF8.data.toList)

def countdownSources : List Path :=
  countdown.map fun m => ⟨.workingDirectory, [m.name ++ ".sasm"]⟩

theorem assembled_program_runs_countdown :
    (∃ s, Program.format [1001, 8, -1, 8, 1005, 8, 0, 99, 3] = .ok s ∧
      Program.parse (s ++ "\n") = .ok [1001, 8, -1, 8, 1005, 8, 0, 99, 3]) ∧
    ∃ t' log,
      build countdownFiles countdownSources ⟨.workingDirectory, ["out", "p"]⟩ =
        (t', ⟨log, .ok ()⟩) ∧
      (Program.load t' ⟨.workingDirectory, ["out", "p"]⟩).result =
        .ok [1001, 8, -1, 8, 1005, 8, 0, 99, 3] := by
  have ⟨hf, hp, hl⟩ := assembled_program_runs assemble_countdown
  have hm : (Module.loadAll countdownFiles countdownSources).result = .ok countdown := by
    decide +kernel
  obtain ⟨t', log, hb⟩ : ∃ t' log, build countdownFiles countdownSources
      ⟨.workingDirectory, ["out", "p"]⟩ = (t', ⟨log, .ok ()⟩) := by
    refine ⟨_, _, Prod.ext rfl (Logged.ext rfl ?_)⟩
    decide +kernel
  have ⟨_, loaded⟩ := hl _ _ _ _ _ hm hb
  refine ⟨?text, t', log, hb, (loaded (by decide)).left⟩
  case text =>
    have ⟨s, hs⟩ := hf.resolve_right (by decide +kernel)
    exact ⟨s, hs, (hp s hs).left (by decide)⟩

-- Labels alone make up a program without words, and nothing is written for that but a line end, in
-- which there is no program.
theorem assembled_label_not_loaded :
    (assemble [⟨"a", "start: // nothing\n"⟩]).result = .ok [] ∧ Program.format [] = .ok "" ∧
      Program.parse ("" ++ "\n") ≠ .ok [] := by
  decide +kernel

end Assembly
end Intcode
