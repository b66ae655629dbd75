import Intcode.Proofs.Assembly.Rejection

namespace Intcode.Assembly

variable {previous : Option Char} {c : Char} {cs cs' : List Char} {ls ls' : List Lexeme}

theorem Free.append_line (h : Free c cs) (cs' : List Char) : Free c (cs ++ '\n' :: cs') where
  blank   := h.blank
  word    := h.word
  comment := by
    have hc := h.comment
    rw [←Bool.not_eq_true, Token.startsComment_eq_true_iff] at hc ⊢
    cases cs
    case nil  => simp
    case cons => exact hc
  literal := by
    have hl := not_exists.mpr h.literal
    rw [Text.Literal.exists_begins_iff, not_or, not_and, not_not] at hl
    refine not_exists.mp ?_
    rw [Text.Literal.exists_begins_iff, not_or, not_and, not_not]
    exact ⟨hl.left, fun hc => (hl.right hc).append rfl cs'⟩

theorem isBoundary_append_line (cs cs' : List Char) :
    Token.isBoundary (cs ++ '\n' :: cs').head? = Token.isBoundary cs.head? := by
  cases cs <;> rfl

-- The tokens of a text are the same whatever lines come after it.
theorem Spells.append_line (h : Spells previous cs ls) (h' : Spells (some '\n') cs' ls') :
    Spells previous (cs ++ '\n' :: cs') (ls ++ ls') := by
  induction h
  case nil             => exact .blank rfl h'
  case blank hg _ hi   => exact .blank hg hi
  case mark hf _ hi    => exact .mark (hf.append_line cs') hi
  case literal hl _ hi => exact .literal (hl.append rfl cs') hi
  case comment hl hs _ hi =>
    rw [List.append_assoc]
    exact .comment hl (hs.append rfl cs') hi
  case word hc hm hs _ hi =>
    rw [List.append_assoc, List.cons_append, ←isBoundary_append_line _ cs']
    exact .word hc hm (hs.append rfl cs') hi

theorem Rendered.append {ss ss' : List Statement} (h : Rendered ss ls) (h' : Rendered ss' ls') :
    Rendered (ss ++ ss') (ls ++ ls') := by
  induction h
  case nil => exact h'
  case cons hs _ hi =>
    rw [List.append_assoc]
    exact .cons hs hi

namespace Grammar

variable {text text' : String} {ss ss' : List Statement}

theorem parse_empty : parse "" = .ok [] := by
  have spells : Spells none "".toList [] := .nil
  exact parse_of_renders (fun _ h => by simp [h.deterministic spells]) ⟨[], spells, .nil⟩

theorem parse_append_line (h : parse text = .ok ss) (h' : parse text' = .ok ss') :
    parse (text ++ "\n" ++ text') = .ok (ss ++ ss') := by
  have ⟨ls, hs, hr⟩ := renders_of_parse h
  have ⟨ls', hs', hr'⟩ := renders_of_parse h'
  have spells : Spells none (text ++ "\n" ++ text').toList (ls ++ ls') := by
    have hl : (text ++ "\n" ++ text').toList = text.toList ++ '\n' :: text'.toList := by simp
    exact hl ▸ hs.append_line (hs'.of_isBoundary rfl)
  have short : ShortLiterals (text ++ "\n" ++ text') := by
    intro _ h''
    rw [h''.deterministic spells, List.forall_mem_append]
    exact ⟨shortLiterals_of_parse h _ hs, shortLiterals_of_parse h' _ hs'⟩
  exact parse_of_renders short ⟨_, spells, hr.append hr'⟩

end Grammar

variable {ms : List Module} {ss : List Statement} {r : Rejection}

def Module.join (ms : List Module) : Module :=
  .ofSource ("\n".intercalate (ms.map (·.contents)))

theorem statements_cons_iff {m : Module} :
    statements (m :: ms) = .ok ss ↔
      ∃ ss₁ ss₂, m.parse = .ok ss₁ ∧ statements ms = .ok ss₂ ∧ ss = ss₁ ++ ss₂ := by
  rw [statements_cons]
  cases m.parse <;> cases statements ms <;> simp [eq_comm]

theorem statements_eq_ok_of_forall (h : ∀ m ∈ ms, ∃ ss, Grammar.parse m.contents = .ok ss) :
    ∃ ss, statements ms = .ok ss := by
  induction ms
  case nil => exact ⟨[], rfl⟩
  case cons m ms hi =>
    rw [List.forall_mem_cons] at h
    have ⟨ss₁, h₁⟩ := h.left
    have ⟨ss₂, h₂⟩ := hi h.right
    exact ⟨_, statements_cons_iff.mpr ⟨_, _, Module.parse_eq_ok_iff.mpr h₁, h₂, rfl⟩⟩

-- The induction is on the modules; the last one has no line end after it.
theorem statements_join (h : statements ms = .ok ss) : statements [.join ms] = .ok ss := by
  rw [statements_singleton, Module.parse_eq_ok_iff, Module.join, Module.ofSource]
  induction ms generalizing ss
  case nil =>
    obtain rfl : [] = ss := by simpa [statements] using h
    simpa using Grammar.parse_empty
  case cons m ms hi =>
    obtain ⟨ss₁, ss₂, h₁, h₂, rfl⟩ := statements_cons_iff.mp h
    have h₁ := Module.parse_eq_ok_iff.mp h₁
    cases ms
    case nil =>
      obtain rfl : [] = ss₂ := by simpa [statements] using h₂
      simpa using h₁
    case cons m' ms =>
      rw [List.map_cons, List.map_cons, String.intercalate_cons_cons, ←List.map_cons]
      exact Grammar.parse_append_line h₁ (hi h₂)

theorem layout_of_statements (h : statements ms = .ok ss) :
    (layout ms).result = ss.foldlM (fun l s => (l.add s).result) .empty := by
  rw [layout, Logged.result_foldlM]
  generalize Layout.empty = l
  induction ms generalizing l ss
  case nil =>
    obtain rfl : [] = ss := by simpa [statements] using h
    rfl
  case cons m ms hi =>
    obtain ⟨ss₁, ss₂, h₁, h₂, rfl⟩ := statements_cons_iff.mp h
    rw [List.foldlM_cons, List.foldlM_append, Layout.addModule_result, h₁, Result.ok_bind]
    congr 1
    funext l
    exact hi h₂ l

def Rejection.IsLinking : Rejection → Prop
  | duplicateLabel _ | writeTarget _ | unknownLabel _ => True
  | mismatch _ _ | overlong _                         => False

theorem FirstError.isLinking (h : FirstError ms r)
    (read : ∀ m ∈ ms, ∃ ss, Grammar.parse m.contents = .ok ss) : r.IsLinking := by
  cases h
  case mismatch m _ _ split _ _ error =>
    have ⟨_, hp⟩ := read m (by simp [split])
    simp [error] at hp
  case defect error => cases error <;> trivial
  case reference    => trivial

-- For all modules each of which can be read: they are assembled as the source that joins them, to
-- the same words, or are rejected for the same reason, which is not one of their texts.
theorem assemble_join (ms : List Module)
    (read : ∀ m ∈ ms, ∃ ss, Grammar.parse m.contents = .ok ss) :
    (assemble [.join ms]).result = (assemble ms).result ∧
      ∀ r, (assemble ms).result = .error r → r.IsLinking := by
  have ⟨ss, hs⟩ := statements_eq_ok_of_forall read
  constructor
  case left =>
    rw [assemble_result, assemble_result, layout_of_statements hs,
      layout_of_statements (statements_join hs)]
  case right =>
    intro r h
    have short : ∀ m ∈ ms, ShortLiterals m.contents := fun m hm =>
      have ⟨_, hp⟩ := read m hm
      Grammar.shortLiterals_of_parse hp
    exact (firstError_of_assemble short h).isLinking read

def borders : List Module :=
  [⟨"first", "jt #1, #&hlt data 7, // open"⟩, ⟨"second", "hlt: data -1,"⟩, ⟨"third", "hlt"⟩]

theorem assemble_join_borders :
    (∀ m ∈ borders ++ conflict, ∃ ss, Grammar.parse m.contents = .ok ss) ∧
      (assemble [.join borders]).result = .ok [1105, 1, 4, 7, -1, 99] ∧
      (assemble [.join conflict]).result = .error (.duplicateLabel "start") := by
  have read : ∀ m ∈ borders ++ conflict, ∃ ss, Grammar.parse m.contents = .ok ss := by
    have hp : ∀ m ∈ borders ++ conflict, (Grammar.parse m.contents).isOk := by decide +kernel
    intro m hm
    have hm := hp m hm
    cases he : Grammar.parse m.contents
    case ok ss => exact ⟨ss, rfl⟩
    case error => simp [he, Except.isOk, Except.toBool] at hm
  have ⟨hb, hc⟩ := List.forall_mem_append.mp read
  obtain ⟨assembled, -⟩ := assemble_join borders hb
  obtain ⟨rejected, -⟩ := assemble_join conflict hc
  exact ⟨read, assembled.trans (by decide +kernel), rejected.trans (by decide +kernel)⟩

end Intcode.Assembly
