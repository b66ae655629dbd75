namespace Intcode.Text

namespace ControlSequence

def escape : Char := '\x1b'

def isParameter (c : Char) : Bool :=
  '0' ≤ c && c ≤ '?'

def isIntermediate (c : Char) : Bool :=
  ' ' ≤ c && c ≤ '/'

def isFinal (c : Char) : Bool :=
  '@' ≤ c && c ≤ '~'

def afterFinal? (cs : List Char) : Option (List Char) :=
  match (cs.dropWhile isParameter).dropWhile isIntermediate with
  | c :: rest => if isFinal c then some rest else none
  | [] => none

def after? : List Char → Option (List Char)
  | c :: '[' :: cs => if c = escape then afterFinal? cs else none
  | _ => none

theorem afterFinal?_length_lt {cs rest : List Char} (h : afterFinal? cs = some rest) :
    rest.length < cs.length := by
  have h₁ := (List.dropWhile_sublist isParameter (l := cs)).length_le
  have h₂ := (List.dropWhile_sublist isIntermediate (l := cs.dropWhile isParameter)).length_le
  rw [afterFinal?] at h
  split at h
  next c rest' hd =>
    rw [hd] at h₂
    split at h <;> simp_all
    omega
  next => simp at h

theorem after?_length_lt {cs rest : List Char} (h : after? cs = some rest) :
    rest.length < cs.length := by
  rw [after?.eq_def] at h
  split at h
  next =>
    split at h
    · have := afterFinal?_length_lt h
      simp
      omega
    · simp at h
  next => simp at h

-- A text without its control sequences. What only comes to look like one by that stays.
def remove (cs : List Char) : List Char :=
  match cs with
  | [] => []
  | c :: rest =>
    match _h : after? (c :: rest) with
    | some more => remove more
    | none => c :: remove rest
termination_by cs.length
decreasing_by
  · exact after?_length_lt _h
  · simp

end ControlSequence

def plain (s : String) : String :=
  String.ofList (ControlSequence.remove s.toList)

end Intcode.Text
