import Intcode.Decimal

namespace Intcode.Text

structure Literal where
  sign : Decimal.Sign
  digits : List Char
  rest : List Char

namespace Literal

def splitSign : List Char → Decimal.Sign × List Char
  | '+' :: cs => (.plus, cs)
  | '-' :: cs => (.minus, cs)
  | cs => (.plus, cs)

theorem splitSign_length_le (cs : List Char) : (splitSign cs).2.length ≤ cs.length := by
  unfold splitSign
  split <;> simp

def read? (cs : List Char) : Option Literal :=
  let (sign, body) := splitSign cs
  let digits := body.takeWhile Char.isDigit
  if digits = [] then none else some ⟨sign, digits, body.dropWhile Char.isDigit⟩

theorem rest_length_lt {cs : List Char} {l : Literal} (h : read? cs = some l) :
    l.rest.length < cs.length := by
  unfold read? at h
  have le := splitSign_length_le cs
  generalize splitSign cs = s at h le
  obtain ⟨sign, body⟩ := s
  simp only at h le
  split at h
  · contradiction
  · next ne =>
    obtain rfl := Option.some.inj h
    have := congrArg List.length (List.takeWhile_append_dropWhile (p := Char.isDigit) (l := body))
    have := List.length_pos_iff.mpr ne
    simp only [List.length_append] at *
    omega

def value (l : Literal) : Except Decimal.Overlong Int :=
  Decimal.read l.sign l.digits

end Literal
end Intcode.Text
