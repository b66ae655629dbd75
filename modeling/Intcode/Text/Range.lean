namespace Intcode.Text

abbrev Range := Nat × Nat

namespace Range

def contains (r : Range) (c : Char) : Bool :=
  r.1 ≤ c.toNat && c.toNat ≤ r.2

def covers (rs : List Range) (c : Char) : Bool :=
  rs.any (·.contains c)

end Range
end Intcode.Text
