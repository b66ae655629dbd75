namespace Intcode.Text

namespace Tabs

def width : Nat := 8

def expandFrom (column : Nat) : List Char → List Char
  | [] => []
  | c :: cs =>
    if c = '\t' then
      let gap := width - column % width
      List.replicate gap ' ' ++ expandFrom (column + gap) cs
    else if c = '\n' ∨ c = '\r' then
      c :: expandFrom 0 cs
    else
      c :: expandFrom (column + 1) cs

end Tabs

def expandTabs (cs : List Char) : List Char :=
  Tabs.expandFrom 0 cs

end Intcode.Text
