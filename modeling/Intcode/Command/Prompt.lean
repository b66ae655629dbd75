import Intcode.Command.Integer
import Intcode.Execution
import Intcode.Text.Quoted
import Intcode.Text.Utf8

namespace Intcode.Command.Prompt

def question : String := "input: "

def lines (s : String) : List String :=
  let parts := ((String.ofList (Text.unifyLineEnds s.toList)).splitOn "\n")
  if parts.getLast? = some "" then parts.dropLast else parts

def read (line : String) : Except String Int :=
  if line = "" then .error ""
  else
    match integer? line with
    | some v => .ok v
    | none => .error ("Error: " ++ Text.quoted line ++ " is not a valid integer.\n")

-- The replies that lines of input lead to; the last one has no value. `shown` is what the console
-- shows of the reply in the making.
def replies (shown : String) : List String → List Reply
  | [] => [⟨shown ++ question, none⟩]
  | line :: lines =>
    match read line with
    | .ok v => ⟨shown ++ question, some v⟩ :: replies "" lines
    | .error again => replies (shown ++ question ++ again) lines

def source (stdin : String) : Source :=
  let rs := replies "" (lines stdin)
  fun k => (rs[k]?).getD ⟨question, none⟩

end Intcode.Command.Prompt
