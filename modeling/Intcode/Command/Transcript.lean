import Intcode.Execution

namespace Intcode.Command

def recordLine (r : Record) : String :=
  r.level.name ++ ":root:" ++ r.text ++ "\n"

def isShown (verbose : Bool) (r : Record) : Bool :=
  verbose || r.level == .info

def eventText (verbose : Bool) : Event → String
  | .record r => if isShown verbose r then recordLine r else ""
  | .console text => text

def eventsText (verbose : Bool) (events : Array Event) : String :=
  events.foldl (fun s e => s ++ eventText verbose e) ""

-- What was written, and how the command ended: with an exit code and perhaps an error that was
-- reported, or with an error that was not.
structure Transcript (ε : Type) where
  stdout : String
  stderr : String
  ending : Except ε (Nat × Option ε)

namespace Transcript

variable {ε : Type}

def usageCode : Nat := 2

def ofHelp (text : String) : Transcript ε :=
  ⟨text, "", .ok (0, none)⟩

def ofComplaint (text : String) : Transcript ε :=
  ⟨"", text, .ok (usageCode, none)⟩

def ofError (e : ε) : Transcript ε :=
  ⟨"", "", .error e⟩

end Transcript
end Intcode.Command
