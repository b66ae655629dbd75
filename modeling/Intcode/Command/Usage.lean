import Intcode.Command.Arguments
import Intcode.Decimal
import Intcode.Text.ControlSequence
import Intcode.Text.Quoted

namespace Intcode.Command

namespace Switch

variable {κ : Type}

def names (s : Switch κ) : String :=
  let short := s.short.elim "" fun c => Arguments.shortName c ++ ", "
  short ++ s.long ++ s.value.elim "" (" " ++ ·)

def quotedNames (s : Switch κ) : String :=
  let short := s.short.elim "" fun c => Text.quoted (Arguments.shortName c) ++ " / "
  short ++ Text.quoted s.long

def helpLine (width : Nat) (s : Switch κ) : String :=
  let pad := String.ofList (List.replicate (width - s.names.length) ' ')
  if s.help = "" then "  " ++ s.names ++ "\n" else "  " ++ s.names ++ pad ++ "  " ++ s.help ++ "\n"

end Switch

structure Synopsis (κ : Type) where
  command : String
  arguments : String
  switches : List (Switch κ)

inductive UsageError where
  | argument (error : ArgumentError)
  | noInteger (option value : String)
  | noPath (option value : String)
  | missing (name : String)
  | unexpected (arguments : List String)
  deriving DecidableEq

namespace UsageError

def suggestion : List String → String
  | [] => ""
  | [name] => " Did you mean " ++ Text.quoted name ++ "?"
  | names => " (Did you mean one of: " ++ ", ".intercalate (names.map Text.quoted) ++ "?)"

def message : UsageError → String
  | argument (.unknown name similar) =>
    "No such option " ++ Text.quoted name ++ "." ++ suggestion similar
  | argument (.valueMissing name) => "Option " ++ Text.quoted name ++ " requires an argument."
  | argument (.valueUnwanted name) => "Option " ++ Text.quoted name ++ " does not take a value."
  | noInteger option value =>
    "Invalid value for " ++ option ++ ": " ++ Text.quoted value ++ " is not a valid integer."
  | noPath option value =>
    "Invalid value for " ++ option ++ ": Path " ++ Text.quoted value ++ " does not exist."
  | missing name => "Missing argument '" ++ name ++ "'."
  | unexpected arguments =>
    let noun := if arguments.length = 1 then "argument" else "arguments"
    "Got unexpected extra " ++ noun ++ " (" ++ " ".intercalate arguments ++ ")"

-- An option that was used with or without a value where it should not is reported without a hint at
-- the help text.
def hasHint : UsageError → Bool
  | argument (.valueMissing _) | argument (.valueUnwanted _) => false
  | _ => true

end UsageError

namespace Synopsis

variable {κ : Type} (s : Synopsis κ)

def usage : String :=
  "Usage: " ++ s.command ++ " [OPTIONS] " ++ s.arguments ++ "\n"

def help : String :=
  let width := (s.switches.map fun w => w.names.length).foldl max 0
  s.usage ++ "\nOptions:\n" ++ String.join (s.switches.map (Switch.helpLine width))

-- What is said about arguments that the command does not take. The arguments may be part of it, so
-- it is made plain.
def complaint (e : UsageError) : String :=
  let hint :=
    if e.hasHint then s.usage ++ "Try '" ++ s.command ++ " --help' for help.\n\n" else ""
  hint ++ "Error: " ++ Text.plain e.message ++ "\n"

end Synopsis
end Intcode.Command
