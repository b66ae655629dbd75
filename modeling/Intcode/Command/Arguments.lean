import Intcode.Text.Similarity

namespace Intcode.Command

structure Switch (κ : Type) where
  key : κ
  short : Option Char
  long : String
  value : Option String
  help : String

def Switch.takesValue {κ : Type} (s : Switch κ) : Bool :=
  s.value.isSome

inductive ArgumentError where
  | unknown (name : String) (similar : List String)
  | valueMissing (name : String)
  | valueUnwanted (name : String)
  deriving DecidableEq, Repr

structure Given (κ : Type) where
  key : κ
  value : String

structure Arguments (κ : Type) where
  options : List (Given κ)
  others : List String

namespace Arguments

variable {κ : Type}

def shortName (c : Char) : String :=
  String.ofList ['-', c]

-- The options of a bundle, and the one that needs the next argument as its value.
def bundle (switches : List (Switch κ)) :
    List Char → Except ArgumentError (List (Given κ) × Option (κ × String))
  | [] => .ok ([], none)
  | c :: cs =>
    match switches.find? (·.short == some c) with
    | none => .error (.unknown (shortName c) [])
    | some s =>
      if s.takesValue then
        if cs = [] then .ok ([], some (s.key, shortName c))
        else .ok ([⟨s.key, String.ofList cs⟩], none)
      else do
        let (given, awaiting) ← bundle switches cs
        return (⟨s.key, ""⟩ :: given, awaiting)

def option (switches : List (Switch κ)) (cs : List Char) :
    Except ArgumentError (List (Given κ) × Option (κ × String)) :=
  let name := String.ofList (cs.takeWhile (· ≠ '='))
  let attached := (cs.dropWhile (· ≠ '=')).tail?.map String.ofList
  match switches.find? (·.long == name) with
  | some s =>
    match s.takesValue, attached with
    | true, some v => .ok ([⟨s.key, v⟩], none)
    | true, none => .ok ([], some (s.key, name))
    | false, some _ => .error (.valueUnwanted name)
    | false, none => .ok ([⟨s.key, ""⟩], none)
  | none =>
    match cs with
    | '-' :: '-' :: _ => .error (.unknown name (Text.similar name (switches.map (·.long))))
    | _ => bundle switches cs.tail

def parseFrom (switches : List (Switch κ)) (awaiting : Option (κ × String)) :
    List String → Except ArgumentError (Arguments κ)
  | [] =>
    match awaiting with
    | none => .ok ⟨[], []⟩
    | some (_, name) => .error (.valueMissing name)
  | a :: as =>
    match awaiting with
    | some (key, _) => do
      let more ← parseFrom switches none as
      return { more with options := ⟨key, a⟩ :: more.options }
    | none =>
      if a = "--" then .ok ⟨[], as⟩
      else if a.startsWith "-" ∧ a.length > 1 then do
        let (given, awaiting) ← option switches a.toList
        let more ← parseFrom switches awaiting as
        return { more with options := given ++ more.options }
      else do
        let more ← parseFrom switches none as
        return { more with others := a :: more.others }

def parse (switches : List (Switch κ)) (as : List String) : Except ArgumentError (Arguments κ) :=
  parseFrom switches none as

def keys [BEq κ] (as : Arguments κ) : List κ :=
  (as.options.map (·.key)).eraseDups

def values [BEq κ] (as : Arguments κ) (key : κ) : List String :=
  (as.options.filter (·.key == key)).map (·.value)

def has [BEq κ] (as : Arguments κ) (key : κ) : Bool :=
  as.options.any (·.key == key)

end Arguments
end Intcode.Command
