import Intcode.FileTree.Path
import Intcode.Text.Quoted
import Intcode.Text.Utf8

namespace Intcode

inductive FileTree.Entry where
  | file (bytes : List UInt8)
  | directory
  deriving DecidableEq, Repr

-- Entries by their places. A place is given by the names on the way from the root to it. The
-- working directory is always there, and so are those above it.
@[ext]
structure FileTree where
  workingDirectory : List String
  entries : List (List String × FileTree.Entry)
  deriving DecidableEq

namespace FileTree

inductive Obstacle where
  | missing
  | occupied
  | notDirectory
  | isDirectory
  | nameTooLong
  deriving DecidableEq, Repr

namespace Obstacle

def number : Obstacle → Nat
  | missing => 2
  | occupied => 17
  | notDirectory => 20
  | isDirectory => 21
  | nameTooLong => 36

def description : Obstacle → String
  | missing => "No such file or directory"
  | occupied => "File exists"
  | notDirectory => "Not a directory"
  | isDirectory => "Is a directory"
  | nameTooLong => "File name too long"

end Obstacle

inductive Error where
  | obstacle (obstacle : Obstacle) (path : Path)
  | nullCharacter
  | malformed (error : Text.Utf8.Malformed)
  deriving DecidableEq

def Error.message : Error → String
  | obstacle o path =>
    "[Errno " ++ Decimal.text o.number ++ "] " ++ o.description ++ ": " ++ Text.quoted path.text
  | nullCharacter => "embedded null byte"
  | malformed e => e.message

def nameLimit : Nat := 255
def pathLimit : Nat := 4095

def empty (workingDirectory : List String) : FileTree :=
  ⟨workingDirectory, []⟩

def entry? (t : FileTree) (place : List String) : Option Entry :=
  if place.isPrefixOf t.workingDirectory then some .directory else t.entries.lookup place

def put (t : FileTree) (place : List String) (e : Entry) : FileTree :=
  { t with entries := (place, e) :: t.entries.filter fun (p, _) => p ≠ place }

def start (t : FileTree) (p : Path) : List String :=
  match p.anchor with
  | .workingDirectory => t.workingDirectory
  | .root | .doubleRoot => []

def enter (place : List String) (part : String) : List String :=
  if part = "." then place else if part = ".." then place.dropLast else place ++ [part]

def place (t : FileTree) (p : Path) : List String :=
  p.parts.foldl enter (t.start p)

def walk (t : FileTree) (place : List String) : List String → Except Obstacle (List String)
  | [] => .ok place
  | part :: parts =>
    match t.entry? place with
    | none => .error .missing
    | some (.file _) => .error .notDirectory
    | some .directory =>
      if nameLimit < part.utf8ByteSize then .error .nameTooLong
      else walk t (enter place part) parts

def hasNull (s : String) : Bool :=
  s.toList.contains '\x00'

def locate (t : FileTree) (p : Path) : Except Error (List String) :=
  if hasNull p.text then .error .nullCharacter
  else if pathLimit < p.text.utf8ByteSize then .error (.obstacle .nameTooLong p)
  else (t.walk (t.start p) p.parts).mapError (.obstacle · p)

def find (t : FileTree) (p : Path) : Except Error Entry := do
  match t.entry? (← t.locate p) with
  | some e => return e
  | none => throw (.obstacle .missing p)

def isDirectory (t : FileTree) (p : Path) : Bool :=
  match t.find p with
  | .ok .directory => true
  | _ => false

def readBytes (t : FileTree) (p : Path) : Except Error (List UInt8) := do
  match ← t.find p with
  | .file bytes => return bytes
  | .directory => throw (.obstacle .isDirectory p)

def readText (t : FileTree) (p : Path) : Except Error String := do
  match Text.decodeUtf8 (← t.readBytes p) with
  | .ok cs => return String.ofList (Text.unifyLineEnds cs)
  | .error e => throw (.malformed e)

-- Whether something stands at a path as it is spelled. Nothing does at an empty one, and one that
-- ends in a slash or a dot leads to a directory.
def existsAt (t : FileTree) (spelling : String) : Except Error Bool :=
  let p := Path.ofSpelling spelling
  if hasNull spelling then .error .nullCharacter
  else if spelling = "" ∨ pathLimit < spelling.utf8ByteSize then .ok false
  else
    match t.walk (t.start p) p.parts with
    | .ok place => .ok (t.entry? place).isSome
    | .error _ => .ok false

def makeDirectory (t : FileTree) (p : Path) : Except Error FileTree := do
  let place ← t.locate p
  match t.entry? place with
  | none => return t.put place .directory
  | some _ => throw (.obstacle .occupied p)

def makeOrKeepDirectory (t : FileTree) (p : Path) : FileTree × Option Error :=
  match t.makeDirectory p with
  | .ok t => (t, none)
  | .error (.obstacle .missing _) => (t, some (.obstacle .missing p))
  | .error e => (t, if t.isDirectory p then none else some e)

-- Makes a directory unless it is there, with the directories on the way to it, of which there are
-- `n` at most. What was made before an obstacle was met stays.
def ensureDirectory (t : FileTree) (p : Path) : Nat → FileTree × Option Error
  | 0 => t.makeOrKeepDirectory p
  | n + 1 =>
    match t.makeDirectory p with
    | .error (.obstacle .missing _) =>
      match ensureDirectory t p.parent n with
      | (t, none) => t.makeOrKeepDirectory p
      | (t, some e) => (t, some e)
    | _ => t.makeOrKeepDirectory p

def writeText (t : FileTree) (p : Path) (s : String) : Except Error FileTree := do
  let place ← t.locate p
  match t.entry? place with
  | some .directory => throw (.obstacle .isDirectory p)
  | some (.file _) | none => return t.put place (.file s.toUTF8.data.toList)

end FileTree
end Intcode
