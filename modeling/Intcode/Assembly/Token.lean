import Intcode.Text.Blank
import Intcode.Text.Literal

namespace Intcode.Assembly

-- A word is `isolated` if neither the character before it nor the one after it could belong to a
-- keyword.
inductive Lexeme where
  | word (name : List Char) (isolated : Bool)
  | literal (sign : Decimal.Sign) (digits : List Char)
  | mark (c : Char)
  deriving DecidableEq, Repr

@[ext]
structure Token where
  offset : Nat
  lexeme : Lexeme
  deriving DecidableEq, Repr

namespace Token

def isLetter (c : Char) : Bool :=
  ('a' ≤ c && c ≤ 'z') || ('A' ≤ c && c ≤ 'Z')

def isWordStart (c : Char) : Bool :=
  isLetter c || c == '_'

def isWordPart (c : Char) : Bool :=
  isWordStart c || c.isDigit

-- A keyword may not touch such a character.
def isKeywordPart (c : Char) : Bool :=
  isWordPart c || c == '$'

theorem isWordPart_of_isWordStart {c : Char} (h : isWordStart c = true) : isWordPart c = true := by
  simp [isWordPart, h]

def isBoundary (c : Option Char) : Bool :=
  !c.any isKeywordPart

def startsComment : List Char → Bool
  | '/' :: '/' :: _ => true
  | _ => false

def scanFrom (offset : Nat) (previous : Option Char) (cs : List Char) : List Token :=
  match cs with
  | [] => []
  | c :: rest =>
    if Text.isGap c then scanFrom (offset + 1) (some c) rest
    else if startsComment (c :: rest) then
      scanFrom (offset + ((c :: rest).takeWhile (· ≠ '\n')).length) none (rest.dropWhile (· ≠ '\n'))
    else if isWordStart c then
      let more := rest.takeWhile isWordPart
      let after := rest.dropWhile isWordPart
      let isolated := isBoundary previous && isBoundary after.head?
      ⟨offset, .word (c :: more) isolated⟩ ::
        scanFrom (offset + more.length + 1) ((c :: more).getLast?) after
    else
      match _h : Text.Literal.read? (c :: rest) with
      | some l =>
        ⟨offset, .literal l.sign l.digits⟩ ::
          scanFrom (offset + (rest.length + 1 - l.rest.length)) l.digits.getLast? l.rest
      | none => ⟨offset, .mark c⟩ :: scanFrom (offset + 1) (some c) rest
termination_by cs.length
decreasing_by
  · simp
  · have := (List.dropWhile_sublist (p := (· ≠ '\n')) (l := rest)).length_le
    simp only [List.length_cons]; omega
  · have := (List.dropWhile_sublist (p := isWordPart) (l := rest)).length_le
    simp only [List.length_cons]; omega
  · exact Text.Literal.rest_length_lt _h
  · simp

def scan (cs : List Char) : List Token :=
  scanFrom 0 none cs

end Token
end Intcode.Assembly
