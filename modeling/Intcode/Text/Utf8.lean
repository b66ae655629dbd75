import Intcode.Text.Quoted
import Intcode.Decimal

namespace Intcode.Text.Utf8

inductive Defect where
  | start
  | continuation
  | ending
  deriving DecidableEq, Repr

-- The bytes from `first` up to, not including, `past` are no character; `lead` is the first.
structure Malformed where
  defect : Defect
  lead : UInt8
  first : Nat
  past : Nat
  deriving DecidableEq, Repr

namespace Malformed

def reason (e : Malformed) : String :=
  match e.defect with
  | .start => "invalid start byte"
  | .continuation => "invalid continuation byte"
  | .ending => "unexpected end of data"

def message (e : Malformed) : String :=
  let place :=
    if e.past = e.first + 1 then
      "byte 0x" ++ String.ofList (Quoted.hex 2 e.lead.toNat) ++ " in position " ++
        Decimal.text e.first
    else
      "bytes in position " ++ Decimal.text e.first ++ "-" ++ Decimal.text (e.past - 1)
  "'utf-8' codec can't decode " ++ place ++ ": " ++ e.reason

end Malformed

-- A character of which the lead byte, at position `first`, was read. The next byte has to be
-- between `low` and `high`; `owed` bytes are missing.
structure Begun where
  lead : UInt8
  first : Nat
  code : Nat
  owed : Nat
  low : Nat
  high : Nat

-- The shortest form of each character only, and no surrogates.
def begin? (b : UInt8) (first : Nat) : Option Begun :=
  let n := b.toNat
  if n < 0xc2 then none
  else if n < 0xe0 then some ⟨b, first, n - 0xc0, 1, 0x80, 0xbf⟩
  else if n = 0xe0 then some ⟨b, first, n - 0xe0, 2, 0xa0, 0xbf⟩
  else if n = 0xed then some ⟨b, first, n - 0xe0, 2, 0x80, 0x9f⟩
  else if n < 0xf0 then some ⟨b, first, n - 0xe0, 2, 0x80, 0xbf⟩
  else if n = 0xf0 then some ⟨b, first, n - 0xf0, 3, 0x90, 0xbf⟩
  else if n < 0xf4 then some ⟨b, first, n - 0xf0, 3, 0x80, 0xbf⟩
  else if n = 0xf4 then some ⟨b, first, n - 0xf0, 3, 0x80, 0x8f⟩
  else none

def decodeFrom (pos : Nat) (begun : Option Begun) : List UInt8 → Except Malformed (List Char)
  | [] =>
    match begun with
    | none => .ok []
    | some c => .error ⟨.ending, c.lead, c.first, pos⟩
  | b :: bs =>
    match begun with
    | none =>
      if b.toNat < 0x80 then (decodeFrom (pos + 1) none bs).map (Char.ofNat b.toNat :: ·)
      else
        match begin? b pos with
        | none => .error ⟨.start, b, pos, pos + 1⟩
        | some c => decodeFrom (pos + 1) (some c) bs
    | some c =>
      if c.low ≤ b.toNat ∧ b.toNat ≤ c.high then
        let code := c.code * 64 + (b.toNat - 0x80)
        if c.owed ≤ 1 then (decodeFrom (pos + 1) none bs).map (Char.ofNat code :: ·)
        else decodeFrom (pos + 1) (some ⟨c.lead, c.first, code, c.owed - 1, 0x80, 0xbf⟩) bs
      else .error ⟨.continuation, c.lead, c.first, pos⟩

end Utf8

def decodeUtf8 (bytes : List UInt8) : Except Utf8.Malformed (List Char) :=
  Utf8.decodeFrom 0 none bytes

def unifyLineEnds : List Char → List Char
  | [] => []
  | '\r' :: '\n' :: cs => '\n' :: unifyLineEnds cs
  | c :: cs => (if c = '\r' then '\n' else c) :: unifyLineEnds cs

end Intcode.Text
