import Intcode.Binary64
import Intcode.Decimal

namespace Intcode.Binary64

def Decimals.normalize (fuel : Nat) (d : Decimals) : Decimals :=
  match fuel with
  | 0 => d
  | fuel + 1 =>
    if d.digits % 10 = 0 then normalize fuel ⟨d.digits / 10, d.exponent + 1⟩ else d

def exponentText (e : Int) : String :=
  let sign := if e < 0 then "-" else "+"
  let pad := if e.natAbs < 10 then "0" else ""
  "e" ++ sign ++ pad ++ Decimal.text e.natAbs

def positional (ds : List Char) (point : Int) : List Char :=
  if point ≤ 0 then '0' :: '.' :: List.replicate (-point).toNat '0' ++ ds
  else if ds.length ≤ point.toNat then
    ds ++ List.replicate (point.toNat - ds.length) '0' ++ ['.', '0']
  else ds.take point.toNat ++ '.' :: ds.drop point.toNat

def scientific (ds : List Char) (point : Int) : List Char :=
  let fraction := if ds.length ≤ 1 then [] else '.' :: ds.drop 1
  ds.take 1 ++ fraction ++ (exponentText (point - 1)).toList

def magnitudeText (m : Nat) (e : Int) : List Char :=
  if m = 0 then ['0', '.', '0']
  else
    let d := (shortest m e).normalize 20
    let ds := Decimal.digits d.digits
    let point := d.exponent + ds.length
    if -4 < point ∧ point ≤ 16 then positional ds point else scientific ds point

def text : Binary64 → String
  | nan => "nan"
  | infinite negative => if negative then "-inf" else "inf"
  | finite negative m e => String.ofList ((if negative then ['-'] else []) ++ magnitudeText m e)

end Intcode.Binary64
