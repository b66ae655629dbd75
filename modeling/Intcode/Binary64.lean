import Intcode.Decimal

namespace Intcode

inductive Binary64 where
  | nan
  | infinite (negative : Bool)
  | finite (negative : Bool) (mantissa : Nat) (exponent : Int)
  deriving DecidableEq, Repr

namespace Binary64

def precision : Nat := 53

def mantissaBound : Nat := 1 <<< precision

def leastExponent : Int := -1074

def greatestExponent : Int := 971

def isZero : Binary64 → Bool
  | finite _ m _ => m == 0
  | _ => false

def roundDiv (num den : Nat) : Nat :=
  let q := num / den
  let r := num % den
  if 2 * r < den then q
  else if den < 2 * r then q + 1
  else q + q % 2

def scale (num den : Nat) (e : Int) : Nat × Nat :=
  if 0 ≤ e then (num, den <<< e.toNat) else (num <<< (-e).toNat, den)

def exponentOf (num den : Nat) : Int :=
  let e := (Nat.log2 num : Int) - Nat.log2 den - precision
  let (n, d) := scale num den e
  let e := if n / d < mantissaBound then e else e + 1
  max e leastExponent

def ofRatio (negative : Bool) (num den : Nat) : Binary64 :=
  if num = 0 then finite negative 0 leastExponent
  else
    let e := exponentOf num den
    let (n, d) := scale num den e
    let m := roundDiv n d
    let (m, e) := if m < mantissaBound then (m, e) else (m / 2, e + 1)
    if greatestExponent < e then infinite negative else finite negative m e

-- The number nearest to `digits · 10 ^ exponent`. A decimal far outside the format's range is
-- settled by its magnitude alone.
def ofDecimal (negative : Bool) (digits : Nat) (exponent : Int) : Binary64 :=
  let magnitude := exponent + (Nat.toDigits 10 digits).length
  if digits = 0 ∨ magnitude < -330 then finite negative 0 leastExponent
  else if 310 < magnitude then infinite negative
  else if 0 ≤ exponent then ofRatio negative (digits * Decimal.powerOfTen exponent.toNat) 1
  else ofRatio negative digits (Decimal.powerOfTen (-exponent).toNat)

structure Decimals where
  digits : Nat
  exponent : Int

namespace Shortest

-- The numbers that round to `m · 2 ^ e`, doubled twice: from `low` to `high` over `den`, with
-- `mid` itself; the ends are among them when the mantissa is even.
structure Interval where
  low : Nat
  mid : Nat
  high : Nat
  den : Nat
  closed : Bool

def interval (m : Nat) (e : Int) : Interval :=
  let below := if 2 * m = mantissaBound ∧ leastExponent < e then 1 else 2
  let (num, den) := scale 1 4 (-e)
  ⟨(4 * m - below) * num, 4 * m * num, (4 * m + 2) * num, den, m % 2 = 0⟩

def Interval.contains (i : Interval) (num den : Nat) : Bool :=
  if i.closed then i.low * den ≤ num * i.den && num * i.den ≤ i.high * den
  else i.low * den < num * i.den && num * i.den < i.high * den

def shift (num den : Nat) : Nat → Nat
  | 0 => 0
  | fuel + 1 => if den ≤ num then 0 else shift (num * 10) den fuel + 1

-- The number of digits before the point of `num / den`; for a fraction, less the zeros after it.
def magnitude (num den : Nat) : Int :=
  if den ≤ num then (Nat.toDigits 10 (num / den)).length else 1 - shift num den 400

def onGrid (i : Interval) (p : Int) : Option Decimals :=
  let (stepNum, stepDen) := if 0 ≤ p then (Decimal.powerOfTen p.toNat, 1)
    else (1, Decimal.powerOfTen (-p).toNat)
  let down := i.mid * stepDen / (i.den * stepNum)
  let up := down + 1
  let fits d := i.contains (d * stepNum) stepDen
  let twice := 2 * i.mid * stepDen
  let middle := (down + up) * stepNum * i.den
  let nearer := if twice < middle then down
    else if middle < twice then up
    else down + down % 2
  if fits nearer then some ⟨nearer, p⟩
  else if fits down then some ⟨down, p⟩
  else if fits up then some ⟨up, p⟩
  else none

def search (i : Interval) (top : Int) (n : Nat) : Nat → Decimals
  | 0 => ⟨i.mid / i.den, 0⟩
  | fuel + 1 => (onGrid i (top - n)).getD (search i top (n + 1) fuel)

end Shortest

-- The decimal with the fewest digits that reads back as `m · 2 ^ e`, the nearest of those.
def shortest (m : Nat) (e : Int) : Decimals :=
  let i := Shortest.interval m e
  Shortest.search i (Shortest.magnitude i.mid i.den) 1 17

end Binary64
end Intcode
