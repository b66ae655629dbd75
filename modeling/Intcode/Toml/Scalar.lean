import Intcode.Text.Literal
import Intcode.Toml.Text
import Intcode.Value

namespace Intcode.Toml

def moreDigits (p : Char → Bool) : List Char → List Char × List Char
  | '_' :: c :: cs =>
    if p c then
      let (ds, rest) := moreDigits p cs
      (c :: ds, rest)
    else ([], '_' :: c :: cs)
  | c :: cs =>
    if p c then
      let (ds, rest) := moreDigits p cs
      (c :: ds, rest)
    else ([], c :: cs)
  | [] => ([], [])

def digits? (p : Char → Bool) : List Char → Option (List Char × List Char)
  | c :: cs =>
    if p c then
      let (ds, rest) := moreDigits p cs
      some (c :: ds, rest)
    else none
  | [] => none

def valueInBase (base : Nat) (ds : List Char) : Nat :=
  ds.foldl (fun n c => n * base + (hexDigit? c).getD 0) 0

def basedInteger? : List Char → Option (Int × List Char)
  | '0' :: 'x' :: cs =>
    (digits? (fun c => (hexDigit? c).isSome) cs).map fun (ds, rest) => (valueInBase 16 ds, rest)
  | '0' :: 'o' :: cs =>
    (digits? (fun c => '0' ≤ c && c ≤ '7') cs).map fun (ds, rest) => (valueInBase 8 ds, rest)
  | '0' :: 'b' :: cs =>
    (digits? (fun c => c == '0' || c == '1') cs).map fun (ds, rest) => (valueInBase 2 ds, rest)
  | _ => none

def whole? : List Char → Option (List Char × List Char)
  | '0' :: cs => some (['0'], cs)
  | cs => digits? Char.isDigit cs

def fraction? : List Char → Option (List Char × List Char)
  | '.' :: cs => digits? Char.isDigit cs
  | _ => none

def exponent? : List Char → Option (Int × List Char)
  | [] => none
  | c :: cs =>
    if c = 'e' ∨ c = 'E' then
      let (sign, cs) := Text.Literal.splitSign cs
      (digits? Char.isDigit cs).map fun (ds, rest) => (sign.apply (Decimal.value ds), rest)
    else none

def decimal? (cs : List Char) : Option (Except Error Value × List Char) := do
  let (sign, cs) := Text.Literal.splitSign cs
  let (whole, cs) ← whole? cs
  match fraction? cs, exponent? ((fraction? cs).elim cs (·.2)) with
  | none, none =>
    match Decimal.read sign whole with
    | .ok n => return (.ok (.int n), cs)
    | .error e => return (.error (.overlong e), cs)
  | fraction, exponent =>
    let (part, cs) := fraction.getD ([], cs)
    let (power, cs) := exponent.getD (0, cs)
    let digits := Decimal.value (whole ++ part)
    return (.ok (.number (.ofDecimal (sign = .minus) digits (power - part.length))), cs)

def special? (cs : List Char) : Option (Value × List Char) :=
  let (sign, rest) := Text.Literal.splitSign cs
  match rest with
  | 'i' :: 'n' :: 'f' :: rest => some (.number (.infinite (sign = .minus)), rest)
  | 'n' :: 'a' :: 'n' :: rest => some (.number .nan, rest)
  | _ => none

def twoDigits? (low high : Nat) : List Char → Option (Nat × List Char)
  | c :: d :: cs =>
    let n := Decimal.value [c, d]
    if c.isDigit && d.isDigit && low ≤ n && n ≤ high then some (n, cs) else none
  | _ => none

def expect? (c : Char) : List Char → Option (List Char)
  | d :: cs => if c = d then some cs else none
  | [] => none

def date? (cs : List Char) : Option (Date × List Char) := do
  let year := cs.take 4
  if year.length < 4 ∨ ¬year.all Char.isDigit then none
  let cs ← expect? '-' (cs.drop 4)
  let (month, cs) ← twoDigits? 1 12 cs
  let cs ← expect? '-' cs
  let (day, cs) ← twoDigits? 1 31 cs
  return (⟨Decimal.value year, month, day⟩, cs)

-- Digits after a point as microseconds: six of them, as many as there are, count.
def microseconds (cs : List Char) : Nat × List Char :=
  match cs with
  | '.' :: rest =>
    match rest.takeWhile Char.isDigit with
    | [] => (0, cs)
    | ds => (Decimal.value ((ds.take 6).rightpad 6 '0'), rest.dropWhile Char.isDigit)
  | _ => (0, cs)

def clock? (cs : List Char) : Option (Clock × List Char) := do
  let (hour, cs) ← twoDigits? 0 23 cs
  let (minute, cs) ← twoDigits? 0 59 (← expect? ':' cs)
  let (second, cs) ← twoDigits? 0 59 (← expect? ':' cs)
  let (micro, cs) := microseconds cs
  return (⟨hour, minute, second, micro⟩, cs)

def offset? : List Char → Option (Int × List Char)
  | [] => none
  | c :: cs =>
    if c = 'Z' ∨ c = 'z' then some (0, cs)
    else if c = '+' ∨ c = '-' then do
      let (hours, cs) ← twoDigits? 0 23 cs
      let (minutes, cs) ← twoDigits? 0 59 (← expect? ':' cs)
      let n : Int := hours * 60 + minutes
      return (if c = '-' then -n else n, cs)
    else none

def dateTime? (cs : List Char) : Option (Moment × List Char) := do
  let (d, cs) ← date? cs
  let clock :=
    match cs with
    | c :: rest => if c = 'T' ∨ c = 't' ∨ c = ' ' then clock? rest else none
    | [] => none
  match clock with
  | none => return (.date d, cs)
  | some (t, cs) =>
    match offset? cs with
    | none => return (.dateTime d t none, cs)
    | some (z, cs) => return (.dateTime d t (some z), cs)

def dateOf? : Moment → Option Date
  | .date d => some d
  | .dateTime d _ _ => some d
  | .time _ => none

-- A date or a number; what looks like a date is one, and then has to exist.
def scalar (cs : List Char) : Except Error (Value × List Char) :=
  match dateTime? cs with
  | some (m, rest) =>
    if (dateOf? m).all fun d => decide d.Valid then .ok (.moment m, rest) else .error .malformed
  | none =>
    match clock? cs, basedInteger? cs, decimal? cs, special? cs with
    | some (t, rest), _, _, _ => .ok (.moment (.time t), rest)
    | none, some (n, rest), _, _ => .ok (.int n, rest)
    | none, none, some (v, rest), _ => v.map (·, rest)
    | none, none, none, some (v, rest) => .ok (v, rest)
    | none, none, none, none => .error .malformed

end Intcode.Toml
