import Intcode.Decimal

namespace Intcode

structure Date where
  year : Nat
  month : Nat
  day : Nat
  deriving DecidableEq, Repr

namespace Date

def isLeap (year : Nat) : Bool :=
  year % 4 == 0 && (year % 100 != 0 || year % 400 == 0)

def daysIn (year month : Nat) : Nat :=
  if month = 2 then (if isLeap year then 29 else 28)
  else if month = 4 ∨ month = 6 ∨ month = 9 ∨ month = 11 then 30
  else 31

def Valid (d : Date) : Prop :=
  1 ≤ d.year ∧ d.year ≤ 9999 ∧ 1 ≤ d.month ∧ d.month ≤ 12 ∧ 1 ≤ d.day ∧
    d.day ≤ daysIn d.year d.month

instance (d : Date) : Decidable d.Valid := by
  unfold Valid
  infer_instance

def fields (d : Date) : List Nat :=
  [d.year, d.month, d.day]

end Date

structure Clock where
  hour : Nat
  minute : Nat
  second : Nat
  microsecond : Nat
  deriving DecidableEq, Repr

namespace Clock

def fields (c : Clock) : List Nat :=
  if c.microsecond ≠ 0 then [c.hour, c.minute, c.second, c.microsecond]
  else if c.second ≠ 0 then [c.hour, c.minute, c.second]
  else [c.hour, c.minute]

end Clock

inductive Moment where
  | date (date : Date)
  | time (clock : Clock)
  | dateTime (date : Date) (clock : Clock) (offset : Option Int)
  deriving DecidableEq, Repr

namespace Moment

def commaSeparated (ns : List Nat) : String :=
  ", ".intercalate (ns.map fun n : Nat => Decimal.text n)

-- A negative offset is shown as a day back and the seconds from there.
def offsetText (minutes : Int) : String :=
  if minutes = 0 then "datetime.timezone.utc"
  else
    let duration :=
      if 0 < minutes then "seconds=" ++ Decimal.text (minutes * 60)
      else "days=-1, seconds=" ++ Decimal.text (86400 + minutes * 60)
    "datetime.timezone(datetime.timedelta(" ++ duration ++ "))"

def kind : Moment → String
  | date _ => "datetime.date"
  | time _ => "datetime.time"
  | dateTime .. => "datetime.datetime"

def text (m : Moment) : String :=
  m.kind ++ "(" ++ arguments m ++ ")"
where
  arguments : Moment → String
    | date d => commaSeparated d.fields
    | time c => commaSeparated c.fields
    | dateTime d c none => commaSeparated (d.fields ++ c.fields)
    | dateTime d c (some z) => commaSeparated (d.fields ++ c.fields) ++ ", tzinfo=" ++ offsetText z

end Moment
end Intcode
