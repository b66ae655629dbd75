namespace Intcode.Decimal

-- The number of digits that an integer's text may have.
def limit : Nat := 4300

inductive Overlong where
  | reading (digits : Nat)
  | writing
  deriving DecidableEq, Repr

def digits (n : Nat) : List Char :=
  Nat.toDigits 10 n

def value (ds : List Char) : Nat :=
  Nat.ofDigitChars 10 ds 0

theorem value_digits (n : Nat) : value (digits n) = n :=
  Nat.ofDigitChars_toDigits (by decide) (by decide)

theorem isDigit_of_mem_digits {n : Nat} {c : Char} (h : c ∈ digits n) : c.isDigit = true :=
  Nat.isDigit_of_mem_toDigits (by decide) (by decide) h

theorem digits_ne_nil (n : Nat) : digits n ≠ [] := by
  intro h
  have := Nat.length_toDigits_pos (b := 10) (n := n)
  simp_all [digits]

def powerOfTen (k : Nat) : Nat :=
  Nat.pow 10 k

def chars (n : Int) : List Char :=
  if n < 0 then '-' :: digits n.natAbs else digits n.natAbs

def text (n : Int) : String :=
  String.ofList (chars n)

def Writable (n : Int) : Prop :=
  (digits n.natAbs).length ≤ limit

instance (n : Int) : Decidable (Writable n) :=
  inferInstanceAs (Decidable (_ ≤ _))

theorem writable_iff_lt (n : Int) : Writable n ↔ n.natAbs < powerOfTen limit := by
  rw [Writable, digits, Nat.length_toDigits_le_iff (by decide) (by decide), powerOfTen, Nat.pow_eq]

def write (n : Int) : Except Overlong String :=
  if Writable n then .ok (text n) else .error .writing

theorem write_of_writable {n : Int} (h : Writable n) : write n = .ok (text n) :=
  if_pos h

theorem write_eq_error_iff {n : Int} {e : Overlong} :
    write n = .error e ↔ ¬Writable n ∧ e = .writing := by
  unfold write
  split <;> simp_all [eq_comm]

inductive Sign where
  | plus
  | minus
  deriving DecidableEq, Repr

def Sign.apply : Sign → Nat → Int
  | plus, n => n
  | minus, n => -n

-- The integer that a sign and digits stand for; all digits count, leading zeros too.
def read (sign : Sign) (ds : List Char) : Except Overlong Int :=
  if ds.length ≤ limit then .ok (sign.apply (value ds)) else .error (.reading ds.length)

theorem read_of_length_le {ds : List Char} (sign : Sign) (h : ds.length ≤ limit) :
    read sign ds = .ok (sign.apply (value ds)) :=
  if_pos h

theorem read_of_limit_lt {ds : List Char} (sign : Sign) (h : limit < ds.length) :
    read sign ds = .error (.reading ds.length) :=
  if_neg (Nat.not_le.mpr h)

namespace Overlong

def message : Overlong → String
  | reading n => refusal ++ ": value has " ++ text n ++ " digits" ++ advice
  | writing => refusal ++ advice
where
  refusal := "Exceeds the limit (" ++ text limit ++ " digits) for integer string conversion"
  advice := "; use sys.set_int_max_str_digits() to increase the limit"

end Overlong
end Intcode.Decimal
