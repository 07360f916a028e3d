/-!
# Integer literals

A literal is an optional sign and digits. `0x` or `0X` in front of a hexadecimal digit marks base
sixteen, any other leading zero base eight, and all else is decimal. Literals of any length are
read. Their digits are added up in a signed 64-bit word that stays at its greatest value once it gets
there, and the value is then held within the range of a signed 32-bit integer.
-/

namespace Chiptune.Literal

def least : Int := -2147483648

def greatest : Int := 2147483647

/-- The value of a digit among the letters and digits of base sixteen. -/
def hexDigit? (c : Char) : Option Nat :=
  if '0' ≤ c ∧ c ≤ '9' then some (c.toNat - '0'.toNat)
  else if 'a' ≤ c ∧ c ≤ 'f' then some (c.toNat - 'a'.toNat + 10)
  else if 'A' ≤ c ∧ c ≤ 'F' then some (c.toNat - 'A'.toNat + 10)
  else none

/-- The value of a digit in a base of at most sixteen. -/
def digit? (radix : Nat) (c : Char) : Option Nat := (hexDigit? c).filter (· < radix)

/-- The number that a run of digits stands for, with `total` read so far. -/
def magnitudeFrom (radix total : Nat) : List Char → Option Nat
  | [] => some total
  | c :: rest =>
    match digit? radix c with
    | none => none
    | some value => magnitudeFrom radix (radix * total + value) rest

def magnitude? (radix : Nat) (digits : List Char) : Option Nat := magnitudeFrom radix 0 digits

/-- The word in which a run of digits is added up, with `total` read so far. The product and the sum
of each step are both held within 64 bits. -/
def accumulateFrom (radix : Nat) (total : Int64) : List Char → Option Int64
  | [] => some total
  | c :: rest =>
    match digit? radix c with
    | none => none
    | some value =>
      let product := Int64.ofIntClamp (total.toInt * radix)
      accumulateFrom radix (Int64.ofIntClamp (product.toInt + value)) rest

def accumulate? (radix : Nat) (digits : List Char) : Option Int64 := accumulateFrom radix 0 digits

/-- Whether a minus sign stands in front, and what follows the sign. -/
def splitSign : List Char → Bool × List Char
  | '-' :: body => (true, body)
  | '+' :: body => (false, body)
  | body => (false, body)

theorem splitSign_of_unsigned {c : Char} (hminus : c ≠ '-') (hplus : c ≠ '+') (rest : List Char) :
    splitSign (c :: rest) = (false, c :: rest) := by
  unfold splitSign
  split <;> simp_all

/-- The base of an unsigned literal and the digits to be read in it. -/
def splitRadix : List Char → Nat × List Char
  | '0' :: mark :: rest =>
    if (mark == 'x' || mark == 'X') && rest.head?.any (hexDigit? · |>.isSome) then (16, rest)
    else (8, mark :: rest)
  | body => (10, body)

theorem splitRadix_of_ne_zero {c : Char} (hzero : c ≠ '0') (rest : List Char) :
    splitRadix (c :: rest) = (10, c :: rest) := by
  unfold splitRadix
  split
  · simp_all
  · rfl

/-- Holds a value within the range of literals. -/
def clamp (value : Int) : Int := max least (min greatest value)

/-- The value of a literal; none if the characters are no literal as a whole. -/
def parse (token : List Char) : Option Int :=
  let (negative, body) := splitSign token
  let (radix, digits) := splitRadix body
  if digits.isEmpty then none
  else (accumulate? radix digits).map fun magnitude =>
    clamp (if negative then -magnitude else magnitude).toInt

end Chiptune.Literal
