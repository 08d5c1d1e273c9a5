/-!
# Decimal numerals of a fixed width

A numeral is an optional sign, `+` or `-`, and one or more ASCII digits; it denotes an integer of
`bits` bits in two's complement. Digits are taken left to right and the first fault wins: a
character that is no digit is noticed before the digits read so far overflow with it, and an
overflow as soon as the value leaves the range.

| text | 32 bits |
| --- | --- |
| empty | `empty` |
| `+`, `-`, `1x`, `٣` | `invalidDigit` |
| `2147483648`, `99999999999x` | `tooLarge` |
| `-2147483649` | `tooSmall` |
| `-0`, `+007` | `0`, `7` |
-/

namespace Chronicle
namespace Numeral

/-- Why a text is no numeral. -/
inductive Fault
  | empty
  | invalidDigit
  | tooLarge
  | tooSmall
deriving DecidableEq, Repr

/-- The wording of a fault. -/
def Fault.message : Fault → String
  | .empty => "cannot parse integer from empty string"
  | .invalidDigit => "invalid digit found in string"
  | .tooLarge => "number too large to fit in target type"
  | .tooSmall => "number too small to fit in target type"

/-- The value of an ASCII digit. -/
def digit? (c : Char) : Option Nat :=
  if '0' ≤ c ∧ c ≤ '9' then some (c.toNat - '0'.toNat) else none

/-- The value of a hexadecimal digit. -/
def hexDigit? (c : Char) : Option Nat :=
  if '0' ≤ c ∧ c ≤ '9' then some (c.toNat - '0'.toNat)
  else if 'a' ≤ c ∧ c ≤ 'f' then some (c.toNat - 'a'.toNat + 10)
  else if 'A' ≤ c ∧ c ≤ 'F' then some (c.toNat - 'A'.toNat + 10)
  else none

/-- The value of a run of digits that follows digits worth `value`, as long as it does not pass
`limit`. -/
def magnitude (limit : Nat) (overflow : Fault) : (value : Nat) → List Char → Except Fault Nat
  | value, [] => .ok value
  | value, c :: rest =>
    match digit? c with
    | none => .error .invalidDigit
    | some d =>
      if value * 10 + d ≤ limit then magnitude limit overflow (value * 10 + d) rest
      else .error overflow

/-- The integer that a numeral of `bits` bits denotes. The negative numbers reach one further than
the positive ones. -/
def read (bits : Nat) : List Char → Except Fault Int
  | [] => .error .empty
  | ['+'] => .error .invalidDigit
  | ['-'] => .error .invalidDigit
  | '+' :: digits => (magnitude (Nat.pow 2 (bits - 1) - 1) .tooLarge 0 digits).map fun n => (n : Int)
  | '-' :: digits => (magnitude (Nat.pow 2 (bits - 1)) .tooSmall 0 digits).map fun n => -(n : Int)
  | digits => (magnitude (Nat.pow 2 (bits - 1) - 1) .tooLarge 0 digits).map fun n => (n : Int)

end Numeral
end Chronicle
