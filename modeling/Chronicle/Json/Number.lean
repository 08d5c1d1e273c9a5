import Chronicle.Json.Basic

/-!
# JSON numbers

A number is `whole`, `.` and `fraction`, `e` and an exponent, the last two optional. Written without
them it is an integer when it fits 64 bits, unsigned, or signed below zero; `-0` is no integer.
All else is a decimal, which is only asked whether a double can hold its magnitude.

The magnitude is taken as `significand * 10 ^ exponent`, the significand being the leading digits
that fit 64 bits. Both factors are rounded to a double, and the product is beyond the largest
double when it would round to `2 ^ 1024`.
-/

namespace Chronicle
namespace Json

/-- The value of a list of digits that follows digits worth `value`. -/
def digitsValue (value : Nat) (digits : List Char) : Nat :=
  digits.foldl (fun n c => n * 10 + (c.toNat - '0'.toNat)) value

/-- The double nearest to a natural number, a tie going to the even neighbour. -/
def nearestDouble (n : Nat) : Nat :=
  if n < Nat.pow 2 53 then n
  else
    let step := Nat.pow 2 (n.log2 - 52)
    let quotient := n / step
    let remainder := 2 * (n % step)
    if step < remainder ∨ (remainder = step ∧ quotient % 2 = 1) then (quotient + 1) * step
    else quotient * step

/-- `significand * 10 ^ exponent` is within the range of doubles. -/
def withinDoubles (significand : Nat) (exponent : Int) : Bool :=
  if significand = 0 ∨ exponent < 0 then true
  else if 308 < exponent then false
  else decide (nearestDouble significand * nearestDouble (Nat.pow 10 exponent.toNat)
    < Nat.pow 2 1024 - Nat.pow 2 970)

/-- The leading digits that fit 64 bits, as a value that follows `value`, and the digits left
over. -/
def leading64 : (value : Nat) → List Char → Nat × List Char
  | value, [] => (value, [])
  | value, c :: rest =>
    let next := value * 10 + (c.toNat - '0'.toNat)
    if next < Nat.pow 2 64 then leading64 next rest else (value, c :: rest)

/-- The significand of a decimal and the power of ten that goes with it. -/
def magnitude (whole fraction : List Char) (exponent : Int) : Nat × Int :=
  match leading64 0 whole with
  | (significand, []) =>
    let (significand, rest) := leading64 significand fraction
    (significand, exponent - (fraction.length - rest.length : Nat))
  | (significand, rest) => (significand, exponent + rest.length)

/-- The magnitude of a decimal is within the range of doubles. -/
def decimalInRange (whole fraction : List Char) (exponent : Int) : Bool :=
  let (significand, exponent) := magnitude whole fraction exponent
  withinDoubles significand exponent

/-- The number with the given sign and parts; a missing part is `none`. -/
def ofParts (negative : Bool) (whole : List Char) (fraction : Option (List Char))
    (exponent : Option Int) (text : String) : Json :=
  let n : Nat := digitsValue 0 whole
  match fraction, exponent, negative with
  | none, none, false => if n < Nat.pow 2 64 then .int n else decimal
  | none, none, true => if 0 < n ∧ n ≤ Nat.pow 2 63 then .int (-n) else decimal
  | _, _, _ => decimal
where
  /-- The number taken as a decimal. -/
  decimal : Json :=
    if decimalInRange whole (fraction.getD []) (exponent.getD 0) then .decimal text else .void

end Json
end Chronicle
