import Chronicle.Json.Parser

/-!
# Doubles

A double is `m * 2 ^ q` with `m` below `2 ^ 53`. A decimal stands for the double that its magnitude
comes to: the significand rounded to a double, times or over the power of ten rounded to a double,
the result rounded again; a power beyond `10 ^ 308` is taken off in steps of that size.

A double is written with the fewest digits that read back, and of those with the ones nearest to it.
The digits read back when their value lies in the interval of the reals that round to the double;
its ends belong to it when `m` is even. The point stands among or before the digits when at most 16
digits are before it and at most 4 zeros behind it; otherwise the power of ten follows an `e`.
-/

namespace Chronicle

/-- A double that is not negative: `m * 2 ^ q`. -/
structure Double where
  m : Nat
  q : Int
deriving DecidableEq, Repr

namespace Double

/-- The least power of two. -/
def leastPower : Int := -1074

/-- A ratio times a power of two, rounded to a natural number, a tie going to the even one. -/
def scaled (n d : Nat) (power : Int) : Nat :=
  let n := n * Nat.pow 2 power.toNat
  let d := d * Nat.pow 2 (-power).toNat
  let quotient := n / d
  let twice := 2 * (n % d)
  if d < twice || (twice == d && quotient % 2 == 1) then quotient + 1 else quotient

/-- The double nearest to a ratio, a tie going to the even neighbour. -/
def nearest (n d : Nat) : Double :=
  let near : Int := n.log2 - d.log2 - 53
  let power :=
    if Nat.pow 2 53 * d * Nat.pow 2 near.toNat ≤ n * Nat.pow 2 (-near).toNat then near + 1 else near
  let q := max power leastPower
  let m := scaled n d (-q)
  if m = Nat.pow 2 53 then ⟨Nat.pow 2 52, q + 1⟩ else ⟨m, q⟩

/-- The double times a natural number. -/
def mulNat (v : Double) (n : Nat) : Double :=
  nearest (v.m * n * Nat.pow 2 v.q.toNat) (Nat.pow 2 (-v.q).toNat)

/-- The double over a natural number. -/
def divNat (v : Double) (n : Nat) : Double :=
  if v.m = 0 then v else nearest (v.m * Nat.pow 2 v.q.toNat) (n * Nat.pow 2 (-v.q).toNat)

/-- The double over a power of ten. -/
def divPower (v : Double) (power : Nat) : Double :=
  if power ≤ 308 || v.m == 0 then v.divNat (Json.nearestDouble (Nat.pow 10 (min power 308)))
  else (v.divNat (Json.nearestDouble (Nat.pow 10 308))).divPower (power - 308)
termination_by power
decreasing_by simp_all; omega

/-- The double that a significand and a power of ten come to. -/
def ofMagnitude (significand : Nat) (exponent : Int) : Double :=
  if significand = 0 then ⟨0, leastPower⟩
  else
    let v := nearest significand 1
    if exponent < 0 then v.divPower exponent.natAbs
    else v.mulNat (Json.nearestDouble (Nat.pow 10 exponent.toNat))

/-! ## The fewest digits -/

/-- More than the places behind the point of any double, counted in powers of ten. -/
def places : Nat := 400

/-- A multiple of a quarter of the last bit of a double, in a unit that all doubles and all decimals
with up to `places` places have in common. -/
def quarters (v : Double) (n : Nat) : Nat :=
  n * Nat.pow 2 (v.q - leastPower).toNat * Nat.pow 10 places

/-- A decimal in the same unit. -/
def ofDecimal (digits : Nat) (exponent : Int) : Nat :=
  digits * Nat.pow 10 (exponent + places).toNat * Nat.pow 2 1076

/-- A decimal lies among the reals that round to the double. -/
def readsBack (v : Double) (digits : Nat) (exponent : Int) : Bool :=
  let below := if v.m == Nat.pow 2 52 && leastPower < v.q then 1 else 2
  let low := v.quarters (4 * v.m - below)
  let high := v.quarters (4 * v.m + 2)
  let d := ofDecimal digits exponent
  if v.m % 2 = 0 then low ≤ d && d ≤ high else low < d && d < high

/-- The number of digits before the point, or less the number of zeros behind it. -/
def width (v : Double) : Int :=
  let whole := v.m * Nat.pow 2 v.q.toNat * Nat.pow 10 places / Nat.pow 2 (-v.q).toNat
  (Nat.toDigits 10 whole).length - places

/-- The nearest decimal of the given number of digits that reads back, if there is one, a tie going
to the even digits: the digits and their power of ten. -/
def decimal? (v : Double) (count : Nat) : Option (Nat × Int) :=
  let exponent : Int := v.width - count
  let value := v.quarters (4 * v.m)
  let digits := value / ofDecimal 1 exponent
  let middle := ofDecimal digits exponent + ofDecimal (digits + 1) exponent
  let isLower := 2 * value < middle || (2 * value == middle && digits % 2 == 0)
  match v.readsBack digits exponent, v.readsBack (digits + 1) exponent with
  | true, true => some (if isLower then digits else digits + 1, exponent)
  | true, false => some (digits, exponent)
  | false, true => some (digits + 1, exponent)
  | false, false => none

/-- The decimal of the fewest digits that reads back. A power of ten above the double is found with
one zero too many. -/
def shortest (v : Double) : Nat × Int :=
  let (digits, exponent) := ((List.range 17).findSome? fun n => v.decimal? (n + 1)).getD (0, 0)
  if digits % 10 = 0 then (digits / 10, exponent + 1) else (digits, exponent)

/-- A number of zeros. -/
def zeros (n : Nat) : String :=
  String.ofList (List.replicate n '0')

/-- A decimal as it is written: a digit and more digits times a power of ten. -/
def layOut (digits : List Char) (exponent : Int) : String :=
  let width : Int := digits.length + exponent
  let text := String.ofList digits
  if 0 ≤ exponent && width ≤ 16 then text ++ zeros exponent.toNat ++ ".0"
  else if 0 < width && width ≤ 16 then
    String.ofList (digits.take width.toNat) ++ "." ++ String.ofList (digits.drop width.toNat)
  else if -5 < width && width ≤ 0 then "0." ++ zeros width.natAbs ++ text
  else
    let rest := String.ofList (digits.drop 1)
    String.ofList (digits.take 1) ++ (if rest.isEmpty then "" else "." ++ rest) ++ "e" ++
      toString (width - 1)

/-- A double as it is written. -/
def render (v : Double) : String :=
  if v.m = 0 then "0.0"
  else
    let (digits, exponent) := v.shortest
    layOut (Nat.toDigits 10 digits) exponent

end Double

namespace Json

/-- A decimal of a document, as the double that it stands for is written. -/
def doubleText (text : String) : String :=
  let (sign, cs) : String × List Char :=
    match text.toList with
    | '-' :: rest => ("-", rest)
    | cs => ("", cs)
  let (whole, cs) := cs.span Char.isDigit
  let (fraction, cs) : List Char × List Char :=
    match cs with
    | '.' :: rest => rest.span Char.isDigit
    | cs => ([], cs)
  let power := ((exponent (cs.drop 1)).map Prod.fst).getD 0
  let (significand, power) := magnitude whole fraction power
  sign ++ (Double.ofMagnitude significand power).render

end Json
end Chronicle
