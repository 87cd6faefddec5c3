import LicenseHeader.Number.Double

/-!
# Shortest decimals

The decimal with the fewest digits that is nearer to a double than to any other double, a half-way
point counting as near if the significand is even. Of several such decimals it is the one nearest to
the double, and of two that are equally near the one with the even last digit.
-/

namespace LicenseHeader.Number

/-- The number `digits * 10 ^ exponent`. -/
structure Decimal where
  digits : Nat
  /-- The place of the last digit. -/
  exponent : Int
deriving DecidableEq, Repr

namespace Decimal

def digitChars (d : Decimal) : List Char :=
  (toString d.digits).toList

/-- How many digits stand before the decimal point. -/
def pointPosition (d : Decimal) : Int :=
  d.digitChars.length + d.exponent

end Decimal

namespace Double

/-- Whether `digits * 10 ^ exponent` reads back as the number. Bounds and candidate are compared in
quarters of the last binary place; the number below a power of two is half as far away. -/
def isNear (d : Double) (exponent : Int) (digits : Nat) : Bool :=
  let scale := d.denominator * Nat.pow 10 exponent.toNat * 4
  let unit := Nat.pow 2 d.exponent.toNat * Nat.pow 10 (-exponent).toNat
  let low := (4 * d.significand - (if d.significand = leastSignificand then 1 else 2)) * unit
  let high := (4 * d.significand + 2) * unit
  let candidate := digits * scale
  if d.significand % 2 = 0 then low ≤ candidate && candidate ≤ high
  else low < candidate && candidate < high

/-- The decimal nearest to the number among those with the last place `exponent`, if it or its other
neighbour on that grid reads back. -/
def onGrid? (d : Double) (exponent : Int) : Option Decimal :=
  let num := d.numerator * Nat.pow 10 (-exponent).toNat
  let den := d.denominator * Nat.pow 10 exponent.toNat
  let below := num / den
  match d.isNear exponent below, d.isNear exponent (below + 1) with
  | true, true => some ⟨roundQuotient num den, exponent⟩
  | true, false => some ⟨below, exponent⟩
  | false, true => some ⟨below + 1, exponent⟩
  | false, false => none

/-- A decimal place above the first digit of the number. -/
def topPlace (d : Double) : Int :=
  ((toString d.numerator).length : Int) - (toString d.denominator).length + 1

/-- How many grids are looked at; 17 digits always read back. -/
def gridCount : Nat := 20

/-- The shortest decimal that reads back as the number. -/
def shortest (d : Double) : Decimal :=
  ((List.range gridCount).findSome? fun (i : Nat) => d.onGrid? (d.topPlace - i)).getD ⟨0, 0⟩

end Double

end LicenseHeader.Number
