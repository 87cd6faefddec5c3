/-!
# Doubles

Nonnegative numbers with 53 significant binary digits. An operation gives the nearest such number to
the exact result; of two that are equally near, the one with the even significand.
-/

namespace LicenseHeader.Number

/-- The natural number nearest to `num / den`; a half goes to the even neighbour. -/
def roundQuotient (num den : Nat) : Nat :=
  let quotient := num / den
  let rest := num % den
  if 2 * rest < den then quotient
  else if den < 2 * rest then quotient + 1
  else quotient + quotient % 2

/-- The number `significand * 2 ^ exponent`. Unless it is zero, the significand has 53 binary
digits. -/
structure Double where
  significand : Nat
  /-- The place of the last digit. -/
  exponent : Int
deriving DecidableEq, Repr

namespace Double

def numerator (d : Double) : Nat :=
  d.significand * Nat.pow 2 d.exponent.toNat

def denominator (d : Double) : Nat :=
  Nat.pow 2 (-d.exponent).toNat

/-- The least significand of a number that is not zero. -/
def leastSignificand : Nat := Nat.pow 2 52

/-- The exponent of the number nearest to `num / den`. -/
def exponentOf (num den : Nat) : Int :=
  let guess : Int := (num.log2 : Int) - den.log2 - 52
  if num * Nat.pow 2 (-guess).toNat < leastSignificand * (den * Nat.pow 2 guess.toNat) then
    guess - 1
  else guess

def nearest (num den : Nat) : Double :=
  if num = 0 then ⟨0, 0⟩
  else
    let exponent := exponentOf num den
    let significand :=
      roundQuotient (num * Nat.pow 2 (-exponent).toNat) (den * Nat.pow 2 exponent.toNat)
    if significand = 2 * leastSignificand then ⟨leastSignificand, exponent + 1⟩
    else ⟨significand, exponent⟩

def add (a b : Double) : Double :=
  nearest (a.numerator * b.denominator + b.numerator * a.denominator)
    (a.denominator * b.denominator)

/-- The number with two decimal places, rounded from the exact value. -/
def twoPlaces (d : Double) : String :=
  let hundredths := roundQuotient (d.numerator * 100) d.denominator
  let rest := hundredths % 100
  s!"{hundredths / 100}.{rest / 10}{rest % 10}"

end Double

end LicenseHeader.Number
