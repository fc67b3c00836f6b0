/-!
Finite floating-point numbers of 64 bits as exact values, and the nearest one to a decimal number.
-/

namespace ModelHub

/-- The value `mantissa * 2 ^ exponent`. The mantissa has 53 bits, or fewer at the least exponent. -/
structure Double where
  negative : Bool
  mantissa : Nat
  exponent : Int
  deriving DecidableEq, Repr

namespace Double

def leastExponent : Int := -1074
def greatestExponent : Int := 971
def mantissaBits : Nat := 53

def sameValue (a b : Double) : Bool :=
  (a.mantissa = 0 && b.mantissa = 0)
    || (a.negative = b.negative && a.mantissa = b.mantissa && a.exponent = b.exponent)

/-- The quotient to the nearest whole number, a half to the even one. -/
def roundDiv (numerator denominator : Nat) : Nat :=
  let quotient := numerator / denominator
  let twice := 2 * (numerator % denominator)
  if twice < denominator then quotient
  else if denominator < twice then quotient + 1
  else if quotient % 2 = 0 then quotient else quotient + 1

def scaleDown (numerator denominator : Nat) (exponent : Int) : Nat × Nat :=
  (numerator <<< (-exponent).toNat, denominator <<< exponent.toNat)

/-- The exponent for which the mantissa of a positive fraction has 53 bits, or the least one. -/
def exponentOf (numerator denominator : Nat) : Int :=
  let guess : Int := Nat.log2 numerator - Nat.log2 denominator - mantissaBits
  let fits (exponent : Int) : Bool :=
    let (n, d) := scaleDown numerator denominator exponent
    n / d < 1 <<< mantissaBits
  max leastExponent (if fits guess then guess else if fits (guess + 1) then guess + 1 else guess + 2)

def ofFraction? (negative : Bool) (numerator denominator : Nat) : Option Double :=
  if numerator = 0 then some ⟨negative, 0, leastExponent⟩
  else
    let exponent := exponentOf numerator denominator
    let (n, d) := scaleDown numerator denominator exponent
    let mantissa := roundDiv n d
    let (mantissa, exponent) :=
      if mantissa = 1 <<< mantissaBits then (1 <<< (mantissaBits - 1), exponent + 1)
      else (mantissa, exponent)
    if greatestExponent < exponent then none else some ⟨negative, mantissa, exponent⟩

/-- The double nearest to `digits * 10 ^ exponent`, where the digits are given as a number and its
length. Exponents far out of range are settled by the length alone. -/
def ofDecimal? (negative : Bool) (digits length : Nat) (exponent : Int) : Option Double :=
  if digits = 0 || length + exponent < -400 then some ⟨negative, 0, leastExponent⟩
  else if 400 < exponent then none
  else ofFraction? negative (digits * Nat.pow 10 exponent.toNat)
    (Nat.pow 10 (-exponent).toNat)

end Double

end ModelHub
