/-! Fractions rounded to the nearest float, ties to the even neighbour. The significand is
found in exact arithmetic, so no digit of a long decimal is lost. -/
namespace Intake.Decimal

/- Quotient to the nearest integer, a half going to the even one. -/
def roundQuotient (num den : Nat) : Nat :=
  let quotient := num / den
  let rest := num % den
  if den < 2 * rest ∨ (den = 2 * rest ∧ quotient % 2 = 1) then quotient + 1 else quotient

/- The exponent of the last place that a float of this size has. -/
def lastPlace (num den : Nat) : Int :=
  let estimate : Int := (num.log2 : Int) - den.log2
  let exact := if 0 ≤ estimate then decide (den <<< estimate.toNat ≤ num)
    else decide (den ≤ num <<< (-estimate).toNat)
  max ((if exact then estimate else estimate - 1) - 52) (-1074)

/- The float of so many units of its last place, infinity beyond the largest. Counted from the least
place there is, place and units make up the bits, and units that fill the next place carry over. -/
def ofUnits (units : Nat) (place : Int) : Float :=
  Float.ofBits (min ((place + 1074).toNat <<< 52 + units) (2047 <<< 52)).toUInt64

def nearest (num den : Nat) : Float :=
  if num = 0 then 0.0
  else
    let place := lastPlace num den
    let significand := if 0 ≤ place then roundQuotient num (den <<< place.toNat)
      else roundQuotient (num <<< (-place).toNat) den
    ofUnits significand place

/- A power of ten beyond 400 overflows whatever it multiplies; ten is more than two to the
third, so a small enough negative one leaves nothing of a significand of so many bits. -/
def scaled (significand : Nat) (exponent : Int) : Float :=
  if significand = 0 then 0.0
  else if 400 < exponent then 1.0 / 0.0
  else if 0 ≤ exponent then nearest (significand * Nat.pow 10 exponent.toNat) 1
  else if significand.log2 + 1 + 3 * exponent < -1100 then 0.0
  else nearest significand (Nat.pow 10 (-exponent).toNat)

end Intake.Decimal
