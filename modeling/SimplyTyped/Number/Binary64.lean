/-!
# SimplyTyped.Number.Binary64 — the nearest binary fraction of a decimal one

A finite `Binary64` is `±significand · 2 ^ exponent` in lowest form for the format: the significand has 53 bits, or
fewer when the exponent is the least one.  `Binary64.ofDecimal` rounds to the nearest, a tie to the even significand.
-/

namespace SimplyTyped

/-- A number of the 64-bit binary interchange format. -/
inductive Binary64 where
  | nan
  | infinite (negative : Bool)
  | finite (negative : Bool) (significand : Nat) (exponent : Int)
  deriving DecidableEq

namespace Binary64

/-- The least exponent of the format. -/
def minExponent : Int := -1074

/-- The greatest exponent of the format. -/
def maxExponent : Int := 971

/-- The least significand of a number above the least exponent: `2 ^ 52`. -/
def fullSignificand : Nat := 4503599627370496

/-- The quotient rounded to the nearest, a tie to the even neighbour. -/
def roundDiv (num den : Nat) : Nat :=
  let q := num / den
  let r := 2 * (num % den)
  if r < den then q else if den < r then q + 1 else q + q % 2

/-- The power of two with a quotient `num / (den · 2 ^ e)` from `2 ^ 52` up to `2 ^ 53`, kept within the format. -/
def exponentFor (num den : Nat) : Int :=
  let guess : Int := (num.log2 : Int) - (den.log2 : Int) - 52
  let below : Bool :=
    if 0 ≤ guess then decide (num < den * Nat.pow 2 (guess.toNat + 52))
    else decide (num * Nat.pow 2 (-guess).toNat < den * fullSignificand)
  let e := if below then guess - 1 else guess
  if e < minExponent then minExponent else e

/-- The nearest number to `num / den`. -/
def ofRatio (negative : Bool) (num den : Nat) : Binary64 :=
  if num = 0 then finite negative 0 minExponent
  else
    let e := exponentFor num den
    let m := if 0 ≤ e then roundDiv num (den * Nat.pow 2 e.toNat) else roundDiv (num * Nat.pow 2 (-e).toNat) den
    let (m, e) := if m = 2 * fullSignificand then (fullSignificand, e + 1) else (m, e)
    if maxExponent < e then infinite negative else finite negative m e

/-- The nearest number to `digits · 10 ^ exponent`.  A scale far outside the format is settled by the count of digits
alone. -/
def ofDecimal (negative : Bool) (digits : Nat) (exponent : Int) : Binary64 :=
  let scale : Int := (digits.log2 : Int) * 30103 / 100000 + exponent
  if digits = 0 then finite negative 0 minExponent
  else if 400 < scale then infinite negative
  else if scale < -400 then finite negative 0 minExponent
  else if 0 ≤ exponent then ofRatio negative (digits * Nat.pow 10 exponent.toNat) 1
  else ofRatio negative digits (Nat.pow 10 (-exponent).toNat)

end Binary64

end SimplyTyped
