import SimplyTyped.Number.Shortest

/-!
# SimplyTyped.Number.Plain — numbers as text

The fewest digits that read back, positional from `0.0001` up to below `10 ^ 16` with at least one digit on either side
of the point, and otherwise one digit before the point and a signed exponent of at least two digits.
-/

namespace SimplyTyped.Binary64

/-- A sign and at least two digits. -/
def exponentText (e : Int) : String :=
  let digits := e.natAbs.repr
  (if e < 0 then "-" else "+") ++ (if digits.length < 2 then "0" ++ digits else digits)

def zeros (n : Nat) : String := String.ofList (List.replicate n '0')

/-- Digits with the point after the first `point` of them, which may lie outside. -/
def positional (digits : List Char) (point : Int) : String :=
  if point ≤ 0 then "0." ++ zeros (-point).toNat ++ String.ofList digits
  else if digits.length ≤ point.toNat then
    String.ofList digits ++ zeros (point.toNat - digits.length) ++ ".0"
  else String.ofList (digits.take point.toNat) ++ "." ++ String.ofList (digits.drop point.toNat)

/-- One digit before the point, and the exponent. -/
def scientific (digits : List Char) (point : Int) : String :=
  let fraction := digits.drop 1
  String.ofList (digits.take 1) ++ (if fraction.isEmpty then "" else "." ++ String.ofList fraction) ++ "e"
    ++ exponentText (point - 1)

/-- The text of `significand · 2 ^ exponent`. -/
def magnitudeText (significand : Nat) (exponent : Int) : String :=
  if significand = 0 then "0.0"
  else
    let (d, e) := shortest significand exponent
    let digits := d.repr.toList
    let point := (digits.length : Int) + e
    if -4 < point ∧ point ≤ 16 then positional digits point else scientific digits point

/-- The text of a number. -/
def text : Binary64 → String
  | nan => "NaN"
  | infinite negative => if negative then "-Infinity" else "Infinity"
  | finite negative significand exponent =>
    (if negative then "-" else "") ++ magnitudeText significand exponent

end SimplyTyped.Binary64
