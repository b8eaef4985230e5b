import SimplyTyped.Number.Binary64

/-!
# SimplyTyped.Number.Shortest — the fewest decimal digits that read back

Every decimal in an interval around a binary number reads back as that number.  `shortest` takes the coarsest decimal
grid with a point in the interval and on it the point nearest to the number, a tie to the even one.
-/

namespace SimplyTyped

namespace Binary64

/-- The interval that rounds to a number, and the number inside it, all in quarters of the last binary place. -/
structure Neighbourhood where
  low : Nat
  centre : Nat
  high : Nat
  /-- Whether the ends belong to it. -/
  closed : Bool

/-- The interval of `significand · 2 ^ exponent`.  The gap below the least full significand is half the usual one, and
a tie goes to the even significand. -/
def neighbourhood (significand : Nat) (exponent : Int) : Neighbourhood :=
  let half := if significand = fullSignificand ∧ minExponent < exponent then 1 else 2
  ⟨4 * significand - half, 4 * significand, 4 * significand + 2, significand % 2 = 0⟩

/-- `x · 10 ^ place` compared with quarters of the binary place: both sides as whole numbers. -/
structure Grid where
  /-- What one step of the decimal grid weighs. -/
  decimal : Nat
  /-- What a quarter of the binary place weighs. -/
  quarter : Nat

/-- The weights of the grid of `10 ^ place` beside quarters of `2 ^ exponent`. -/
def grid (exponent place : Int) : Grid :=
  ⟨Nat.pow 10 place.toNat * Nat.pow 2 (2 - exponent).toNat,
    Nat.pow 10 (-place).toNat * Nat.pow 2 (exponent - 2).toNat⟩

/-- Whether a point of the grid reads back. -/
def reads (n : Neighbourhood) (g : Grid) (point : Nat) : Bool :=
  let x := point * g.decimal
  if n.closed then n.low * g.quarter ≤ x && x ≤ n.high * g.quarter
  else n.low * g.quarter < x && x < n.high * g.quarter

/-- The nearest point of the grid that reads back. -/
def pointOn? (n : Neighbourhood) (g : Grid) : Option Nat :=
  let v := n.centre * g.quarter
  let p := v / g.decimal
  let below := reads n g p
  let above := reads n g (p + 1)
  if below && above then
    let down := v - p * g.decimal
    let up := (p + 1) * g.decimal - v
    some (if down < up then p else if up < down then p + 1 else p + p % 2)
  else if below then some p
  else if above then some (p + 1)
  else none

/-- The first hit on grids that get finer from `place` on. -/
def search (n : Neighbourhood) (exponent : Int) : (fuel : Nat) → (place : Int) → Nat × Int
  | 0, place => (0, place)
  | fuel + 1, place =>
    match pointOn? n (grid exponent place) with
    | some p => (p, place)
    | none => search n exponent fuel (place - 1)

/-- The shortest decimal `(d, e)`, standing for `d · 10 ^ e`, that reads back as a finite nonzero number. -/
def shortest (significand : Nat) (exponent : Int) : Nat × Int :=
  let bits : Int := (significand.log2 : Int) + 1 + exponent
  search (neighbourhood significand exponent) exponent 32 (bits * 30103 / 100000 + 1)

end Binary64

end SimplyTyped
