import ModelGraph.Number.Binary

/-!
# Shortest decimal digits

The decimals that read back as a given binary number form an interval around it. `shortestDecimal`
finds the decimal with the fewest digits in that interval, and among those the one nearest to the
number. Both neighbours of the number on a decimal grid are tested in exact arithmetic; the coarsest
grid with a hit wins.
-/

namespace ModelGraph

/-- The number `digits * 10 ^ exponent`. -/
structure Decimal where
  digits : Nat
  exponent : Int
  deriving DecidableEq, Repr

/-- How a number halfway between two decimals is written. -/
inductive DecimalTie where
  | up
  | even
  deriving DecidableEq, Repr

namespace Decimal

/-- Cuts trailing zeros; `fuel` bounds their number. -/
def trim : (fuel : Nat) → Decimal → Decimal
  | 0, d => d
  | fuel + 1, d =>
    if d.digits ≠ 0 ∧ d.digits % 10 = 0 then trim fuel ⟨d.digits / 10, d.exponent + 1⟩ else d

/-- `10 ^ e` as a quotient. -/
def tenPower (e : Int) : Nat × Nat :=
  if 0 ≤ e then (tenPow e.toNat, 1) else (1, tenPow (-e).toNat)

end Decimal

/-- An interval of reals around a number, all over one positive denominator. -/
structure RoundingInterval where
  low : Nat
  value : Nat
  high : Nat
  denominator : Nat
  /-- Whether the ends belong to it. -/
  closed : Bool

namespace RoundingInterval

/-- The reals that round to `significand * 2 ^ exponent`. Below a power of two the numbers lie twice
as close, so there the lower end is nearer. -/
def around (significand : Nat) (exponent : Int) (closerBelow : Bool) : RoundingInterval :=
  let quarter := exponent - 2
  let unit := if 0 ≤ quarter then twoPow quarter.toNat else 1
  let denominator := if 0 ≤ quarter then 1 else twoPow (-quarter).toNat
  { low := (4 * significand - if closerBelow then 1 else 2) * unit
    value := 4 * significand * unit
    high := (4 * significand + 2) * unit
    denominator
    closed := significand % 2 = 0 }

/-- Whether `c * 10 ^ k` lies in the interval. -/
def holds (i : RoundingInterval) (c : Nat) (k : Int) : Bool :=
  let (n, d) := Decimal.tenPower k
  let point := c * n * i.denominator
  if i.closed then i.low * d ≤ point && point ≤ i.high * d
  else i.low * d < point && point < i.high * d

/-- The largest `c` for which `c * 10 ^ k` does not exceed the value. -/
def below (i : RoundingInterval) (k : Int) : Nat :=
  let (n, d) := Decimal.tenPower k
  i.value * d / (i.denominator * n)

/-- The smallest `e` from `start` on, within `fuel` steps, for which the value is below `10 ^ e`. -/
def magnitudeFrom (i : RoundingInterval) : (fuel : Nat) → (start : Int) → Int
  | 0, e => e
  | fuel + 1, e =>
    let (n, d) := Decimal.tenPower e
    if i.value * d < i.denominator * n then e else magnitudeFrom i fuel (e + 1)

/-- The number of decimal digits before the point, zero or negative for small values. -/
def magnitude (i : RoundingInterval) : Int :=
  let binary : Int := (i.value.log2 : Int) - i.denominator.log2
  i.magnitudeFrom 8 (binary * 30103 / 100000 - 2)

/-- The better neighbour of the value on the grid `10 ^ k`, if one lies in the interval. -/
def neighbour? (i : RoundingInterval) (tie : DecimalTie) (k : Int) : Option Decimal :=
  let c := i.below k
  match i.holds c k, i.holds (c + 1) k with
  | false, false => none
  | true, false => some ⟨c, k⟩
  | false, true => some ⟨c + 1, k⟩
  | true, true =>
    let (n, d) := Decimal.tenPower k
    let twice := 2 * i.value * d
    let middle := (2 * c + 1) * n * i.denominator
    let goesUp := twice > middle ||
      (twice == middle && match tie with
        | .up => true
        | .even => c % 2 == 1)
    some ⟨if goesUp then c + 1 else c, k⟩

/-- Tries ever finer grids, `fuel` of them. -/
def search (i : RoundingInterval) (tie : DecimalTie) : (fuel : Nat) → (k : Int) → Decimal
  | 0, k => ⟨i.below k, k⟩
  | fuel + 1, k => (i.neighbour? tie k).getD (search i tie fuel (k - 1))

end RoundingInterval

/-- The shortest decimal that reads back as the positive number `significand * 2 ^ exponent` of the
format, without trailing zeros. -/
def shortestDecimal (f : BinaryFormat) (tie : DecimalTie) (significand : Nat) (exponent : Int) :
    Decimal :=
  let closerBelow := significand = twoPow f.fractionBits ∧ f.minExponent < exponent
  let i := RoundingInterval.around significand exponent closerBelow
  (i.search tie 17 (i.magnitude - 1)).trim 400

end ModelGraph
