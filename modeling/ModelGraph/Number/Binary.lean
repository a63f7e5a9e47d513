import ModelGraph.Number.Word

/-!
# Binary floating-point formats

A format is given by the widths of its exponent and fraction. `BinaryFormat.decode` reads a bit
pattern as an exact number `significand * 2 ^ exponent`, and `floatOfRatio` goes the other way: it
rounds an exact quotient to the nearest double, ties to the even neighbour.

Doubles are rounded to integers as the exact numbers they are. `remainder` is exact: it is what is left
of the dividend after taking away as many whole divisors as fit.
-/

namespace ModelGraph

/-- The widths of the two fields below the sign bit. -/
structure BinaryFormat where
  exponentBits : Nat
  fractionBits : Nat
  deriving DecidableEq, Repr

namespace BinaryFormat

def half : BinaryFormat := ⟨5, 10⟩
def single : BinaryFormat := ⟨8, 23⟩
def double : BinaryFormat := ⟨11, 52⟩

/-- The exponent of the last place of the subnormal numbers. -/
def minExponent (f : BinaryFormat) : Int :=
  2 - (twoPow (f.exponentBits - 1) : Nat) - f.fractionBits

end BinaryFormat

/-- What a bit pattern stands for. -/
inductive BinaryNumber where
  | nan
  | infinite (negative : Bool)
  | finite (negative : Bool) (significand : Nat) (exponent : Int)
  deriving DecidableEq, Repr

namespace BinaryFormat

/-- The number that the low `1 + exponentBits + fractionBits` bits stand for. -/
def decode (f : BinaryFormat) (bits : Nat) : BinaryNumber :=
  let fraction := bits % twoPow f.fractionBits
  let biased := bits / twoPow f.fractionBits % twoPow f.exponentBits
  let negative := bits / twoPow (f.fractionBits + f.exponentBits) % 2 == 1
  if biased = twoPow f.exponentBits - 1 then
    if fraction = 0 then .infinite negative else .nan
  else if biased = 0 then .finite negative fraction f.minExponent
  else .finite negative (twoPow f.fractionBits + fraction) (f.minExponent + (biased - 1 : Nat))

end BinaryFormat

/-- The bits of a double with the given sign and magnitude bits. -/
def signedDouble (negative : Bool) (magnitude : Nat) : Float :=
  Float.ofBits (UInt64.ofNat (if negative then 0x8000000000000000 + magnitude else magnitude))

def floatInfinity (negative : Bool) : Float := signedDouble negative 0x7ff0000000000000

def floatNaN : Float := Float.ofBits 0x7ff8000000000000

/-- The double nearest to `± numerator / denominator`, the even one of two equally near. Magnitudes
past the largest double become infinite. -/
def floatOfRatio (negative : Bool) (numerator denominator : Nat) : Float :=
  if numerator = 0 ∨ denominator = 0 then signedDouble negative 0
  else
    let scale (q : Int) : Nat × Nat :=
      if 0 ≤ q then (numerator, denominator * twoPow q.toNat)
      else (numerator * twoPow (-q).toNat, denominator)
    let near : Int := (numerator.log2 : Int) - denominator.log2 - 53
    let atNear := scale near
    let fitting := if atNear.1 / atNear.2 < 0x20000000000000 then near else near + 1
    let q := max fitting (-1074)
    let (n, d) := scale q
    let down := n / d
    let rest := 2 * (n % d)
    let significand := if rest > d ∨ (rest = d ∧ down % 2 = 1) then down + 1 else down
    let magnitude := (q + 1074).toNat * 0x10000000000000 + significand
    if magnitude < 0x7ff0000000000000 then signedDouble negative magnitude else floatInfinity negative

/-- Every number of a narrower format is a double. -/
def BinaryNumber.toFloat : BinaryNumber → Float
  | .nan => floatNaN
  | .infinite negative => floatInfinity negative
  | .finite negative significand exponent =>
    if 0 ≤ exponent then floatOfRatio negative (significand * twoPow exponent.toNat) 1
    else floatOfRatio negative significand (twoPow (-exponent).toNat)

/-- The exact reading of a double. -/
def binaryOfFloat (x : Float) : BinaryNumber := BinaryFormat.double.decode x.toBits.toNat

/-- The integer that a finite double without fractional part stands for. -/
def integerOfFloat? (x : Float) : Option Int :=
  match binaryOfFloat x with
  | .finite negative significand exponent =>
    let magnitude : Option Nat :=
      if 0 ≤ exponent then some (significand * twoPow exponent.toNat)
      else
        let unit := twoPow (-exponent).toNat
        if significand % unit = 0 then some (significand / unit) else none
    magnitude.map fun m => if negative then -(m : Int) else m
  | _ => none

/-- The double nearest to an integer. -/
def floatOfInt (i : Int) : Float := floatOfRatio (i < 0) i.natAbs 1

/-- A finite double cut to an integer toward zero. -/
def truncateFloat? (x : Float) : Option Int :=
  match binaryOfFloat x with
  | .finite negative significand exponent =>
    let magnitude : Nat :=
      if 0 ≤ exponent then significand * twoPow exponent.toNat
      else significand / twoPow (-exponent).toNat
    some (if negative then -(magnitude : Int) else magnitude)
  | _ => none

/-- The signed word nearest to a double cut toward zero; nothing for infinities and not-a-number. -/
def wordOfFloat? (x : Float) : Option Int64 := (truncateFloat? x).map clampInt64

/-- The double nearest to a signed word. -/
def floatOfWord (i : Int64) : Float := floatOfInt i.toInt

/-- The largest integral double that is not above `x`. Integral doubles, zeros of both signs,
infinities and not-a-number are their own floors. -/
def floorFloat (x : Float) : Float :=
  match integerOfFloat? x, truncateFloat? x with
  | none, some i => floatOfInt (if x < 0 then i - 1 else i)
  | _, _ => x

/-- What is left of `x` after whole multiples of `y`, with the sign of `x`. -/
def remainderFloat (x y : Float) : Float :=
  match binaryOfFloat x, binaryOfFloat y with
  | .finite negative m e, .finite _ n f =>
    let unit := min e f
    let rest := m * twoPow (e - unit).toNat % (n * twoPow (f - unit).toNat)
    if n = 0 then floatNaN else BinaryNumber.toFloat (.finite negative rest unit)
  | .finite .., .infinite _ => x
  | _, _ => floatNaN

/-- What is left of `x` after `y` times the floor of their quotient, with the sign of `y`. -/
def floorRemainderFloat (x y : Float) : Float :=
  let rest := remainderFloat x y
  if rest != 0 && decide (rest < 0) != decide (y < 0) then rest + y else rest

end ModelGraph
