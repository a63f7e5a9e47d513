import ModelGraph.Number.Binary
import ModelGraph.Number.Word

/-!
# Numerals

Reads integers and decimal fractions from characters. A decimal numeral is an optional sign, digits
with at most one point among or around them, and an optional exponent; the words `inf`, `infinity`
and `nan` in any case are numerals too. Its value is the nearest double.
-/

namespace ModelGraph

/-- The value of a digit to a base of at most 36. -/
def digitValue? (base : Nat) (c : Char) : Option Nat :=
  let value : Option Nat :=
    if '0' ≤ c ∧ c ≤ '9' then some (c.toNat - '0'.toNat)
    else if 'a' ≤ c ∧ c ≤ 'z' then some (c.toNat - 'a'.toNat + 10)
    else if 'A' ≤ c ∧ c ≤ 'Z' then some (c.toNat - 'A'.toNat + 10)
    else none
  value.filter (· < base)

/-- The value of a run of digits that starts with the value `start`. -/
def digitsFrom? (base : Nat) (start : Nat) : List Char → Option Nat
  | [] => some start
  | c :: rest => (digitValue? base c).bind fun d => digitsFrom? base (start * base + d) rest

/-- The value of one or more digits. -/
def digits? (base : Nat) (cs : List Char) : Option Nat :=
  if cs.isEmpty then none else digitsFrom? base 0 cs

/-- A natural numeral with an optional plus sign. -/
def natNumeral? (base : Nat) : List Char → Option Nat
  | '+' :: rest => digits? base rest
  | cs => digits? base cs

/-- An integer numeral with an optional sign. -/
def intNumeral? (base : Nat) : List Char → Option Int
  | '-' :: rest => (digits? base rest).map fun n => -(n : Int)
  | cs => (natNumeral? base cs).map fun n => (n : Int)

/-- An integer numeral for a signed 64-bit word. -/
def int64Numeral? (base : Nat) (cs : List Char) : Option Int64 :=
  (intNumeral? base cs).bind int64?

/-- A natural numeral for a size. -/
def sizeNumeral? (cs : List Char) : Option Nat :=
  (natNumeral? 10 cs).bind checkedSize

/-- Whether a character is a decimal digit. -/
def isDigit (c : Char) : Bool := '0' ≤ c && c ≤ '9'

/-- The double nearest to `± digits * 10 ^ exponent`. Exponents far outside the range of doubles are
answered without computing the power. -/
def floatOfDecimal (negative : Bool) (digits : Nat) (exponent : Int) : Float :=
  let magnitude : Int := (toString digits).length + exponent
  if digits = 0 then floatOfRatio negative 0 1
  else if magnitude > 400 then floatInfinity negative
  else if magnitude < -400 then floatOfRatio negative 0 1
  else if 0 ≤ exponent then floatOfRatio negative (digits * tenPow exponent.toNat) 1
  else floatOfRatio negative digits (tenPow (-exponent).toNat)

/-- The exponent part of a numeral: nothing, or a letter, an optional sign and digits. -/
def exponentPart? : List Char → Option Int
  | [] => some 0
  | c :: rest => if c = 'e' ∨ c = 'E' then intNumeral? 10 rest else none

/-- A decimal numeral without sign. -/
def magnitude? (negative : Bool) (cs : List Char) : Option Float :=
  let whole := cs.takeWhile isDigit
  let afterWhole := cs.dropWhile isDigit
  let (fraction, tail) := match afterWhole with
    | '.' :: rest => (rest.takeWhile isDigit, rest.dropWhile isDigit)
    | rest => ([], rest)
  match digits? 10 (whole ++ fraction), exponentPart? tail with
  | some n, some e => some (floatOfDecimal negative n (e - fraction.length))
  | _, _ =>
    match (String.ofList cs).toLower with
    | "inf" | "infinity" => some (floatInfinity negative)
    | "nan" => some floatNaN
    | _ => none

/-- Reads a decimal numeral. -/
def floatNumeral? : List Char → Option Float
  | '-' :: rest => magnitude? true rest
  | '+' :: rest => magnitude? false rest
  | cs => magnitude? false cs

end ModelGraph
