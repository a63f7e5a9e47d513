import ModelGraph.Toml.Basic

/-!
# Scalars in TOML

Numbers, truth values, dates and times of day are written without quotes. Digits of numbers may be
grouped by underscores.
-/

namespace ModelGraph.Toml

/-- Removes underscores, each of which has to stand between digits. -/
def ungroup? (afterDigit : Bool) : List Char → Option (List Char)
  | [] => if afterDigit then some [] else none
  | '_' :: rest => if afterDigit then ungroup? false rest else none
  | c :: rest => (ungroup? true rest).map (c :: ·)

/-- Digits to a base, perhaps in groups. -/
def digitRun? (base : Nat) (cs : List Char) : Option (List Char) :=
  (ungroup? false cs).filter (·.all fun c => (digitValue? base c).isSome)

/-- Whether decimal digits have no zero in front of others. -/
def isTight : List Char → Bool
  | '0' :: _ :: _ => false
  | _ => true

/-- A sign and what follows it. -/
def splitSign : List Char → Bool × List Char
  | '-' :: rest => (true, rest)
  | '+' :: rest => (false, rest)
  | cs => (false, cs)

/-- An integer: decimal with an optional sign, or to a base of two, eight or sixteen. -/
def integer? : List Char → Option Int64
  | '0' :: 'x' :: rest => ((digitRun? 16 rest).bind (digits? 16)).bind fun n => int64? n
  | '0' :: 'o' :: rest => ((digitRun? 8 rest).bind (digits? 8)).bind fun n => int64? n
  | '0' :: 'b' :: rest => ((digitRun? 2 rest).bind (digits? 2)).bind fun n => int64? n
  | cs => do
    let (negative, rest) := splitSign cs
    let n ← digits? 10 (← (digitRun? 10 rest).filter isTight)
    int64? (if negative then -(n : Int) else n)

/-- The digits of an exponent, with a sign. -/
def exponent? (cs : List Char) : Option Int := do
  let (negative, rest) := splitSign cs
  let n ← digits? 10 (← digitRun? 10 rest)
  return if negative then -(n : Int) else n

/-- A decimal fraction: digits with a fraction, an exponent or both. -/
def fraction? (negative : Bool) (cs : List Char) : Option Float := do
  let isPart (c : Char) : Bool := isDigit c || c == '_'
  let whole ← (digitRun? 10 (cs.takeWhile isPart)).filter isTight
  let (fraction, tail) ← match cs.dropWhile isPart with
    | '.' :: rest => do pure (← digitRun? 10 (rest.takeWhile isPart), rest.dropWhile isPart)
    | rest => pure ([], rest)
  let exponent ← match tail with
    | [] => if fraction.isEmpty then none else some 0
    | c :: rest => if c == 'e' || c == 'E' then exponent? rest else none
  return floatOfDecimal negative (← digits? 10 (whole ++ fraction)) (exponent - fraction.length)

/-- A float. One that is too large is refused. -/
def float? (cs : List Char) : Option Float :=
  let (negative, rest) := splitSign cs
  if rest = ['i', 'n', 'f'] then some (floatInfinity negative)
  else if rest = ['n', 'a', 'n'] then some floatNaN
  else (fraction? negative rest).filter fun x => x != floatInfinity false

/-- A number of exactly so many digits, within bounds. -/
def field? (width low high : Nat) (cs : List Char) : Option Nat :=
  if cs.length = width ∧ cs.all isDigit then
    (digits? 10 cs).filter fun n => decide (low ≤ n) && decide (n ≤ high)
  else none

/-- The days of a month, by the leap rule of the Gregorian calendar. -/
def daysOf (year month : Nat) : Nat :=
  if month = 2 then
    if year % 4 = 0 ∧ (year % 100 ≠ 0 ∨ year % 400 = 0) then 29 else 28
  else if month ∈ [4, 6, 9, 11] then 30
  else 31

def isDate : List Char → Bool
  | [y1, y2, y3, y4, '-', m1, m2, '-', d1, d2] =>
    match field? 4 0 9999 [y1, y2, y3, y4], field? 2 1 12 [m1, m2] with
    | some year, some month => (field? 2 1 (daysOf year month) [d1, d2]).isSome
    | _, _ => false
  | _ => false

/-- A time of day to the second, perhaps with a fraction. -/
def isTime : List Char → Bool
  | h1 :: h2 :: ':' :: m1 :: m2 :: ':' :: s1 :: s2 :: rest =>
    (field? 2 0 23 [h1, h2]).isSome && (field? 2 0 59 [m1, m2]).isSome &&
      (field? 2 0 60 [s1, s2]).isSome &&
      match rest with
      | [] => true
      | '.' :: digits => !digits.isEmpty && digits.all isDigit
      | _ => false
  | _ => false

/-- The distance from universal time. -/
def isOffset : List Char → Bool
  | [] | ['Z'] | ['z'] => true
  | [sign, h1, h2, ':', m1, m2] =>
    (sign == '+' || sign == '-') && (field? 2 0 23 [h1, h2]).isSome &&
      (field? 2 0 59 [m1, m2]).isSome
  | _ => false

/-- A date, a time of day, or both, then perhaps with an offset. -/
def isMoment (cs : List Char) : Bool :=
  isDate cs || isTime cs ||
    isDate (cs.take 10) &&
      match cs.drop 10 with
      | c :: rest =>
        let isClock (c : Char) : Bool := isDigit c || c == ':' || c == '.'
        (c == 'T' || c == 't' || c == ' ') && isTime (rest.takeWhile isClock) &&
          isOffset (rest.dropWhile isClock)
      | [] => false

/-- Characters of scalars. -/
def isScalarChar (c : Char) : Bool :=
  c.isAlphanum || c == '+' || c == '-' || c == '_' || c == '.' || c == ':'

/-- The characters of a scalar and what follows. A blank between date and time is part of it. -/
def scalarSpan (cs : List Char) : List Char × List Char :=
  let (run, rest) := cs.span isScalarChar
  match rest with
  | ' ' :: c :: more =>
    if isDate run && isDigit c then
      let (time, rest) := (c :: more).span isScalarChar
      (run ++ ' ' :: time, rest)
    else (run, rest)
  | _ => (run, rest)

def scalar? (cs : List Char) : Option Value :=
  if cs = "true".toList then some (.bool true)
  else if cs = "false".toList then some (.bool false)
  else if isMoment cs then some (.moment (String.ofList cs))
  else ((integer? cs).map Value.int).or ((float? cs).map Value.float)

end ModelGraph.Toml
