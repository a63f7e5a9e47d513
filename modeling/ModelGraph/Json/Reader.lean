import ModelGraph.Json.Basic
import ModelGraph.Number.Numeral

/-!
# Reading JSON

A document is one value among blanks. Values nest at most `nestingLimit` deep. A number that is no
64-bit word becomes a double by one multiplication or division with a power of ten; its digits past
the twentieth are dropped.
-/

namespace ModelGraph.Json

/-- The depth at which arrays and objects are refused. -/
def nestingLimit : Nat := 128

namespace Reader

def isBlank (c : Char) : Bool := c == ' ' || c == '\n' || c == '\t' || c == '\r'

def skipBlanks (cs : List Char) : List Char := cs.dropWhile isBlank

/-- Extends a significand digit by digit while it fits 64 bits; also the number of digits used. -/
def gather (significand used : Nat) : List Char → Nat × Nat
  | [] => (significand, used)
  | c :: rest =>
    let next := significand * 10 + (c.toNat - '0'.toNat)
    if next < sizeLimit then gather next (used + 1) rest else (significand, used)

/-- The double `10 ^ n`. -/
def tenth (n : Nat) : Float := floatOfRatio false (tenPow n) 1

/-- Scales a significand by a power of ten. Nothing if the result is past the doubles. -/
def scale : (fuel : Nat) → (value : Float) → (exponent : Int) → Option Float
  | 0, value, _ => some value
  | fuel + 1, value, exponent =>
    if exponent.natAbs ≤ 308 then
      if 0 ≤ exponent then
        let scaled := value * tenth exponent.toNat
        if scaled.isInf then none else some scaled
      else some (value / tenth exponent.natAbs)
    else if value == 0 then some value
    else if 0 ≤ exponent then none
    else scale fuel (value / tenth 308) (exponent + 308)

/-- The double for a significand and a power of ten. -/
def floatOfParts (negative : Bool) (significand : Nat) (exponent : Int) : Option Json :=
  (scale 8 (floatOfRatio false significand 1) exponent).map fun x =>
    .float (if negative then -x else x)

/-- The digits of an exponent after its letter and sign: whether it is negative, the digits, the
rest. -/
def exponentDigits (cs : List Char) : Bool × List Char × List Char :=
  match cs with
  | '-' :: rest => (true, rest.takeWhile isDigit, rest.dropWhile isDigit)
  | '+' :: rest => (false, rest.takeWhile isDigit, rest.dropWhile isDigit)
  | rest => (false, rest.takeWhile isDigit, rest.dropWhile isDigit)

/-- The number whose significand is known and which may go on with an exponent. -/
def withExponent (negative : Bool) (significand : Nat) (exponent : Int) (cs : List Char) :
    Option (Json × List Char) :=
  match cs with
  | c :: rest =>
    if c = 'e' ∨ c = 'E' then
      let (down, digits, tail) := exponentDigits rest
      match digits? 10 digits with
      | none => none
      | some e =>
        if e < 0x80000000 then
          (floatOfParts negative significand (if down then exponent - e else exponent + e)).map
            (·, tail)
        else if significand ≠ 0 ∧ ¬ down then none
        else some (.float (floatOfRatio negative 0 1), tail)
    else (floatOfParts negative significand exponent).map (·, cs)
  | [] => (floatOfParts negative significand exponent).map (·, cs)

/-- The integer, or the double if it fits no 64-bit word or is a negative zero. -/
def wholeNumber (negative : Bool) (significand : Nat) : Json :=
  if ¬ negative then .int significand
  else if significand ≠ 0 ∧ significand ≤ 0x8000000000000000 then .int (-(significand : Int))
  else .float (floatOfRatio true significand 1)

/-- A number after its sign. -/
def number (negative : Bool) (cs : List Char) : Option (Json × List Char) :=
  let digits := cs.takeWhile isDigit
  let rest := cs.dropWhile isDigit
  if digits.isEmpty ∨ (digits.head? = some '0' ∧ digits.length ≠ 1) then none
  else
    let (significand, used) := gather 0 0 digits
    let dropped : Int := (digits.length - used : Nat)
    match rest with
    | '.' :: tail =>
      let fraction := tail.takeWhile isDigit
      if fraction.isEmpty then none
      else
        let (significand, used) := gather significand 0 fraction
        withExponent negative significand (dropped - used) (tail.dropWhile isDigit)
    | c :: _ =>
      if dropped = 0 ∧ c ≠ 'e' ∧ c ≠ 'E' then some (wholeNumber negative significand, rest)
      else withExponent negative significand dropped rest
    | [] =>
      if dropped = 0 then some (wholeNumber negative significand, rest)
      else withExponent negative significand dropped rest

/-- Four hexadecimal digits. -/
def codeUnit : List Char → Option (Nat × List Char)
  | a :: b :: c :: d :: rest => (digits? 16 [a, b, c, d]).map (·, rest)
  | _ => none

/-- The code point of an escape; a high surrogate takes the low one after it. -/
def unicodeEscape (cs : List Char) : Option (Char × List Char) :=
  match codeUnit cs with
  | none => none
  | some (first, rest) =>
    if 0xDC00 ≤ first ∧ first ≤ 0xDFFF then none
    else if 0xD800 ≤ first ∧ first ≤ 0xDBFF then
      match rest with
      | '\\' :: 'u' :: tail =>
        match codeUnit tail with
        | some (second, tail) =>
          if 0xDC00 ≤ second ∧ second ≤ 0xDFFF then
            some (Char.ofNat (0x10000 + (first - 0xD800) * 0x400 + (second - 0xDC00)), tail)
          else none
        | none => none
      | _ => none
    else some (Char.ofNat first, rest)

/-- The characters of a string after its opening quote; `fuel` is at least the number of characters. -/
def stringTail : (fuel : Nat) → (done : List Char) → List Char → Option (String × List Char)
  | 0, _, _ => none
  | _ + 1, _, [] => none
  | _ + 1, done, '"' :: rest => some (String.ofList done.reverse, rest)
  | fuel + 1, done, '\\' :: c :: rest =>
    match c with
    | '"' => stringTail fuel ('"' :: done) rest
    | '\\' => stringTail fuel ('\\' :: done) rest
    | '/' => stringTail fuel ('/' :: done) rest
    | 'b' => stringTail fuel ('\x08' :: done) rest
    | 'f' => stringTail fuel ('\x0c' :: done) rest
    | 'n' => stringTail fuel ('\n' :: done) rest
    | 'r' => stringTail fuel ('\r' :: done) rest
    | 't' => stringTail fuel ('\t' :: done) rest
    | 'u' =>
      match unicodeEscape rest with
      | some (c, rest) => stringTail fuel (c :: done) rest
      | none => none
    | _ => none
  | _ + 1, _, ['\\'] => none
  | fuel + 1, done, c :: rest =>
    if c.toNat < 32 then none else stringTail fuel (c :: done) rest

mutual

/-- A value; `fuel` bounds the characters still to read and `depth` the nesting. -/
def value : (fuel depth : Nat) → List Char → Option (Json × List Char)
  | 0, _, _ => none
  | fuel + 1, depth, cs =>
    match skipBlanks cs with
    | 'n' :: 'u' :: 'l' :: 'l' :: rest => some (.null, rest)
    | 't' :: 'r' :: 'u' :: 'e' :: rest => some (.bool true, rest)
    | 'f' :: 'a' :: 'l' :: 's' :: 'e' :: rest => some (.bool false, rest)
    | '"' :: rest => (stringTail (rest.length + 1) [] rest).map fun (s, rest) => (.string s, rest)
    | '-' :: rest => number true rest
    | '[' :: rest =>
      if depth ≤ 1 then none
      else
        match skipBlanks rest with
        | ']' :: rest => some (.array [], rest)
        | rest => items fuel (depth - 1) [] rest
    | '\x7b' :: rest =>
      if depth ≤ 1 then none
      else
        match skipBlanks rest with
        | '\x7d' :: rest => some (.object [], rest)
        | rest => members fuel (depth - 1) [] rest
    | rest => number false rest

/-- The items of an array from the next one on. -/
def items : (fuel depth : Nat) → List Json → List Char → Option (Json × List Char)
  | 0, _, _, _ => none
  | fuel + 1, depth, done, cs =>
    match value fuel depth cs with
    | none => none
    | some (item, rest) =>
      match skipBlanks rest with
      | ',' :: rest => items fuel depth (item :: done) rest
      | ']' :: rest => some (.array (item :: done).reverse, rest)
      | _ => none

/-- The members of an object from the next one on. -/
def members : (fuel depth : Nat) → List (String × Json) → List Char → Option (Json × List Char)
  | 0, _, _, _ => none
  | fuel + 1, depth, done, cs =>
    match skipBlanks cs with
    | '"' :: rest =>
      match stringTail (rest.length + 1) [] rest with
      | none => none
      | some (name, rest) =>
        match skipBlanks rest with
        | ':' :: rest =>
          match value fuel depth rest with
          | none => none
          | some (member, rest) =>
            match skipBlanks rest with
            | ',' :: rest => members fuel depth ((name, member) :: done) rest
            | '\x7d' :: rest => some (.object ((name, member) :: done).reverse, rest)
            | _ => none
        | _ => none
    | _ => none

end

end Reader

/-- Reads a document. -/
def parse? (text : String) : Option Json :=
  let cs := text.toList
  match Reader.value (cs.length + 1) nestingLimit cs with
  | some (value, rest) => if (Reader.skipBlanks rest).isEmpty then some value else none
  | none => none

end ModelGraph.Json
