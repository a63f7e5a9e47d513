import ModelGraph.Number.Numeral
import ModelGraph.Object.Value
import ModelGraph.Text.Basic

/-!
# Pickled scalars

The readings of numbers and texts that take more than a fixed number of bytes.
-/

namespace ModelGraph.Pickle

/-- An integer written in digits; one that is no word, or no integer, is read as a float. -/
def integer? (text : String) : Option Value :=
  let cs := Text.trim text.toList
  ((int64Numeral? 10 cs).map Value.int).or ((floatNumeral? cs).map .float)

/-- The text before the marks of long integers at its end. -/
def beforeLongMarks (text : String) : String :=
  String.ofList (text.toList.reverse.dropWhile (· == 'L')).reverse

/-- The float that bytes of a long integer add up to, highest first, rounded at each step. -/
def accumulate (bytes : Bytes) : Float :=
  bytes.reverse.foldl (fun x b => x * 256 + floatOfInt b.toNat) 0

/-- A two's complement integer of any width, lowest byte first. Past eight bytes it is a float. -/
def long (bytes : Bytes) : Value :=
  if bytes.length ≤ 8 then .int (Int64.ofInt (intOfBytes bytes))
  else
    let total := accumulate bytes
    if 128 ≤ (bytes.getLastD 0).toNat then
      .float (total - floatOfRatio false (twoPow (8 * bytes.length)) 1)
    else .float total

/-- Resolves the escapes in the text of a quoted string; digits that give no number are left out. -/
def unescape (cs : List Char) : List Char :=
  match cs with
  | '\\' :: 'n' :: rest => '\n' :: unescape rest
  | '\\' :: 'r' :: rest => '\r' :: unescape rest
  | '\\' :: 't' :: rest => '\t' :: unescape rest
  | '\\' :: 'x' :: rest =>
    let decoded := (natNumeral? 16 (rest.take 2)).map Char.ofNat
    decoded.toList ++ unescape (rest.drop 2)
  | '\\' :: c :: rest => c :: unescape rest
  | c :: rest => c :: unescape rest
  | [] => []
termination_by cs.length
decreasing_by all_goals simp; try omega

/-- The text between a pair of quotes. -/
def between? (quote : Char) (cs : List Char) : Option (List Char) :=
  match cs with
  | first :: rest =>
    if first = quote ∧ rest.getLast? = some quote then some rest.dropLast else none
  | [] => none

/-- The text of a quoted string; quotes may be missing. -/
def unquote (text : String) : String :=
  let cs := text.toList
  String.ofList (unescape (((between? '\'' cs).or (between? '"' cs)).getD cs))

/-- The character of a code, unless the code belongs to a surrogate or is too large. -/
def character? (code : Nat) : Option Char :=
  if code.isValidChar then some (Char.ofNat code) else none

/-- Resolves the escapes `\uXXXX` and `\UXXXXXXXX`; digits that give no character stand as they
are. -/
def unescapeUnicode (cs : List Char) : List Char :=
  match cs with
  | [] => []
  | c :: rest =>
    if c = '\\' ∧ (rest.head? = some 'u' ∨ rest.head? = some 'U') then
      let width := if rest.head? = some 'u' then 4 else 8
      let digits := rest.tail.take width
      let decoded := ((natNumeral? 16 digits).bind character?).map ([·])
      decoded.getD digits ++ unescapeUnicode (rest.tail.drop width)
    else c :: unescapeUnicode rest
termination_by cs.length
decreasing_by all_goals simp; try omega

end ModelGraph.Pickle
