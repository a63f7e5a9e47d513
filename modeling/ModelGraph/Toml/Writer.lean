/-!
# Writing TOML

A string is written in the first form that needs no escapes: basic, literal, basic over lines,
literal over lines. A string that none of them can hold is basic, with escapes, and over lines if it
has line breaks. An array of more than one item has each on a line of its own.
-/

namespace ModelGraph.Toml

/-- What decides how a string can be written. -/
structure Demands where
  /-- Control characters that only escapes can stand for. -/
  control : Bool
  backslash : Bool
  lineBreak : Bool
  /-- The longest runs of quotes. -/
  double : Nat
  single : Nat

/-- The longest run of a character; `here` is the length of the run so far. -/
def longestRun (c : Char) (here : Nat) : List Char → Nat
  | [] => here
  | d :: rest => if d = c then longestRun c (here + 1) rest else max here (longestRun c 0 rest)

def demands (cs : List Char) : Demands where
  control := cs.any fun c =>
    c != '\t' && c != '\n' && (decide (c.toNat < 0x20) || c.toNat == 0x7f)
  backslash := cs.contains '\\'
  lineBreak := cs.contains '\n'
  double := longestRun '"' 0 cs
  single := longestRun '\'' 0 cs

/-- The number of a control character in four digits. -/
def controlNumber (n : Nat) : String :=
  String.ofList ['\\', 'u', '0', '0', upper (n / 16), upper (n % 16)]
where
  upper (n : Nat) : Char := (Nat.digitChar n).toUpper

/-- Writes the characters of a basic string, in which so many quotes may follow each other. -/
def escape (overLines : Bool) (quotesAllowed : Nat) (quotes : Nat) : List Char → String
  | [] => ""
  | c :: rest =>
    if c == '"' then
      if quotes < quotesAllowed then "\"" ++ escape overLines quotesAllowed (quotes + 1) rest
      else "\\\"" ++ escape overLines quotesAllowed 0 rest
    else
      let written :=
        match c with
        | '\x08' => "\\b"
        | '\t' => "\\t"
        | '\n' => if overLines then "\n" else "\\n"
        | '\x0c' => "\\f"
        | '\r' => "\\r"
        | '\\' => "\\\\"
        | c =>
          if c.toNat < 0x20 ∨ c.toNat = 0x7f then controlNumber c.toNat else String.singleton c
      written ++ escape overLines quotesAllowed 0 rest

def basicText (cs : List Char) : String := "\"" ++ escape false 0 0 cs ++ "\""

/-- The line break after the opening quotes of a string that has others. -/
def firstBreak (d : Demands) : String := if d.lineBreak then "\n" else ""

def basicLinesText (d : Demands) (cs : List Char) : String :=
  "\"\"\"" ++ firstBreak d ++ escape true 2 0 cs ++ "\"\"\""

def writeString (s : String) : String :=
  let d := demands s.toList
  let unescaped := !d.control && !d.backslash
  if unescaped && d.double == 0 && !d.lineBreak then basicText s.toList
  else if !d.control && d.single == 0 && !d.lineBreak then "'" ++ s ++ "'"
  else if unescaped && decide (d.double ≤ 2) then basicLinesText d s.toList
  else if !d.control && decide (d.single ≤ 2) then "'''" ++ firstBreak d ++ s ++ "'''"
  else if d.lineBreak then basicLinesText d s.toList
  else basicText s.toList

/-- Writes an array of written items. -/
def writeArray : List String → String
  | [] => "[]"
  | [item] => "[" ++ item ++ "]"
  | items => "[\n" ++ String.join (items.map fun item => "    " ++ item ++ ",\n") ++ "]"

/-- Writes a line with a member. -/
def writeMember (key value : String) : String := key ++ " = " ++ value ++ "\n"

end ModelGraph.Toml
