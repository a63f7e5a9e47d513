import ModelGraph.Json.Basic
import ModelGraph.Text.Quoted

/-!
# Writing JSON

`Json.compact` writes a value without blanks, `Json.pretty` one item or member on a line, two spaces
deeper than what holds it. Members are written in their order.
-/

namespace ModelGraph.Json

/-- One character of a string. -/
def escapeChar (c : Char) : String :=
  match c with
  | '"' => "\\\""
  | '\\' => "\\\\"
  | '\x08' => "\\b"
  | '\x0c' => "\\f"
  | '\n' => "\\n"
  | '\r' => "\\r"
  | '\t' => "\\t"
  | c =>
    if c.toNat < 16 then "\\u000" ++ Text.hexadecimal c.toNat
    else if c.toNat < 32 then "\\u00" ++ Text.hexadecimal c.toNat
    else String.singleton c

/-- A string between quotes. -/
def writeString (s : String) : String := "\"" ++ String.join (s.toList.map escapeChar) ++ "\""

/-- A value that holds no others. -/
def writeScalar : Json → String
  | .null => "null"
  | .bool b => if b then "true" else "false"
  | .int i => toString i
  | .float x => FloatLayout.jsonDouble.writeFloat x
  | .single bits => FloatLayout.jsonSingle.writeSingle bits
  | .string s => writeString s
  | .array _ => "[]"
  | .object _ => "\x7b\x7d"

mutual

def compact : Json → String
  | .array items => "[" ++ String.intercalate "," (compactItems items) ++ "]"
  | .object members => "\x7b" ++ String.intercalate "," (compactMembers members) ++ "\x7d"
  | value => writeScalar value

def compactItems : List Json → List String
  | [] => []
  | item :: rest => compact item :: compactItems rest

def compactMembers : List (String × Json) → List String
  | [] => []
  | (name, value) :: rest => (writeString name ++ ":" ++ compact value) :: compactMembers rest

end

/-- Parts on lines of their own between two brackets. -/
def block (indent opening closing : String) (parts : List String) : String :=
  let inner := "\n" ++ indent ++ "  "
  opening ++ inner ++ String.intercalate ("," ++ inner) parts ++ "\n" ++ indent ++ closing

mutual

/-- The text of a value that stands at an indentation. -/
def prettyAt (indent : String) : Json → String
  | .array [] => "[]"
  | .array items => block indent "[" "]" (prettyItems (indent ++ "  ") items)
  | .object [] => "\x7b\x7d"
  | .object members => block indent "\x7b" "\x7d" (prettyMembers (indent ++ "  ") members)
  | value => writeScalar value

def prettyItems (indent : String) : List Json → List String
  | [] => []
  | item :: rest => prettyAt indent item :: prettyItems indent rest

def prettyMembers (indent : String) : List (String × Json) → List String
  | [] => []
  | (name, value) :: rest =>
    (writeString name ++ ": " ++ prettyAt indent value) :: prettyMembers indent rest

end

def pretty (value : Json) : String := prettyAt "" value

end ModelGraph.Json
