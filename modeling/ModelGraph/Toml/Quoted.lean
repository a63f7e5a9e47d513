import ModelGraph.Number.Numeral

/-!
# Quoted texts in TOML

Basic strings have escapes, literal strings have none; both may span lines between triple quotes. The
functions read what follows the opening quotes, and give the characters and what follows the closing
ones.
-/

namespace ModelGraph.Toml

/-- Blanks within a line. -/
def isBlank (c : Char) : Bool := c = ' ' || c = '\t'

/-- Characters of comments and of literal strings: no control characters but the tab. -/
def isPlain (c : Char) : Bool := c = '\t' || (decide (0x20 ≤ c.toNat) && c.toNat != 0x7f)

/-- What follows a line break. -/
def lineBreak? : List Char → Option (List Char)
  | '\n' :: rest => some rest
  | '\r' :: '\n' :: rest => some rest
  | _ => none

/-- The character of a one-letter escape. -/
def escape? : Char → Option Char
  | 'b' => some '\x08'
  | 't' => some '\t'
  | 'n' => some '\n'
  | 'f' => some '\x0c'
  | 'r' => some '\r'
  | '"' => some '"'
  | '\\' => some '\\'
  | _ => none

/-- The character whose number is written in hexadecimal digits. -/
def numbered? (digits : List Char) : Option Char := do
  let n ← digits? 16 digits
  if n.isValidChar then some (Char.ofNat n) else none

/-- What a reading of a string gives. -/
abbrev Unquoted := Option (List Char × List Char)

/-- Puts a character in front. -/
def Unquoted.cons (c : Option Char) (u : Unquoted) : Unquoted := do
  let c ← c
  let (text, rest) ← u
  return (c :: text, rest)

def basic : List Char → Unquoted
  | '"' :: rest => some ([], rest)
  | '\\' :: 'u' :: a :: b :: c :: d :: rest => .cons (numbered? [a, b, c, d]) (basic rest)
  | '\\' :: 'U' :: a :: b :: c :: d :: e :: f :: g :: h :: rest =>
    .cons (numbered? [a, b, c, d, e, f, g, h]) (basic rest)
  | '\\' :: c :: rest => .cons (escape? c) (basic rest)
  | c :: rest => if isPlain c then .cons (some c) (basic rest) else none
  | [] => none

def literal : List Char → Unquoted
  | '\'' :: rest => some ([], rest)
  | c :: rest => if isPlain c then .cons (some c) (literal rest) else none
  | [] => none

/-- Ends a string at three to five quotes; those beyond three belong to the text. -/
def closing (quote : Char) (text : List Char) : Unquoted :=
  let run := text.takeWhile (· == quote)
  if run.length ≤ 5 then some (run.drop 3, text.drop run.length) else none

/-- Whether only blanks are left on the line. -/
def endsLine (text : List Char) : Bool := (lineBreak? (text.dropWhile isBlank)).isSome

/-- Reads a basic string over several lines. After a backslash at the end of a line all blanks and
line breaks are skipped. -/
def basicLines (skipping : Bool) : List Char → Unquoted
  | '"' :: '"' :: '"' :: rest => closing '"' ('"' :: '"' :: '"' :: rest)
  | '\\' :: 'u' :: a :: b :: c :: d :: rest =>
    .cons (numbered? [a, b, c, d]) (basicLines false rest)
  | '\\' :: 'U' :: a :: b :: c :: d :: e :: f :: g :: h :: rest =>
    .cons (numbered? [a, b, c, d, e, f, g, h]) (basicLines false rest)
  | '\\' :: c :: rest =>
    if endsLine (c :: rest) then basicLines true (c :: rest)
    else .cons (escape? c) (basicLines false rest)
  | '\r' :: '\n' :: rest =>
    if skipping then basicLines true rest else .cons (some '\n') (basicLines false rest)
  | c :: rest =>
    if skipping && (isBlank c || c == '\n') then basicLines true rest
    else if isPlain c || c == '\n' then .cons (some c) (basicLines false rest)
    else none
  | [] => none

def literalLines : List Char → Unquoted
  | '\'' :: '\'' :: '\'' :: rest => closing '\'' ('\'' :: '\'' :: '\'' :: rest)
  | '\r' :: '\n' :: rest => .cons (some '\n') (literalLines rest)
  | c :: rest => if isPlain c || c == '\n' then .cons (some c) (literalLines rest) else none
  | [] => none

/-- Skips a line break right after the opening quotes. -/
def skipFirstBreak (text : List Char) : List Char := (lineBreak? text).getD text

/-- Reads a string of any kind from its first quote on. -/
def quoted? : List Char → Option (String × List Char)
  | '"' :: '"' :: '"' :: rest => text <$> basicLines false (skipFirstBreak rest)
  | '\'' :: '\'' :: '\'' :: rest => text <$> literalLines (skipFirstBreak rest)
  | '"' :: rest => text <$> basic rest
  | '\'' :: rest => text <$> literal rest
  | _ => none
where
  text (u : List Char × List Char) : String × List Char := (String.ofList u.1, u.2)

end ModelGraph.Toml
