import ModelGraph.Toml.Quoted
import ModelGraph.Toml.Scalar

/-!
# Reading TOML

A document is read line by line; values may go over several lines within brackets. The amount of fuel
follows from the length of the text: every step but one in two takes a character.
-/

namespace ModelGraph.Toml

/-- How deep arrays and inline tables may nest, and how many parts a key may have. -/
def nestingLimit : Nat := 79

def skipBlanks (cs : List Char) : List Char := cs.dropWhile isBlank

/-- Skips blanks and a comment. -/
def skipComment (cs : List Char) : List Char :=
  match skipBlanks cs with
  | '#' :: rest => rest.dropWhile isPlain
  | rest => rest

/-- What follows a line on which nothing is left. -/
def lineEnd? (cs : List Char) : Option (List Char) :=
  match skipComment cs with
  | [] => some []
  | rest => lineBreak? rest

/-- Skips blanks, line breaks and comments. -/
def skipLines (inComment : Bool) : List Char → List Char
  | [] => []
  | '\r' :: '\n' :: rest => skipLines false rest
  | c :: rest =>
    if c == '\n' then skipLines false rest
    else if inComment then if isPlain c then skipLines true rest else c :: rest
    else if isBlank c then skipLines false rest
    else if c == '#' then skipLines true rest
    else c :: rest

def isKeyChar (c : Char) : Bool := c.isAlphanum || c == '_' || c == '-'

/-- One part of a key: quoted on one line, or bare. -/
def keyPart? (cs : List Char) : Option (String × List Char) :=
  match cs with
  | '"' :: rest => (basic rest).map fun u => (String.ofList u.1, u.2)
  | '\'' :: rest => (literal rest).map fun u => (String.ofList u.1, u.2)
  | _ =>
    let (name, rest) := cs.span isKeyChar
    if name.isEmpty then none else some (String.ofList name, rest)

/-- A key: parts with points between them. -/
def key? : (parts : Nat) → List Char → Option (List String × List Char)
  | 0, _ => none
  | parts + 1, cs => do
    let (part, rest) ← keyPart? (skipBlanks cs)
    match skipBlanks rest with
    | '.' :: rest => do
      let (others, rest) ← key? parts rest
      return (part :: others, rest)
    | rest => return ([part], rest)

/-- Adds a value under a key. -/
def addUnder? (key : List String) (value : Value) (ms : Members) : Option Members := do
  ms.addDotted? key.dropLast (← key.getLast?) value

mutual

/-- A value and what follows it. -/
def value? : (fuel depth : Nat) → List Char → Option (Value × List Char)
  | fuel + 1, depth + 1, '[' :: rest => do
    let (items, rest) ← items? fuel depth rest
    return (.array items, rest)
  | fuel + 1, depth + 1, '\x7b' :: rest => do
    match skipBlanks rest with
    | '\x7d' :: rest => return (.table .inline [], rest)
    | rest =>
      let (members, rest) ← members? fuel depth [] rest
      return (.table .inline members, rest)
  | _, _, '"' :: rest => (quoted? ('"' :: rest)).map fun u => (.string u.1, u.2)
  | _, _, '\'' :: rest => (quoted? ('\'' :: rest)).map fun u => (.string u.1, u.2)
  | _, _, cs =>
    let (run, rest) := scalarSpan cs
    (scalar? run).map (·, rest)

/-- The items of an array, up to its closing bracket. -/
def items? : (fuel depth : Nat) → List Char → Option (List Value × List Char)
  | 0, _, _ => none
  | fuel + 1, depth, cs => do
    match skipLines false cs with
    | ']' :: rest => return ([], rest)
    | cs =>
      let (item, rest) ← value? fuel depth cs
      match skipLines false rest with
      | ',' :: rest =>
        let (others, rest) ← items? fuel depth rest
        return (item :: others, rest)
      | ']' :: rest => return ([item], rest)
      | _ => none

/-- The members of an inline table that are left, up to its closing brace. -/
def members? : (fuel depth : Nat) → Members → List Char → Option (Members × List Char)
  | 0, _, _, _ => none
  | fuel + 1, depth, ms, cs => do
    match ← key? nestingLimit cs with
    | (key, '=' :: rest) =>
      let (value, rest) ← value? fuel depth (skipBlanks rest)
      let ms ← addUnder? key value ms
      match skipBlanks rest with
      | ',' :: rest => members? fuel depth ms rest
      | '\x7d' :: rest => return (ms, rest)
      | _ => none
    | _ => none

end

/-- What has been read of a document: its members and the path of the last header. -/
structure Draft where
  members : Members := []
  header : List String := []
  deriving Inhabited

/-- Opens a table or an item of an array at the path of a header. -/
def Draft.open? (d : Draft) (header : List String) (change : String → Members → Option Members) :
    Option Draft := do
  let members ← d.members.atHeader? header.dropLast (change (← header.getLast?))
  return { members, header }

/-- Adds a value under the last header. -/
def Draft.add? (d : Draft) (key : List String) (value : Value) : Option Draft := do
  return { d with members := ← d.members.atHeader? d.header (addUnder? key value) }

/-- Reads a line, or more if its value goes over several. -/
def line? (d : Draft) (cs : List Char) : Option (Draft × List Char) := do
  match skipBlanks cs with
  | [] => return (d, [])
  | '[' :: '[' :: rest =>
    match ← key? nestingLimit rest with
    | (key, ']' :: ']' :: rest) => return (← d.open? key Members.openItem?, ← lineEnd? rest)
    | _ => none
  | '[' :: rest =>
    match ← key? nestingLimit rest with
    | (key, ']' :: rest) => return (← d.open? key Members.openTable?, ← lineEnd? rest)
    | _ => none
  | c :: rest =>
    if c == '#' || c == '\n' || c == '\r' then return (d, ← lineEnd? (c :: rest))
    else
      match ← key? nestingLimit (c :: rest) with
      | (key, '=' :: rest) =>
        let (value, rest) ← value? (2 * rest.length + 2) nestingLimit (skipBlanks rest)
        return (← d.add? key value, ← lineEnd? rest)
      | _ => none

/-- Reads the lines that are left, at most `lines` of them. -/
def lines? : (lines : Nat) → Draft → List Char → Option Draft
  | _, d, [] => some d
  | 0, _, _ => none
  | lines + 1, d, cs => do
    let (d, rest) ← line? d cs
    lines? lines d rest

/-- Reads a document. A byte order mark in front is passed over. -/
def parse? (text : String) : Option Members :=
  let cs := match text.toList with
    | '\ufeff' :: rest => rest
    | cs => cs
  (lines? (cs.length + 1) {} cs).map (·.members)

end ModelGraph.Toml
