import ModelGraph.Number.Numeral
import ModelGraph.Script.Token
import ModelGraph.Text.Letter

/-!
# Scanning

`tokenize` cuts a text into tokens. Indentation opens and closes blocks while no bracket is open;
blank lines and lines with a comment alone are passed over. `Scan.step` takes one token or one piece
of layout, and always uses characters or leaves the start of a line, so a number of steps bounded by
the length of the text is enough.
-/

namespace ModelGraph.Script

/-- Where scanning stands. -/
structure Scan where
  rest : List Char
  line : Nat
  /-- Whether the indentation of a line comes next. -/
  lineStart : Bool
  /-- The number of open brackets. -/
  depth : Nat
  /-- The indentations of the open blocks, innermost first, without the outermost one of zero. -/
  indents : List Nat
  /-- The tokens so far, last first. -/
  tokens : List Placed

namespace Scan

def start (cs : List Char) : Scan := ⟨cs, 1, true, 0, [], []⟩

def push (s : Scan) (token : Token) : Scan := { s with tokens := ⟨token, s.line⟩ :: s.tokens }

def fail {α : Type} (s : Scan) (fault : Fault) : Except SyntaxError α := .error ⟨s.line, fault⟩

/-- Whether a line end would end a logical line: something stands on it. -/
def hasContent (s : Scan) : Bool :=
  match s.tokens with
  | [] => false
  | last :: _ => last.token ≠ .newline && last.token ≠ .indent && last.token ≠ .dedent

def endLine (s : Scan) : Scan := if s.hasContent then s.push .newline else s

end Scan

/-- The width of leading blanks and what follows them; a tab goes to the next multiple of eight. -/
def indentation (width : Nat) : List Char → Nat × List Char
  | ' ' :: rest => indentation (width + 1) rest
  | '\t' :: rest => indentation ((width / 8 + 1) * 8) rest
  | '\x0c' :: rest => indentation width rest
  | '\r' :: rest => indentation width rest
  | rest => (width, rest)

/-- Closes blocks that are indented deeper than `width`. -/
def closeBlocks (width : Nat) (line : Nat) :
    List Nat → List Placed → List Nat × List Placed
  | [], tokens => ([], tokens)
  | innermost :: outer, tokens =>
    if width < innermost then closeBlocks width line outer (⟨.dedent, line⟩ :: tokens)
    else (innermost :: outer, tokens)

/-- What follows the end of the line. -/
def skipLine (cs : List Char) : List Char := cs.dropWhile (· ≠ '\n')

/-- The start of a line: a blank line is passed over, else blocks are opened or closed. -/
def Scan.layout (s : Scan) : Except SyntaxError Scan :=
  let (width, rest) := indentation 0 s.rest
  match rest with
  | [] => .ok { s with rest := [], lineStart := false }
  | c :: _ =>
    if c = '#' ∨ c = '\n' then
      match skipLine rest with
      | [] => .ok { s with rest := [] }
      | _ :: next => .ok { s with rest := next, line := s.line + 1 }
    else
      let s := { s with rest, lineStart := false }
      if s.indents.headD 0 < width then .ok { s.push .indent with indents := width :: s.indents }
      else
        let (indents, tokens) := closeBlocks width s.line s.indents s.tokens
        let s := { s with indents, tokens }
        if width = indents.headD 0 then .ok s else s.fail .inconsistentDedent

/-- The part of a number after its start: digits, underscores, one point and exponents with signs.
Gives what was taken, whether it has the form of a float, and the rest. -/
def numberTail (isFloat : Bool) : List Char → List Char × Bool × List Char
  | [] => ([], isFloat, [])
  | c :: rest =>
    let keep (taken : List Char) (r : List Char × Bool × List Char) := (taken ++ r.1, r.2)
    if ('0' ≤ c ∧ c ≤ '9') ∨ c = '_' then keep [c] (numberTail isFloat rest)
    else if c = '.' ∧ ¬ isFloat then keep [c] (numberTail true rest)
    else if c = 'e' ∨ c = 'E' then
      match rest with
      | '+' :: rest => keep [c, '+'] (numberTail true rest)
      | '-' :: rest => keep [c, '-'] (numberTail true rest)
      | rest => keep [c] (numberTail true rest)
    else ([], isFloat, c :: rest)

def isHexadecimal (c : Char) : Bool := (digitValue? 16 c).isSome

/-- A number: an integer that fits 64 bits, else a float. -/
def Scan.number (s : Scan) : Except SyntaxError Scan :=
  let hexadecimal (digits : List Char) : Except SyntaxError Scan :=
    let isPart (c : Char) : Bool := isHexadecimal c || c == '_'
    let text := (digits.takeWhile isPart).filter (· ≠ '_')
    match (digits? 16 text).bind (int64? ·) with
    | some value => .ok { s.push (.int value) with rest := digits.dropWhile isPart }
    | none => { s with rest := digits }.fail (.invalidHexadecimal (String.ofList text))
  match s.rest with
  | '0' :: 'x' :: digits => hexadecimal digits
  | '0' :: 'X' :: digits => hexadecimal digits
  | cs =>
    let (taken, isFloat, rest) := numberTail false cs
    let text := taken.filter (· ≠ '_')
    let float : Except SyntaxError Token :=
      match floatNumeral? text with
      | some value => .ok (.float value)
      | none => s.fail (.invalidNumber (String.ofList text))
    let token : Except SyntaxError Token :=
      if isFloat then float
      else
        match int64Numeral? 10 text with
        | some value => .ok (.int value)
        | none => float
    token.map fun token => { s.push token with rest }

/-- The value of a numeric escape and what follows its digits. -/
def escapedChar (line count : Nat) (cs : List Char) : Except SyntaxError Char :=
  let digits := cs.take count
  match natNumeral? 16 digits with
  | some n =>
    if n.isValidChar then .ok (Char.ofNat n)
    else .error ⟨line, .invalidEscape (String.ofList digits)⟩
  | none => .error ⟨line, .invalidEscape (String.ofList digits)⟩

/-- How a string literal is written. -/
structure Quoting where
  quote : Char
  triple : Bool
  raw : Bool

/-- The text of a string literal after its opening quotes, with the line it ends on and the rest.
`fuel` is at least the number of characters. -/
def stringBody (q : Quoting) : (fuel line : Nat) → (done : List Char) → List Char →
    Except SyntaxError (String × Nat × List Char)
  | 0, line, _, _ => .error ⟨line, .unterminatedString⟩
  | _ + 1, line, _, [] => .error ⟨line, .unterminatedString⟩
  | fuel + 1, line, done, c :: rest =>
    if c = q.quote ∧ ¬ q.triple then .ok (String.ofList done.reverse, line, rest)
    else if c = q.quote ∧ rest.take 2 = [q.quote, q.quote] then
      .ok (String.ofList done.reverse, line, rest.drop 2)
    else if c = '\n' ∧ ¬ q.triple then .error ⟨line, .unterminatedString⟩
    else
      let line := if c = '\n' then line + 1 else line
      if c ≠ '\\' then stringBody q fuel line (c :: done) rest
      else
        match rest with
        | [] => .error ⟨line, .unterminatedString⟩
        | next :: rest =>
          let numeric (count : Nat) : Except SyntaxError (String × Nat × List Char) :=
            match escapedChar line count rest with
            | .ok c => stringBody q fuel line (c :: done) (rest.drop count)
            | .error e => .error e
          if q.raw then stringBody q fuel line (next :: '\\' :: done) rest
          else
            match next with
            | 'n' => stringBody q fuel line ('\n' :: done) rest
            | 't' => stringBody q fuel line ('\t' :: done) rest
            | 'r' => stringBody q fuel line ('\r' :: done) rest
            | '0' => stringBody q fuel line ('\x00' :: done) rest
            | '\\' => stringBody q fuel line ('\\' :: done) rest
            | '\'' => stringBody q fuel line ('\'' :: done) rest
            | '"' => stringBody q fuel line ('"' :: done) rest
            | '\n' => stringBody q fuel (line + 1) done rest
            | 'x' => numeric 2
            | 'u' => numeric 4
            | 'U' => numeric 8
            | other => stringBody q fuel line (other :: '\\' :: done) rest

/-- A string literal at its opening quote. -/
def Scan.string (s : Scan) (raw : Bool) : Except SyntaxError Scan :=
  match s.rest with
  | [] => s.fail .unterminatedString
  | quote :: rest =>
    let triple := rest.take 2 = [quote, quote]
    let body := if triple then rest.drop 2 else rest
    (stringBody ⟨quote, triple, raw⟩ (body.length + 1) s.line [] body).map fun (text, line, rest) =>
      { { s with line }.push (.str text) with rest }

def isNamePart (c : Char) : Bool := Text.isLetterOrDigit c || c == '_'

/-- A name, or the prefix of a string literal and the literal. -/
def Scan.name (s : Scan) : Except SyntaxError Scan :=
  let text := String.ofList (s.rest.takeWhile isNamePart)
  let rest := s.rest.dropWhile isNamePart
  let plain : Except SyntaxError Scan := .ok { s.push (.name text) with rest }
  if rest.head? = some '"' ∨ rest.head? = some '\'' then
    let lower := text.toLower
    if ["r", "b", "u", "rb", "br"].contains lower then
      { s with rest }.string (lower.toList.contains 'r')
    else if lower.toList.contains 'f' then s.fail (.refused .formattedString)
    else plain
  else plain

/-- The operators, longer ones before their beginnings. -/
def operators : List String := [
  "**=", "//=", ">>=", "<<=", "...", "==", "!=", "<=", ">=", "//", "**", "->", "+=", "-=", "*=",
  "/=", "%=", "&=", "|=", "^=", "<<", ">>", ":=", "+", "-", "*", "/", "%", "(", ")", "[", "]",
  "\x7b", "\x7d", ",", ":", ".", ";", "=", "<", ">", "@", "&", "|", "^", "~"]

/-- The number of open brackets after an operator; a closing one without an open one counts as
nothing. -/
def depthAfter (depth : Nat) (op : String) : Nat :=
  if ["(", "[", "\x7b"].contains op then depth + 1
  else if [")", "]", "\x7d"].contains op then depth - 1
  else depth

/-- The first operator that the text begins with. -/
def Scan.operator (s : Scan) : Except SyntaxError Scan :=
  match operators.find? fun op => op.toList.isPrefixOf s.rest with
  | some op =>
    .ok { s.push (.op op) with
      rest := s.rest.drop op.length
      depth := depthAfter s.depth op }
  | none =>
    match s.rest with
    | c :: _ => s.fail (.unexpectedCharacter c)
    | [] => .ok s

/-- One token or piece of layout of a text that is not used up. -/
def Scan.step (s : Scan) : Except SyntaxError Scan :=
  if s.lineStart then s.layout
  else
    let digitNext (cs : List Char) : Bool := cs.head?.any fun c => '0' ≤ c ∧ c ≤ '9'
    match s.rest with
    | [] => .ok s
    | ' ' :: rest => .ok { s with rest }
    | '\t' :: rest => .ok { s with rest }
    | '\r' :: rest => .ok { s with rest }
    | '\x0c' :: rest => .ok { s with rest }
    | '#' :: rest => .ok { s with rest := skipLine rest }
    | '\\' :: '\n' :: rest => .ok { s with rest, line := s.line + 1 }
    | '\\' :: '\r' :: '\n' :: rest => .ok { s with rest, line := s.line + 1 }
    | '\n' :: rest =>
      let s := if s.depth = 0 then { s.endLine with lineStart := true } else s
      .ok { s with rest, line := s.line + 1 }
    | c :: rest =>
      if c = '"' ∨ c = '\'' then s.string false
      else if '0' ≤ c ∧ c ≤ '9' then s.number
      else if c = '.' ∧ digitNext rest then s.number
      else if Text.isLetter c ∨ c = '_' then s.name
      else s.operator

/-- Scans to the end of the text. -/
def Scan.run : (fuel : Nat) → Scan → Except SyntaxError Scan
  | 0, s => s.fail .tooDeep
  | fuel + 1, s =>
    if s.rest.isEmpty ∧ ¬ s.lineStart then .ok s
    else
      match s.step with
      | .ok next => next.run fuel
      | .error e => .error e

/-- Ends the last line, closes the open blocks and the text. -/
def Scan.finish (s : Scan) : List Placed :=
  let s := s.endLine
  let s := s.indents.foldl (fun s _ => s.push .dedent) s
  (s.push .eof).tokens.reverse

/-- The tokens of a text. -/
def tokenize (text : List Char) : Except SyntaxError (List Placed) :=
  ((Scan.start text).run (2 * text.length + 2)).map Scan.finish

end ModelGraph.Script
