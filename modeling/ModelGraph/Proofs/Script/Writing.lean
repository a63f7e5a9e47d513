import ModelGraph.Proofs.Number.Numeral
import ModelGraph.Proofs.Script.Surface

/-!
# Writing surface expressions

Parentheses stand only where an operand binds less than its place asks for; tuples always have them.
Tokens are separated by single blanks. How a string literal is spelled is left to a style, which
chooses the quotes and the characters that stand for themselves.
-/

namespace ModelGraph.Script

/-- How strongly the operators of a level bind. -/
def Level.strength : Level → Nat
  | .disjunction => 0
  | .conjunction => 1
  | .alternative => 4
  | .intersection => 5
  | .sum => 6
  | .product => 7

def BinaryOperator.level : BinaryOperator → Level
  | .or => .disjunction
  | .and => .conjunction
  | .bitOr => .alternative
  | .bitAnd => .intersection
  | .add | .sub => .sum
  | .mul | .div | .floorDiv | .remainder | .matmul => .product

def BinaryOperator.token : BinaryOperator → Token
  | .or => .name "or"
  | .and => .name "and"
  | .bitOr => .op "|"
  | .bitAnd => .op "&"
  | .add => .op "+"
  | .sub => .op "-"
  | .mul => .op "*"
  | .div => .op "/"
  | .floorDiv => .op "//"
  | .remainder => .op "%"
  | .matmul => .op "@"

def UnaryOperator.token : UnaryOperator → Token
  | .minus => .op "-"
  | .plus => .op "+"
  | .invert => .op "~"

def ComparisonOperator.tokens : ComparisonOperator → List Token
  | .eq => [.op "=="]
  | .ne => [.op "!="]
  | .lt => [.op "<"]
  | .le => [.op "<="]
  | .gt => [.op ">"]
  | .ge => [.op ">="]
  | .contained => [.name "in"]
  | .notContained => [.name "not", .name "in"]
  | .same => [.name "is"]
  | .notSame => [.name "is", .name "not"]

/-- Runs of tokens with commas between them. -/
def commas (runs : List (List Token)) : List Token := [Token.op ","].intercalate runs

namespace Surface

/-- How strongly an expression holds together: names, literals, displays and what is called, indexed
or has its attribute taken hold most. -/
def strength : Surface → Nat
  | binary op _ _ => op.level.strength
  | not _ => 2
  | compare _ _ _ _ => 3
  | unary _ _ => 8
  | power _ _ => 9
  | _ => 10

/-- The tokens of an expression at a place that asks for a strength. -/
def enclose (place : Nat) (e : Surface) (tokens : List Token) : List Token :=
  if e.strength < place then .op "(" :: tokens ++ [.op ")"] else tokens

mutual

def tokens : Surface → List Token
  | name n => [.name n.name]
  | text s => [.str s]
  | integer n => [.int (Int64.ofNat n)]
  | list items => .op "[" :: commas (tokensAll items) ++ [.op "]"]
  | tuple items =>
    .op "(" :: commas (tokensAll items) ++
      (if items.length = 1 then [.op ",", .op ")"] else [.op ")"])
  | dict entries => .op "\x7b" :: commas (entryTokens entries) ++ [.op "\x7d"]
  | attr target member => enclose 10 target target.tokens ++ [.op ".", .name member.name]
  | call target arguments =>
    enclose 10 target target.tokens ++
      .op "(" :: commas (argumentTokens arguments) ++ [.op ")"]
  | index target first others =>
    enclose 10 target target.tokens ++
      .op "[" :: commas (first.tokens :: tokensAll others) ++ [.op "]"]
  | slice target start stop step =>
    enclose 10 target target.tokens ++
      .op "[" :: boundTokens start ++ .op ":" :: boundTokens stop ++ stepTokens step ++ [.op "]"]
  | binary op left right =>
    enclose op.level.strength left left.tokens ++
      op.token :: enclose (op.level.strength + 1) right right.tokens
  | not operand => .name "not" :: enclose 2 operand operand.tokens
  | compare first op second others =>
    enclose 4 first first.tokens ++ op.tokens ++ enclose 4 second second.tokens ++
      chainTokens others
  | unary op operand => op.token :: enclose 8 operand operand.tokens
  | power base exponent =>
    enclose 10 base base.tokens ++ .op "**" :: enclose 8 exponent exponent.tokens

def tokensAll : List Surface → List (List Token)
  | [] => []
  | e :: rest => e.tokens :: tokensAll rest

def entryTokens : List (Surface × Surface) → List (List Token)
  | [] => []
  | (key, value) :: rest => (key.tokens ++ .op ":" :: value.tokens) :: entryTokens rest

def argumentTokens : List (Option Identifier × Surface) → List (List Token)
  | [] => []
  | (none, value) :: rest => value.tokens :: argumentTokens rest
  | (some keyword, value) :: rest =>
    (.name keyword.name :: .op "=" :: value.tokens) :: argumentTokens rest

def boundTokens : Option Surface → List Token
  | none => []
  | some e => e.tokens

def stepTokens : Option Surface → List Token
  | none => []
  | some e => .op ":" :: e.tokens

def chainTokens : List (ComparisonOperator × Surface) → List Token
  | [] => []
  | (op, e) :: rest => op.tokens ++ enclose 4 e e.tokens ++ chainTokens rest

end

/-- The tokens of an expression at a place, in parentheses if it binds less than the place asks. -/
def tokensAt (place : Nat) (e : Surface) : List Token := enclose place e e.tokens

/-- The tokens of an argument. -/
def argument (a : Option Identifier × Surface) : List Token :=
  match a.1 with
  | none => a.2.tokens
  | some keyword => .name keyword.name :: .op "=" :: a.2.tokens

@[simp] theorem tokensAll_eq_map (items : List Surface) :
    tokensAll items = items.map tokens := by
  induction items with
  | nil => rfl
  | cons e rest ih => simp [tokensAll, ih]

@[simp] theorem entryTokens_eq_map (entries : List (Surface × Surface)) :
    entryTokens entries = entries.map fun entry => entry.1.tokens ++ .op ":" :: entry.2.tokens := by
  induction entries with
  | nil => rfl
  | cons entry rest ih => simp [entryTokens, ih]

@[simp] theorem argumentTokens_eq_map (arguments : List (Option Identifier × Surface)) :
    argumentTokens arguments = arguments.map argument := by
  induction arguments with
  | nil => rfl
  | cons a rest ih =>
      obtain ⟨keyword, value⟩ := a
      cases keyword <;> simp [argumentTokens, argument, ih]

end Surface

/-! ## Spelling -/

/-- How string literals are spelled. -/
structure Style where
  /-- Whether a text stands in double quotes. -/
  isDouble : String → Bool
  /-- Whether a character stands for itself wherever it can. -/
  isVerbatim : Char → Bool

/-- The shortest numeric escape of a character. -/
def numericEscape (c : Char) : List Char :=
  if c.toNat < 0x100 then '\\' :: 'x' :: hexDigits 2 c.toNat
  else if c.toNat < 0x10000 then '\\' :: 'u' :: hexDigits 4 c.toNat
  else '\\' :: 'U' :: hexDigits 8 c.toNat

namespace Style

def quote (style : Style) (text : String) : Char := if style.isDouble text then '"' else '\''

/-- A character of a string literal. -/
def spellChar (style : Style) (quote c : Char) : List Char :=
  if c = '\\' ∨ c = quote then ['\\', c]
  else if c = '\n' then ['\\', 'n']
  else if style.isVerbatim c then [c]
  else if c = '\r' then ['\\', 'r']
  else if c = '\t' then ['\\', 't']
  else numericEscape c

def spellText (style : Style) (text : String) : List Char :=
  let quote := style.quote text
  quote :: text.toList.flatMap (style.spellChar quote) ++ [quote]

/-- The characters of a token. Those of the layout of lines have none. -/
def spell (style : Style) : Token → List Char
  | .name n => n.toList
  | .int i => (toString i.toInt).toList
  | .str s => style.spellText s
  | .op op => op.toList
  | _ => []

/-- Tokens with single blanks between them. -/
def spaced (style : Style) (tokens : List Token) : List Char :=
  [' '].intercalate (tokens.map style.spell)

end Style

/-- The text of an expression. -/
def Surface.print (style : Style) (e : Surface) : String := String.ofList (style.spaced e.tokens)

end ModelGraph.Script
