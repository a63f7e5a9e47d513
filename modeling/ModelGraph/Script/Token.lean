import ModelGraph.Number.FloatText

/-!
# Tokens of scripts

Tokens with the lines they end on, and the faults of a text that is no script.
-/

namespace ModelGraph.Script

inductive Token where
  | name (text : String)
  | int (value : Int64)
  | float (value : Float)
  | str (value : String)
  | op (text : String)
  | newline
  | indent
  | dedent
  | eof
  deriving DecidableEq, Inhabited

structure Placed where
  token : Token
  line : Nat
  deriving DecidableEq, Inhabited

/-- How a message names a token. -/
def Token.describe : Token → String
  | .name text => "'" ++ text ++ "'"
  | .int value => "'" ++ toString value.toInt ++ "'"
  | .float value => "'" ++ FloatLayout.display.writeFloat value ++ "'"
  | .str _ => "string"
  | .op text => "'" ++ text ++ "'"
  | .newline => "end of line"
  | .indent => "indent"
  | .dedent => "dedent"
  | .eof => "end of file"

/-- Parts of the language that are recognised and refused. -/
inductive Refused where
  | formattedString
  | wildcardImport
  | chainedAssignment
  | variadicParameter
  | loopElse
  | lambda
  | conditional
  | unpacking
  | comprehension
  | generator
  | setLiteral
  | sliceOfMany
  deriving DecidableEq

def Refused.message : Refused → String
  | .formattedString => "formatted strings are not supported"
  | .wildcardImport => "wildcard import is not supported"
  | .chainedAssignment => "chained assignment is not supported"
  | .variadicParameter => "variadic parameters are not supported"
  | .loopElse => "'for ... else' is not supported"
  | .lambda => "lambda is not supported"
  | .conditional => "conditional expressions are not supported"
  | .unpacking => "argument unpacking is not supported"
  | .comprehension => "comprehensions are not supported"
  | .generator => "generator expressions are not supported"
  | .setLiteral => "set literals are not supported"
  | .sliceOfMany => "multi-dimensional slicing is not supported"

/-- What is wrong with a text. -/
inductive Fault where
  | inconsistentDedent
  | invalidHexadecimal (digits : String)
  | invalidNumber (text : String)
  | invalidEscape (digits : String)
  | unterminatedString
  | unexpectedCharacter (c : Char)
  | refused (part : Refused)
  | expected (what : String) (found : Token)
  | unexpected (found : Token)
  | unexpectedKeyword (keyword : String)
  | unsupportedStatement (keyword : String)
  | unsupportedOperator (found : Token)
  | strayDecorator
  | declarationTarget
  | missingBlock
  | emptySubscript
  /-- The text nests deeper than any text of its length can. -/
  | tooDeep
  deriving DecidableEq

def Fault.message : Fault → String
  | .inconsistentDedent => "inconsistent dedent"
  | .invalidHexadecimal digits => s!"invalid hex literal '0x{digits}'"
  | .invalidNumber text => s!"invalid number '{text}'"
  | .invalidEscape digits => s!"invalid escape '{digits}'"
  | .unterminatedString => "unterminated string literal"
  | .unexpectedCharacter c => s!"unexpected character '{c}'"
  | .refused part => part.message
  | .expected what found => s!"expected {what}, found {found.describe}"
  | .unexpected found => s!"unexpected {found.describe}"
  | .unexpectedKeyword keyword => s!"unexpected keyword '{keyword}'"
  | .unsupportedStatement keyword => s!"unsupported statement '{keyword}'"
  | .unsupportedOperator found => s!"unsupported operator {found.describe}"
  | .strayDecorator => "decorator must precede a definition"
  | .declarationTarget => "annotated declaration must name a variable"
  | .missingBlock => "expected an indented block"
  | .emptySubscript => "empty subscript"
  | .tooDeep => "nested too deeply"

/-- A fault and its line. -/
structure SyntaxError where
  line : Nat
  fault : Fault
  deriving DecidableEq

end ModelGraph.Script
