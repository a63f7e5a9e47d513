import ModelGraph.Script.Scan
import ModelGraph.Script.Syntax

/-!
# Grammar

Reads statements from tokens by recursive descent. Binary operators stand on levels; each level reads
operands of the next and joins them to the left. Operators become calls of functions, a minus sign
before a number becomes part of it, and a slice becomes a call with its missing bounds filled in.

Every reader takes a bound on its nesting. Between two tokens a descent takes fewer than twenty steps,
so twenty for each token are enough for any text.
-/

namespace ModelGraph.Script

/-- A reading of tokens. -/
abbrev Parse (α : Type) := List Placed → Except SyntaxError (α × List Placed)

namespace Parse

def pure {α : Type} (a : α) : Parse α := fun ts => .ok (a, ts)

def bind {α β : Type} (p : Parse α) (next : α → Parse β) : Parse β := fun ts =>
  match p ts with
  | .ok (a, ts) => next a ts
  | .error e => .error e

instance : Monad Parse where
  pure := Parse.pure
  bind := Parse.bind

/-- The next token, left in place; the end of the text once all are used. -/
def peek : Parse Token := fun ts => .ok ((ts.head?.map (·.token)).getD .eof, ts)

/-- The token after the next. -/
def peekSecond : Parse Token := fun ts => .ok ((ts[1]?.map (·.token)).getD .eof, ts)

/-- Drops the next token. -/
def skip : Parse Unit := fun ts => .ok ((), ts.tail)

/-- A fault at the next token. -/
def fail {α : Type} (fault : Fault) : Parse α := fun ts =>
  .error ⟨(ts.head?.map (·.line)).getD 1, fault⟩

def refuse {α : Type} (part : Refused) : Parse α := fail (.refused part)

def atOp (op : String) : Parse Bool := do return (← peek) = .op op

def atKeyword (keyword : String) : Parse Bool := do return (← peek) = .name keyword

/-- Drops the operator if it is next, and tells whether it was. -/
def eatOp (op : String) : Parse Bool := do
  if ← atOp op then
    skip
    return true
  else return false

def eatKeyword (keyword : String) : Parse Bool := do
  if ← atKeyword keyword then
    skip
    return true
  else return false

def expected {α : Type} (what : String) : Parse α := do fail (.expected what (← peek))

def expectOp (op : String) : Parse Unit := do
  if ← eatOp op then return () else expected ("'" ++ op ++ "'")

def expectKeyword (keyword : String) : Parse Unit := do
  if ← eatKeyword keyword then return () else expected ("'" ++ keyword ++ "'")

/-- Reads something if a condition holds. -/
def when {α : Type} (condition : Bool) (p : Parse α) : Parse (Option α) :=
  if condition then some <$> p else Parse.pure none

/-- Whether a logical line ends here. -/
def atLineEnd : Parse Bool := do
  let t ← peek
  return t = .newline || t = .eof

def expectLineEnd : Parse Unit := do
  match ← peek with
  | .newline => skip
  | .eof => return ()
  | _ => expected "end of line"

end Parse

open Parse

def keywords : List String := [
  "and", "as", "assert", "break", "class", "continue", "def", "del", "elif", "else", "for",
  "from", "global", "if", "import", "in", "is", "lambda", "nonlocal", "not", "or", "pass",
  "raise", "return", "while", "with", "yield"]

def isKeyword (name : String) : Bool := keywords.contains name

def expectName : Parse String := do
  match ← peek with
  | .name n =>
    if isKeyword n then expected "identifier"
    else do
      skip
      return n
  | _ => expected "identifier"

/-- The levels of binary operators that join to the left, weakest first. -/
inductive Level where
  | disjunction
  | conjunction
  | alternative
  | intersection
  | sum
  | product
  deriving DecidableEq

/-- The function of a binary operator of the level. -/
def Level.function? : Level → Token → Option String
  | .disjunction, .name "or" => some "torch.__or__"
  | .conjunction, .name "and" => some "torch.__and__"
  | .alternative, .op "|" => some "torch.__or__"
  | .intersection, .op "&" => some "torch.__and__"
  | .sum, .op "+" => some "torch.add"
  | .sum, .op "-" => some "torch.sub"
  | .product, .op "*" => some "torch.mul"
  | .product, .op "/" => some "torch.div"
  | .product, .op "//" => some "torch.floordiv"
  | .product, .op "%" => some "torch.remainder"
  | .product, .op "@" => some "torch.matmul"
  | _, _ => none

/-- The comparison operators. -/
inductive Comparison where
  | function (name : String)
  | contains
  | containsNot
  | same
  | sameNot
  deriving DecidableEq

/-- The comparison of two operands as a call. -/
def Comparison.apply (c : Comparison) (left right : Expr) : Expr :=
  match c with
  | .function name => .callOf name [left, right]
  | .contains => .callOf "torch.__contains__" [right, left]
  | .containsNot => .callOf "torch.__not__" [.callOf "torch.__contains__" [right, left]]
  | .same => .callOf "torch.__is__" [left, right]
  | .sameNot => .callOf "torch.__isnot__" [left, right]

/-- Reads a comparison operator, if one is next. -/
def comparison? : Parse (Option Comparison) := do
  let found (c : Comparison) : Parse (Option Comparison) := do
    skip
    return some c
  match ← peek with
  | .op "==" => found (.function "torch.eq")
  | .op "!=" => found (.function "torch.ne")
  | .op "<" => found (.function "torch.lt")
  | .op "<=" => found (.function "torch.le")
  | .op ">" => found (.function "torch.gt")
  | .op ">=" => found (.function "torch.ge")
  | .name "in" => found .contains
  | .name "is" => do
    skip
    if ← eatKeyword "not" then return some .sameNot else return some .same
  | .name "not" => do
    if (← peekSecond) = .name "in" then do
      skip
      skip
      return some .containsNot
    else return none
  | _ => return none

/-- The function of an assignment that combines. -/
def augmented? : Token → Option String
  | .op "+=" => some "torch.add"
  | .op "-=" => some "torch.sub"
  | .op "*=" => some "torch.mul"
  | .op "/=" => some "torch.div"
  | .op "//=" => some "torch.floordiv"
  | .op "%=" => some "torch.remainder"
  | _ => none

/-- The negation of an operand; it becomes part of a number. -/
def negate : Expr → Expr
  | .int i => .int (-i)
  | .float x => .float (-x)
  | operand => .callOf "torch.neg" [operand]

/-- Reads the name of a named argument and its equals sign, if they are next. -/
def argumentName? : Parse (Option String) := do
  match ← peek, ← peekSecond with
  | .name n, .op "=" =>
    if isKeyword n then return none
    else do
      skip
      skip
      return some n
  | _, _ => return none

/-- What stands between two brackets of a subscript: an index, or the bounds of a slice. -/
inductive IndexPart where
  | index (value : Expr)
  | slice (start stop step : Option Expr)

/-- Joins the parts of a subscript. A slice stands alone. -/
def subscriptOf? (target : Expr) (parts : List IndexPart) : Except Fault Expr :=
  match parts with
  | [] => .error .emptySubscript
  | [.slice start stop step] =>
    .ok (.callOf "torch.slice" [target, start.getD (.int 0), stop.getD (.int 9223372036854775807),
      step.getD (.int 1)])
  | parts => .ok (.subscript target (parts.filterMap fun p =>
      match p with
      | .index e => some e
      | .slice _ _ _ => none))

/-- Whether a part may follow the parts before it: nothing stands beside a slice. -/
def mayFollow (parts : List IndexPart) : IndexPart → Bool
  | .slice _ _ _ => parts.isEmpty
  | .index _ => parts.all fun p =>
      match p with
      | .slice _ _ _ => false
      | .index _ => true

/-- Whether an expression list ends before the next token. -/
def endsExpression : Token → Bool
  | .newline | .eof => true
  | .op op => ["=", ")", "]", "\x7d", ":", ";"].contains op
  | _ => false

/-- Adjacent string literals are one. -/
def stringRun (text : String) : List Placed → String × List Placed
  | ⟨.str next, _⟩ :: rest => stringRun (text ++ next) rest
  | ts => (text, ts)

mutual

/-- An expression without commas. -/
def expression : (fuel : Nat) → Parse Expr
  | 0 => fail .tooDeep
  | fuel + 1 => do
    if ← atKeyword "lambda" then refuse .lambda
    else
      let e ← binary fuel .disjunction
      if ← atKeyword "if" then refuse .conditional else return e

/-- Operands of a level joined to the left. -/
def binary : (fuel : Nat) → Level → Parse Expr
  | 0, _ => fail .tooDeep
  | fuel + 1, level => do
    let first ← operand fuel level
    let e ← binaryRest fuel level first
    match level, ← peek with
    | .intersection, .op op =>
      if ["^", "<<", ">>"].contains op then fail (.unsupportedOperator (.op op)) else return e
    | _, _ => return e

/-- Goes on with operators of a level after a left operand. -/
def binaryRest : (fuel : Nat) → Level → Expr → Parse Expr
  | 0, _, _ => fail .tooDeep
  | fuel + 1, level, left => do
    match level.function? (← peek) with
    | none => return left
    | some function => do
      skip
      let right ← operand fuel level
      binaryRest fuel level (.callOf function [left, right])

/-- An operand of a level. -/
def operand : (fuel : Nat) → Level → Parse Expr
  | 0, _ => fail .tooDeep
  | fuel + 1, .disjunction => binary fuel .conjunction
  | fuel + 1, .conjunction => negation fuel
  | fuel + 1, .alternative => binary fuel .intersection
  | fuel + 1, .intersection => binary fuel .sum
  | fuel + 1, .sum => binary fuel .product
  | fuel + 1, .product => signed fuel

/-- A logical negation or a chain of comparisons. -/
def negation : (fuel : Nat) → Parse Expr
  | 0 => fail .tooDeep
  | fuel + 1 => do
    if ← eatKeyword "not" then return .callOf "torch.__not__" [← negation fuel]
    else
      let first ← binary fuel .alternative
      comparisons fuel first none

/-- The rest of a chain of comparisons after its last operand. -/
def comparisons : (fuel : Nat) → (last : Expr) → (before : Option Expr) → Parse Expr
  | 0, _, _ => fail .tooDeep
  | fuel + 1, last, before => do
    match ← comparison? with
    | none => return before.getD last
    | some c => do
      let right ← binary fuel .alternative
      let compared := c.apply last right
      let joined := match before with
        | some before => .callOf "torch.__and__" [before, compared]
        | none => compared
      comparisons fuel right (some joined)

/-- An operand with signs, or a power. -/
def signed : (fuel : Nat) → Parse Expr
  | 0 => fail .tooDeep
  | fuel + 1 => do
    if ← eatOp "-" then return negate (← signed fuel)
    else if ← eatOp "+" then signed fuel
    else if ← eatOp "~" then return .callOf "torch.bitwise_not" [← signed fuel]
    else
      let base ← atom fuel
      let base ← trailers fuel base
      if ← eatOp "**" then return .callOf "torch.pow" [base, ← signed fuel] else return base

/-- Calls, subscripts and attributes after an expression. -/
def trailers : (fuel : Nat) → Expr → Parse Expr
  | 0, _ => fail .tooDeep
  | fuel + 1, e => do
    if ← eatOp "(" then
      let arguments ← callArguments fuel []
      expectOp ")"
      trailers fuel (.call e arguments)
    else if ← eatOp "[" then
      let parts ← indexParts fuel []
      expectOp "]"
      match subscriptOf? e parts with
      | .ok e => trailers fuel e
      | .error fault => fail fault
    else if ← eatOp "." then
      let member ← expectName
      trailers fuel (.attr e member)
    else return e

/-- Arguments up to a closing parenthesis, which is left. -/
def callArguments : (fuel : Nat) → (done : List (Option String × Expr)) →
    Parse (List (Option String × Expr))
  | 0, _ => fail .tooDeep
  | fuel + 1, done => do
    if ← atOp ")" then return done.reverse
    else if (← atOp "*") || (← atOp "**") then refuse .unpacking
    else
      let keyword ← argumentName?
      let value ← expression fuel
      if ← atKeyword "for" then refuse .comprehension
      else
        let done := (keyword, value) :: done
        if ← eatOp "," then callArguments fuel done else return done.reverse

/-- The parts of a subscript up to a closing bracket, which is left. -/
def indexParts : (fuel : Nat) → (done : List IndexPart) → Parse (List IndexPart)
  | 0, _ => fail .tooDeep
  | fuel + 1, done => do
    if ← atOp "]" then return done.reverse
    else
      let start ← when (!(← atOp ":")) (expression fuel)
      let part ← indexPart fuel start
      if mayFollow done part then
        if ← eatOp "," then indexParts fuel (part :: done) else return (part :: done).reverse
      else refuse .sliceOfMany

/-- The rest of a part of a subscript after its start. -/
def indexPart : (fuel : Nat) → (start : Option Expr) → Parse IndexPart
  | 0, _ => fail .tooDeep
  | fuel + 1, start => do
    match ← eatOp ":", start with
    | false, some e => return .index e
    | _, _ => do
      let stop ← when (!((← atOp ":") || (← atOp "]") || (← atOp ","))) (expression fuel)
      let stepped ← eatOp ":"
      let step ← when (stepped && !((← atOp "]") || (← atOp ","))) (expression fuel)
      return .slice start stop step

/-- A name, a literal, or something between brackets. -/
def atom : (fuel : Nat) → Parse Expr
  | 0 => fail .tooDeep
  | fuel + 1 => do
    match ← peek with
    | .name n =>
      if isKeyword n then fail (.unexpectedKeyword n)
      else do
        skip
        return .id n
    | .int i => do
      skip
      return .int i
    | .float x => do
      skip
      return .float x
    | .str text => do
      skip
      fun ts => let (text, ts) := stringRun text ts; .ok (.str text, ts)
    | .op bracket =>
      match bracket with
      | "(" => do
        skip
        if ← eatOp ")" then return .tuple []
        else
          let first ← expression fuel
          if ← atKeyword "for" then refuse .generator
          else if ← eatOp ")" then return first
          else
            let items ← if ← eatOp "," then tupleItems fuel [first] else Parse.pure [first]
            expectOp ")"
            return .tuple items
      | "[" => do
        skip
        let items ← listItems fuel []
        expectOp "]"
        return .list items
      | "\x7b" => do
        skip
        let entries ← dictEntries fuel []
        expectOp "\x7d"
        return .dict entries
      | _ => fail (.unexpected (.op bracket))
    | token => fail (.unexpected token)

/-- The items of a tuple after a comma, up to a closing parenthesis, which is left. -/
def tupleItems : (fuel : Nat) → (done : List Expr) → Parse (List Expr)
  | 0, _ => fail .tooDeep
  | fuel + 1, done => do
    if ← atOp ")" then return done.reverse
    else
      let done := (← expression fuel) :: done
      if ← eatOp "," then tupleItems fuel done else return done.reverse

/-- The items of a list up to a closing bracket, which is left. -/
def listItems : (fuel : Nat) → (done : List Expr) → Parse (List Expr)
  | 0, _ => fail .tooDeep
  | fuel + 1, done => do
    if ← atOp "]" then return done.reverse
    else
      let done := (← expression fuel) :: done
      if ← atKeyword "for" then refuse .comprehension
      else if ← eatOp "," then listItems fuel done
      else return done.reverse

/-- The entries of a dictionary up to a closing brace, which is left. -/
def dictEntries : (fuel : Nat) → (done : List (Expr × Expr)) → Parse (List (Expr × Expr))
  | 0, _ => fail .tooDeep
  | fuel + 1, done => do
    if ← atOp "\x7d" then return done.reverse
    else
      let key ← expression fuel
      if ← eatOp ":" then
        let value ← expression fuel
        if ← atKeyword "for" then refuse .comprehension
        else
          let done := (key, value) :: done
          if ← eatOp "," then dictEntries fuel done else return done.reverse
      else refuse .setLiteral

end

/-- Further expressions of a list after a comma. -/
def expressionItems : (fuel : Nat) → (done : List Expr) → Parse (List Expr)
  | 0, _ => fail .tooDeep
  | fuel + 1, done => do
    if endsExpression (← peek) then return done.reverse
    else
      let done := (← expression fuel) :: done
      if ← eatOp "," then expressionItems fuel done else return done.reverse

/-- One expression, or a tuple of several with commas between them. -/
def expressionList (fuel : Nat) : Parse Expr := do
  let first ← expression fuel
  if ← eatOp "," then return .tuple (← expressionItems fuel [first]) else return first

def dottedRest : (fuel : Nat) → String → Parse String
  | 0, _ => fail .tooDeep
  | fuel + 1, name => do
    if ← eatOp "." then dottedRest fuel (name ++ "." ++ (← expectName)) else return name

def dottedName (fuel : Nat) : Parse String := do dottedRest fuel (← expectName)

/-- The local name given to an imported one. -/
def importLocalName : Parse (Option String) := do
  if ← eatKeyword "as" then return some (← expectName) else return none

/-- The names of an import, by a reader of one name. -/
def importNames (name : Parse String) (closes : Parse Bool) :
    (fuel : Nat) → (done : List ImportName) → Parse (List ImportName)
  | 0, _ => fail .tooDeep
  | fuel + 1, done => do
    let name' ← name
    let done := ⟨name', ← importLocalName⟩ :: done
    if ← eatOp "," then
      if ← closes then return done.reverse else importNames name closes fuel done
    else return done.reverse

/-- The dots before the module of an import. -/
def leadingDots : (fuel : Nat) → String → Parse String
  | 0, _ => fail .tooDeep
  | fuel + 1, dots => do
    if ← eatOp "." then leadingDots fuel (dots ++ ".")
    else if ← eatOp "..." then leadingDots fuel (dots ++ "...")
    else return dots

def importFrom (fuel : Nat) : Parse Statement := do
  let dots ← leadingDots fuel ""
  let name ← when (!(← atKeyword "import")) (dottedName fuel)
  let module := dots ++ name.getD ""
  expectKeyword "import"
  if ← atOp "*" then refuse .wildcardImport
  else
    if ← eatOp "(" then
      let names ← importNames expectName (atOp ")") fuel []
      expectOp ")"
      return .importsFrom module names
    else return .importsFrom module (← importNames expectName (Parse.pure false) fuel [])

/-- An assignment, a declaration or an expression. -/
def assignment (fuel : Nat) : Parse Statement := do
  let target ← expressionList fuel
  if ← eatOp ":" then
    let declaredType ← expression fuel
    if ← eatOp "=" then return .assign target (← expressionList fuel)
    else
      match target with
      | .id name => return .declare name (some declaredType)
      | _ => fail .declarationTarget
  else if ← eatOp "=" then
    let value ← expressionList fuel
    if ← atOp "=" then refuse .chainedAssignment else return .assign target value
  else
    match augmented? (← peek) with
    | some function => do
      skip
      let value ← expression fuel
      return .assign target (.callOf function [target, value])
    | none => return .expr target

def simpleStatement (fuel : Nat) : Parse Statement := do
  match ← peek with
  | .name "pass" => do
    skip
    return .pass
  | .name "return" => do
    skip
    if (← atLineEnd) || (← atOp ";") then return .return none
    else return .return (some (← expressionList fuel))
  | .name "import" => do
    skip
    return .imports (← importNames (dottedName fuel) (Parse.pure false) fuel [])
  | .name "from" => do
    skip
    importFrom fuel
  | .name "raise" => do
    skip
    let message ← if ← atLineEnd then Parse.pure (Expr.str "") else expression fuel
    return .expr (.callOf "ops.prim.RaiseException" [message])
  | .name n => if isKeyword n then fail (.unsupportedStatement n) else assignment fuel
  | _ => assignment fuel

/-- Simple statements on one line. -/
def simpleStatements : (fuel : Nat) → (done : List Statement) → Parse (List Statement)
  | 0, _ => fail .tooDeep
  | fuel + 1, done => do
    let done := (← simpleStatement fuel) :: done
    if ← eatOp ";" then
      if ← atLineEnd then
        expectLineEnd
        return done.reverse
      else simpleStatements fuel done
    else
      expectLineEnd
      return done.reverse

/-- The parameters of a definition up to the closing parenthesis, which is left. -/
def parameters : (fuel : Nat) → (done : List Parameter) → Parse (List Parameter)
  | 0, _ => fail .tooDeep
  | fuel + 1, done => do
    if ← atOp ")" then return done.reverse
    else if ← eatOp "*" then
      if ← eatOp "," then parameters fuel done else refuse .variadicParameter
    else if ← atOp "**" then refuse .variadicParameter
    else
      let name ← expectName
      let declaredType ← when (← eatOp ":") (expression fuel)
      let default ← when (← eatOp "=") (expression fuel)
      let done := ⟨name, declaredType, default⟩ :: done
      if ← eatOp "," then parameters fuel done else return done.reverse

/-- What a loop assigns to. -/
def loopTargets : (fuel : Nat) → (done : List Expr) → Parse (List Expr)
  | 0, _ => fail .tooDeep
  | fuel + 1, done => do
    let done := (← binary fuel .alternative) :: done
    if ← eatOp "," then
      if ← atKeyword "in" then return done.reverse else loopTargets fuel done
    else return done.reverse

/-- What a loop runs over. -/
def loopIterables : (fuel : Nat) → (done : List Expr) → Parse (List Expr)
  | 0, _ => fail .tooDeep
  | fuel + 1, done => do
    let done := (← expression fuel) :: done
    if ← eatOp "," then
      if ← atOp ":" then return done.reverse else loopIterables fuel done
    else return done.reverse

mutual

/-- One statement, or the simple statements on one line. -/
def statement : (fuel : Nat) → Parse (List Statement)
  | 0 => fail .tooDeep
  | fuel + 1 => do
    match ← peek with
    | .name "def" => do
      skip
      let name ← expectName
      expectOp "("
      let parameters ← parameters fuel []
      expectOp ")"
      let returns ← when (← eatOp "->") (expression fuel)
      expectOp ":"
      return [.defineFunction name parameters returns (← suite fuel)]
    | .name "class" => do
      skip
      let name ← expectName
      let bases ← when (← eatOp "(") (do
        let arguments ← callArguments fuel []
        expectOp ")"
        return arguments.map (·.2))
      expectOp ":"
      return [.defineClass name (bases.getD []) (← suite fuel)]
    | .name "if" => do
      skip
      return [← branches fuel]
    | .name "for" => do
      skip
      let targets ← loopTargets fuel []
      expectKeyword "in"
      let iterables ← loopIterables fuel []
      expectOp ":"
      let body ← suite fuel
      if ← atKeyword "else" then refuse .loopElse else return [.for targets iterables body]
    | .name "while" => do
      skip
      let condition ← expression fuel
      expectOp ":"
      return [.while condition (← suite fuel)]
    | .op "@" => do
      skip
      let _ ← expression fuel
      expectLineEnd
      if (← atKeyword "def") || (← atKeyword "class") || (← atOp "@") then statement fuel
      else fail .strayDecorator
    | .indent => fail (.unexpected .indent)
    | _ => simpleStatements fuel []

/-- The condition of a branch and what follows it. -/
def branches : (fuel : Nat) → Parse Statement
  | 0 => fail .tooDeep
  | fuel + 1 => do
    let condition ← expression fuel
    expectOp ":"
    let thenBody ← suite fuel
    if ← eatKeyword "elif" then return .branch condition thenBody [← branches fuel]
    else if ← eatKeyword "else" then
      expectOp ":"
      return .branch condition thenBody (← suite fuel)
    else return .branch condition thenBody []

/-- A block, indented or on the rest of the line. -/
def suite : (fuel : Nat) → Parse (List Statement)
  | 0 => fail .tooDeep
  | fuel + 1 => do
    if (← peek) = .newline then
      skip
      if (← peek) = .indent then
        skip
        blockRest fuel []
      else fail .missingBlock
    else simpleStatements fuel []

/-- The statements of an indented block, each list of them before the ones read earlier. -/
def blockRest : (fuel : Nat) → (done : List (List Statement)) → Parse (List Statement)
  | 0, _ => fail .tooDeep
  | fuel + 1, done => do
    match ← peek with
    | .dedent => do
      skip
      return done.reverse.flatten
    | .eof => return done.reverse.flatten
    | .newline => do
      skip
      blockRest fuel done
    | _ => do blockRest fuel ((← statement fuel) :: done)

end

/-- The statements of a whole text. -/
def statements : (fuel : Nat) → (done : List (List Statement)) → Parse (List Statement)
  | 0, _ => fail .tooDeep
  | fuel + 1, done => do
    match ← peek with
    | .eof => return done.reverse.flatten
    | .newline => do
      skip
      statements fuel done
    | _ => do statements fuel ((← statement fuel) :: done)

/-- The nesting that is enough for a number of tokens. -/
def nestingBound (tokens : List Placed) : Nat := 20 * (tokens.length + 2)

/-- Reads a script. -/
def parse (source : String) : Except SyntaxError (List Statement) := do
  let tokens ← tokenize source.toList
  let (body, _) ← statements (nestingBound tokens) [] tokens
  return body

end ModelGraph.Script
