import ModelGraph.Proofs.Script.Writing

/-!
# Programs as they are written

Statements over surface expressions, with the layout of their lines: how many blanks more than its
parent each block is indented, and which lines without statements stand before each line. A header or
a simple statement stands on a line of its own.
-/

namespace ModelGraph.Script

/-! ## Lines -/

/-- A line without a statement: blanks, and a comment or none. -/
structure Gap where
  blanks : List Char
  comment : Option String
  blank_of_mem : ∀ c ∈ blanks, c ∈ [' ', '\t', '\x0c', '\r']
  newline_notMem : ∀ text ∈ comment, '\n' ∉ text.toList

/-- What stands behind the blanks of a line without a statement. -/
def Gap.remark (g : Gap) : List Char :=
  match g.comment with
  | none => []
  | some text => '#' :: text.toList

def Gap.text (g : Gap) : List Char := g.blanks ++ g.remark

/-- A line of a text: one without a statement, or tokens behind a number of blanks. -/
inductive TextLine where
  | gap (gap : Gap)
  | code (width : Nat) (tokens : List Token)

def TextLine.text (style : Style) : TextLine → List Char
  | gap g => g.text
  | code width tokens => List.replicate width ' ' ++ style.spaced tokens

/-- The characters of lines, with line ends between them. -/
def textOf (style : Style) (lines : List TextLine) : List Char :=
  ['\n'].intercalate (lines.map (TextLine.text style))

/-- A line of tokens with the lines without statements before it. -/
def lineAfter (gaps : List Gap) (width : Nat) (tokens : List Token) : List TextLine :=
  gaps.map .gap ++ [.code width tokens]

/-! ## Simple statements -/

/-- What may stand where several expressions make a tuple: one expression, or some without
parentheses, where a comma follows the first and stands between the others. -/
inductive Listing where
  | one (e : Surface)
  | bare (first : Surface) (others : List Surface)

namespace Listing

def tokens : Listing → List Token
  | one e => e.tokens
  | bare first others => first.tokens ++ .op "," :: commas (others.map Surface.tokens)

def first : Listing → Surface
  | one e => e
  | bare first _ => first

def lower : Listing → Expr
  | one e => e.lower
  | bare first others => .tuple (first.lower :: others.map Surface.lower)

end Listing

/-- What a statement may begin with: no keyword begins an expression but `not`, and a statement cannot
begin with that one. -/
structure Opening where
  listing : Listing
  head?_tokens_ne : listing.tokens.head? ≠ some (.name "not")

/-- The tokens of an expression that a mark announces, if there is one. -/
def markedTokens (mark : String) : Option Surface → List Token
  | none => []
  | some e => .op mark :: e.tokens

/-- Identifiers with points between them. -/
structure DottedName where
  first : Identifier
  members : List Identifier

namespace DottedName

def tokens (n : DottedName) : List Token :=
  .name n.first.name :: n.members.flatMap fun member => [.op ".", .name member.name]

def text (n : DottedName) : String :=
  n.members.foldl (fun text member => text ++ "." ++ member.name) n.first.name

end DottedName

/-- What an import names, and the local name given to it. -/
structure Imported (α : Type) where
  source : α
  localName : Option Identifier

namespace Imported

variable {α : Type}

def tokens (run : α → List Token) (i : Imported α) : List Token :=
  run i.source ++ match i.localName with
    | none => []
    | some n => [.name "as", .name n.name]

def lower (text : α → String) (i : Imported α) : ImportName :=
  ⟨text i.source, i.localName.map (·.name)⟩

end Imported

inductive SimpleStatement where
  | pass
  | return (value : Option Listing)
  | declare (name : Identifier) (declaredType : Surface)
  | assign (target : Opening) (declaredType : Option Surface) (value : Listing)
  | expr (value : Opening)
  | imports (first : Imported DottedName) (others : List (Imported DottedName))
  | importsFrom (module : DottedName) (first : Imported Identifier)
      (others : List (Imported Identifier))

namespace SimpleStatement

def tokens : SimpleStatement → List Token
  | pass => [.name "pass"]
  | .return none => [.name "return"]
  | .return (some value) => .name "return" :: value.tokens
  | declare name declaredType => .name name.name :: .op ":" :: declaredType.tokens
  | assign target declaredType value =>
    target.listing.tokens ++ markedTokens ":" declaredType ++ .op "=" :: value.tokens
  | expr value => value.listing.tokens
  | imports first others =>
    .name "import" :: commas ((first :: others).map (Imported.tokens DottedName.tokens))
  | importsFrom module first others =>
    .name "from" :: module.tokens ++
      .name "import" :: commas ((first :: others).map (Imported.tokens ([.name ·.name])))

/-- The statement that is meant. The type that an assignment declares is dropped. -/
def lower : SimpleStatement → Statement
  | pass => .pass
  | .return value => .return (value.map Listing.lower)
  | declare name declaredType => .declare name.name (some declaredType.lower)
  | assign target _ value => .assign target.listing.lower value.lower
  | expr value => .expr value.listing.lower
  | imports first others => .imports ((first :: others).map (Imported.lower DottedName.text))
  | importsFrom module first others =>
    .importsFrom module.text ((first :: others).map (Imported.lower Identifier.name))

end SimpleStatement

/-! ## Headers of blocks -/

structure SurfaceParameter where
  name : Identifier
  declaredType : Option Surface
  default : Option Surface

namespace SurfaceParameter

def tokens (p : SurfaceParameter) : List Token :=
  .name p.name.name :: markedTokens ":" p.declaredType ++ markedTokens "=" p.default

def lower (p : SurfaceParameter) : Parameter :=
  ⟨p.name.name, p.declaredType.map Surface.lower, p.default.map Surface.lower⟩

end SurfaceParameter

/-- What announces a block that stands alone. A class may have no parentheses after its name, and a
loop has one target and one iterable or more. -/
inductive Header where
  | defineFunction (name : Identifier) (parameters : List SurfaceParameter)
      (returns : Option Surface)
  | defineClass (name : Identifier) (bases : Option (List Surface))
  | for (target : Surface) (targets : List Surface) (iterable : Surface) (iterables : List Surface)
  | while (condition : Surface)

namespace Header

def tokens : Header → List Token
  | defineFunction name parameters returns =>
    .name "def" :: .name name.name :: .op "(" :: commas (parameters.map SurfaceParameter.tokens) ++
      .op ")" :: markedTokens "->" returns ++ [.op ":"]
  | defineClass name none => [.name "class", .name name.name, .op ":"]
  | defineClass name (some bases) =>
    .name "class" :: .name name.name :: .op "(" :: commas (bases.map Surface.tokens) ++
      [.op ")", .op ":"]
  | .for target targets iterable iterables =>
    .name "for" :: commas ((target :: targets).map (Surface.tokensAt 4)) ++
      .name "in" :: commas ((iterable :: iterables).map Surface.tokens) ++ [.op ":"]
  | .while condition => .name "while" :: condition.tokens ++ [.op ":"]

/-- The statement that a header and its block make. -/
def lower (body : List Statement) : Header → Statement
  | defineFunction name parameters returns =>
    .defineFunction name.name (parameters.map SurfaceParameter.lower) (returns.map Surface.lower) body
  | defineClass name bases => .defineClass name.name ((bases.getD []).map Surface.lower) body
  | .for target targets iterable iterables =>
    .for ((target :: targets).map Surface.lower) ((iterable :: iterables).map Surface.lower) body
  | .while condition => .while condition.lower body

end Header

/-! ## Statements -/

mutual

/-- A statement with its layout. A block is indented by one blank more than the number given. -/
inductive SurfaceStatement where
  | simple (gaps : List Gap) (statement : SimpleStatement)
  | compound (gaps : List Gap) (header : Header) (indent : Nat) (body : SurfaceBlock)
  | branch (gaps : List Gap) (condition : Surface) (indent : Nat) (body : SurfaceBlock)
      (tail : SurfaceTail)

/-- One statement or more. -/
inductive SurfaceBlock where
  | last (statement : SurfaceStatement)
  | cons (statement : SurfaceStatement) (rest : SurfaceBlock)

/-- What follows the first block of a branch. -/
inductive SurfaceTail where
  | none
  | elif (gaps : List Gap) (condition : Surface) (indent : Nat) (body : SurfaceBlock)
      (tail : SurfaceTail)
  | else (gaps : List Gap) (indent : Nat) (body : SurfaceBlock)

end

mutual

/-- The statement without layout that is meant. -/
def SurfaceStatement.lower : SurfaceStatement → Statement
  | .simple _ statement => statement.lower
  | .compound _ header _ body => header.lower body.lower
  | .branch _ condition _ body tail => .branch condition.lower body.lower tail.lower

def SurfaceBlock.lower : SurfaceBlock → List Statement
  | .last statement => [statement.lower]
  | .cons statement rest => statement.lower :: rest.lower

/-- A further condition is a branch of its own. -/
def SurfaceTail.lower : SurfaceTail → List Statement
  | .none => []
  | .elif _ condition _ body tail => [.branch condition.lower body.lower tail.lower]
  | .else _ _ body => body.lower

end

mutual

/-- The lines of a statement that is indented by a width. -/
def SurfaceStatement.lines : SurfaceStatement → (width : Nat) → List TextLine
  | .simple gaps statement, width => lineAfter gaps width statement.tokens
  | .compound gaps header indent body, width =>
    lineAfter gaps width header.tokens ++ body.lines (width + indent + 1)
  | .branch gaps condition indent body tail, width =>
    lineAfter gaps width (.name "if" :: condition.tokens ++ [.op ":"]) ++
      (body.lines (width + indent + 1) ++ tail.lines width)

def SurfaceBlock.lines : SurfaceBlock → (width : Nat) → List TextLine
  | .last statement, width => statement.lines width
  | .cons statement rest, width => statement.lines width ++ rest.lines width

def SurfaceTail.lines : SurfaceTail → (width : Nat) → List TextLine
  | .none, _ => []
  | .elif gaps condition indent body tail, width =>
    lineAfter gaps width (.name "elif" :: condition.tokens ++ [.op ":"]) ++
      (body.lines (width + indent + 1) ++ tail.lines width)
  | .else gaps indent body, width =>
    lineAfter gaps width [.name "else", .op ":"] ++ body.lines (width + indent + 1)

end

/-- The lines of a program; those after its last statement have none. -/
def programLines (program : List SurfaceStatement) (ending : List Gap) : List TextLine :=
  program.flatMap (·.lines 0) ++ ending.map .gap

theorem programLines_cons (s : SurfaceStatement) (program : List SurfaceStatement)
    (ending : List Gap) :
    programLines (s :: program) ending = s.lines 0 ++ programLines program ending := by
  rw [programLines, List.flatMap_cons, List.append_assoc]
  rfl

/-- The text of a program. -/
def printProgram (style : Style) (program : List SurfaceStatement) (ending : List Gap) : String :=
  String.ofList (textOf style (programLines program ending))

end ModelGraph.Script
