import ModelGraph.Script.Grammar

/-!
# Surface expressions

Expressions with operators, as scripts write them. Lowering replaces every operator by a call of a
function, a chain of comparisons by the conjunction of its pairs, and a slice by a call with its
missing bounds filled in.
-/

namespace ModelGraph.Script

def startsIdentifier (c : Char) : Bool := c.isAlpha || c == '_'

def continuesIdentifier (c : Char) : Bool := c.isAlphanum || c == '_'

/-- Whether a name is an ASCII identifier, a keyword or not. -/
def isWord (name : String) : Bool :=
  match name.toList with
  | [] => false
  | c :: rest => startsIdentifier c && rest.all continuesIdentifier

/-- An ASCII identifier that is no keyword. -/
structure Identifier where
  name : String
  isWord_name : isWord name = true
  not_keyword : isKeyword name = false

inductive BinaryOperator where
  | or | and
  | bitOr | bitAnd
  | add | sub
  | mul | div | floorDiv | remainder | matmul
  deriving DecidableEq

def BinaryOperator.function : BinaryOperator → String
  | .or => "torch.__or__"
  | .and => "torch.__and__"
  | .bitOr => "torch.__or__"
  | .bitAnd => "torch.__and__"
  | .add => "torch.add"
  | .sub => "torch.sub"
  | .mul => "torch.mul"
  | .div => "torch.div"
  | .floorDiv => "torch.floordiv"
  | .remainder => "torch.remainder"
  | .matmul => "torch.matmul"

inductive UnaryOperator where
  | minus | plus | invert
  deriving DecidableEq

/-- A minus sign before an integer becomes part of it, and a plus sign means nothing. -/
def UnaryOperator.lower : UnaryOperator → Expr → Expr
  | .minus, .int i => .int (-i)
  | .minus, e => .callOf "torch.neg" [e]
  | .plus, e => e
  | .invert, e => .callOf "torch.bitwise_not" [e]

inductive ComparisonOperator where
  | eq | ne | lt | le | gt | ge
  | contained | notContained
  | same | notSame
  deriving DecidableEq

/-- The comparison of two neighbours in a chain. -/
def ComparisonOperator.lower (left right : Expr) : ComparisonOperator → Expr
  | .eq => .callOf "torch.eq" [left, right]
  | .ne => .callOf "torch.ne" [left, right]
  | .lt => .callOf "torch.lt" [left, right]
  | .le => .callOf "torch.le" [left, right]
  | .gt => .callOf "torch.gt" [left, right]
  | .ge => .callOf "torch.ge" [left, right]
  | .contained => .callOf "torch.__contains__" [right, left]
  | .notContained => .callOf "torch.__not__" [.callOf "torch.__contains__" [right, left]]
  | .same => .callOf "torch.__is__" [left, right]
  | .notSame => .callOf "torch.__isnot__" [left, right]

/-- The comparisons of neighbours in a chain that begins with `first`. -/
def pairwise (first : Expr) : List (ComparisonOperator × Expr) → List Expr
  | [] => []
  | (op, second) :: others => op.lower first second :: pairwise second others

/-- The conjunction of comparisons, joined to the left. -/
def conjunction (first : Expr) (others : List Expr) : Expr :=
  others.foldl (fun left right => .callOf "torch.__and__" [left, right]) first

/-- An expression as it is written. An integer is below the limit of signed 64-bit words. -/
inductive Surface where
  | name (name : Identifier)
  | text (value : String)
  | integer (value : Fin 0x8000000000000000)
  | list (items : List Surface)
  | tuple (items : List Surface)
  | dict (entries : List (Surface × Surface))
  | attr (target : Surface) (member : Identifier)
  | call (target : Surface) (arguments : List (Option Identifier × Surface))
  /-- A subscript with one index or more. -/
  | index (target first : Surface) (others : List Surface)
  | slice (target : Surface) (start stop step : Option Surface)
  | binary (op : BinaryOperator) (left right : Surface)
  | not (operand : Surface)
  /-- A chain of one comparison or more. -/
  | compare (first : Surface) (op : ComparisonOperator) (second : Surface)
      (others : List (ComparisonOperator × Surface))
  | unary (op : UnaryOperator) (operand : Surface)
  | power (base exponent : Surface)

namespace Surface

mutual

/-- The expression without operators that a surface expression means. -/
def lower : Surface → Expr
  | name n => .id n.name
  | text s => .str s
  | integer n => .int (Int64.ofNat n)
  | list items => .list (lowerAll items)
  | tuple items => .tuple (lowerAll items)
  | dict entries => .dict (lowerEntries entries)
  | attr target member => .attr target.lower member.name
  | call target arguments => .call target.lower (lowerArguments arguments)
  | index target first others => .subscript target.lower (first.lower :: lowerAll others)
  | slice target start stop step =>
    .callOf "torch.slice" [target.lower, (lowerBound start).getD (.int 0),
      (lowerBound stop).getD (.int 9223372036854775807), (lowerBound step).getD (.int 1)]
  | binary op left right => .callOf op.function [left.lower, right.lower]
  | not operand => .callOf "torch.__not__" [operand.lower]
  | compare first op second others =>
    conjunction (op.lower first.lower second.lower) (pairwise second.lower (lowerChain others))
  | unary op operand => op.lower operand.lower
  | power base exponent => .callOf "torch.pow" [base.lower, exponent.lower]

def lowerAll : List Surface → List Expr
  | [] => []
  | e :: rest => e.lower :: lowerAll rest

def lowerEntries : List (Surface × Surface) → List (Expr × Expr)
  | [] => []
  | (key, value) :: rest => (key.lower, value.lower) :: lowerEntries rest

def lowerArguments : List (Option Identifier × Surface) → List (Option String × Expr)
  | [] => []
  | (keyword, value) :: rest => (keyword.map (·.name), value.lower) :: lowerArguments rest

def lowerBound : Option Surface → Option Expr
  | none => none
  | some e => some e.lower

def lowerChain : List (ComparisonOperator × Surface) → List (ComparisonOperator × Expr)
  | [] => []
  | (op, e) :: rest => (op, e.lower) :: lowerChain rest

end

@[simp] theorem lowerAll_eq_map (items : List Surface) : lowerAll items = items.map lower := by
  induction items with
  | nil => rfl
  | cons e rest ih => simp [lowerAll, ih]

@[simp] theorem lowerEntries_eq_map (entries : List (Surface × Surface)) :
    lowerEntries entries = entries.map fun entry => (entry.1.lower, entry.2.lower) := by
  induction entries with
  | nil => rfl
  | cons entry rest ih => simp [lowerEntries, ih]

@[simp] theorem lowerArguments_eq_map (arguments : List (Option Identifier × Surface)) :
    lowerArguments arguments = arguments.map fun a => (a.1.map (·.name), a.2.lower) := by
  induction arguments with
  | nil => rfl
  | cons a rest ih => simp [lowerArguments, ih]

@[simp] theorem lowerBound_eq_map (bound : Option Surface) : lowerBound bound = bound.map lower := by
  cases bound <;> rfl

@[simp] theorem lowerChain_eq_map (chain : List (ComparisonOperator × Surface)) :
    lowerChain chain = chain.map fun link => (link.1, link.2.lower) := by
  induction chain with
  | nil => rfl
  | cons link rest ih => simp [lowerChain, ih]

/-- Induction over surface expressions, with hypotheses for all members of a display, of a call, of a
subscript and of a chain. -/
@[elab_as_elim, induction_eliminator]
theorem induct {motive : Surface → Prop} (name : ∀ n, motive (.name n))
    (text : ∀ s, motive (.text s)) (integer : ∀ n, motive (.integer n))
    (list : ∀ items, (∀ e ∈ items, motive e) → motive (.list items))
    (tuple : ∀ items, (∀ e ∈ items, motive e) → motive (.tuple items))
    (dict : ∀ entries, (∀ entry ∈ entries, motive entry.1 ∧ motive entry.2) →
      motive (.dict entries))
    (attr : ∀ target member, motive target → motive (.attr target member))
    (call : ∀ target arguments, motive target → (∀ a ∈ arguments, motive a.2) →
      motive (.call target arguments))
    (index : ∀ target first others, motive target → motive first → (∀ e ∈ others, motive e) →
      motive (.index target first others))
    (slice : ∀ target start stop step, motive target → (∀ e ∈ start, motive e) →
      (∀ e ∈ stop, motive e) → (∀ e ∈ step, motive e) → motive (.slice target start stop step))
    (binary : ∀ op left right, motive left → motive right → motive (.binary op left right))
    (not : ∀ operand, motive operand → motive (.not operand))
    (compare : ∀ first op second others, motive first → motive second →
      (∀ link ∈ others, motive link.2) → motive (.compare first op second others))
    (unary : ∀ op operand, motive operand → motive (.unary op operand))
    (power : ∀ base exponent, motive base → motive exponent → motive (.power base exponent))
    (e : Surface) : motive e := by
  refine Surface.rec (motive_1 := motive) (motive_2 := fun items => ∀ e ∈ items, motive e)
    (motive_3 := fun entries => ∀ entry ∈ entries, motive entry.1 ∧ motive entry.2)
    (motive_4 := fun arguments => ∀ a ∈ arguments, motive a.2)
    (motive_5 := fun bound => ∀ e ∈ bound, motive e)
    (motive_6 := fun chain => ∀ link ∈ chain, motive link.2)
    (motive_7 := fun entry => motive entry.1 ∧ motive entry.2)
    (motive_8 := fun a => motive a.2) (motive_9 := fun link => motive link.2)
    name text integer list tuple dict attr call index slice binary not compare unary power
    ?_ ?_ ?_ ?_ ?_ ?_ ?_ ?_ ?_ ?_ (fun _ _ hkey hvalue => ⟨hkey, hvalue⟩) (fun _ _ hvalue => hvalue)
    (fun _ _ hsecond => hsecond) e
  case refine_7 => exact fun _ h => absurd h (Option.not_mem_none _)
  case refine_8 => exact fun _ hbound _ h => Option.mem_some_iff.mp h ▸ hbound
  case refine_1 | refine_3 | refine_5 | refine_9 => exact fun _ h => absurd h List.not_mem_nil
  case refine_2 | refine_4 | refine_6 | refine_10 =>
    exact fun _ _ hfirst hothers => List.forall_mem_cons.mpr ⟨hfirst, hothers⟩

end Surface

/-! ## Literals -/

theorem ComparisonOperator.lower_ne_float (op : ComparisonOperator) (left right : Expr) (x : Float) :
    op.lower left right ≠ .float x := by
  cases op <;> simp [lower, Expr.callOf]

theorem conjunction_ne_float {first : Expr} {x : Float} (h : first ≠ .float x)
    (others : List Expr) : conjunction first others ≠ .float x := by
  induction others generalizing first with
  | nil => exact h
  | cons other others ih => exact ih (by simp [Expr.callOf])

/-- No literal of a surface expression has the value of a float. -/
theorem Surface.lower_ne_float (e : Surface) (x : Float) : e.lower ≠ .float x := by
  induction e with
  | compare first op second others =>
      rw [lower]
      exact conjunction_ne_float (op.lower_ne_float _ _ x) _
  | unary op operand ih =>
      cases op with
      | plus => exact ih
      | minus =>
          rw [lower]
          cases operand.lower <;> simp [UnaryOperator.lower, Expr.callOf]
      | invert => simp [lower, UnaryOperator.lower, Expr.callOf]
  | _ => simp [lower, Expr.callOf]

end ModelGraph.Script
