import ModelGraph.Machine.Error
import ModelGraph.Number.Numeral
import ModelGraph.Object.Heap
import ModelGraph.Text.Basic

/-!
# Arithmetic and comparison of values

Truth values count as the integers 0 and 1. Operations on two integers are exact where the result is
a word; every other case goes through floats. Division and remainder round to the floor.
-/

namespace ModelGraph

namespace Value

/-- The integer of an integer or a truth value. -/
def whole? : Value → Option Int64
  | .bool b => some (if b then 1 else 0)
  | .int i => some i
  | _ => Option.none

/-- The number of an integer, a float or a truth value. -/
def number? : Value → Option Float
  | .bool b => some (if b then 1 else 0)
  | v => v.float?

/-- Reads a value as an integer: floats are cut, texts are read, and whatever is no number is
unknown. -/
def toWhole : Value → Value
  | .int i => .int i
  | .bool b => .int (if b then 1 else 0)
  | .float x => ((wordOfFloat? x).map .int).getD unknown
  | .str s => ((int64Numeral? 10 (Text.trim s.toList)).map .int).getD unknown
  | _ => unknown

/-- Reads a value as a float; whatever is no number is unknown. -/
def toFloat : Value → Value
  | .str s => ((floatNumeral? (Text.trim s.toList)).map .float).getD unknown
  | v => (v.number?.map .float).getD unknown

end Value

/-- The quotient of two words rounded to the floor: the one cut toward zero, less one if something is
left and the signs differ. -/
def floorQuotient (a b : Int64) : Int64 :=
  let quotient := a / b
  if a % b != 0 && decide (a < 0) != decide (b < 0) then quotient - 1 else quotient

/-- What is left of a word after another times the floor of their quotient, with the sign of the
divisor. -/
def floorRemainder (a b : Int64) : Int64 :=
  let rest := a % b
  if rest != 0 && decide (rest < 0) != decide (b < 0) then rest + b else rest

inductive ArithmeticOp where
  | add | sub | mul | div | floorDiv | remainder
  deriving DecidableEq, Inhabited

namespace ArithmeticOp

/-- The result on two integers where it is a word; division has none. -/
def onWholes (op : ArithmeticOp) (a b : Int64) : Except TypeFault (Option Int64) :=
  match op with
  | .add => .ok (int64? (a.toInt + b.toInt))
  | .sub => .ok (int64? (a.toInt - b.toInt))
  | .mul => .ok (int64? (a.toInt * b.toInt))
  | .div => .ok none
  | .floorDiv => if b = 0 then .error .divisionByZero else .ok (some (floorQuotient a b))
  | .remainder => if b = 0 then .error .moduloByZero else .ok (some (floorRemainder a b))

def onFloats (op : ArithmeticOp) (a b : Float) : Float :=
  match op with
  | .add => a + b
  | .sub => a - b
  | .mul => a * b
  | .div => a / b
  | .floorDiv => floorFloat (a / b)
  | .remainder => floorRemainderFloat a b

end ArithmeticOp

/-- The order of two floats; not-a-number has none. -/
def orderFloats? (a b : Float) : Option Ordering :=
  if a < b then some .lt
  else if a == b then some .eq
  else if b < a then some .gt
  else none

namespace Heap

def arithmetic (h : Heap) (op : ArithmeticOp) (left right : Value) : Except RunError Value := do
  if let (some a, some b) := (left.whole?, right.whole?) then
    match op.onWholes a b with
    | .error fault => throw (.type fault)
    | .ok (some i) => return .int i
    | .ok none => pure ()
  match left.number?, right.number? with
  | some a, some b => return .float (op.onFloats a b)
  | _, _ => throw (.unsupported (.operands (h.describe left) (h.describe right)))

/-- The order of two texts or two numbers. -/
def compare (h : Heap) (left right : Value) : Except RunError Ordering :=
  match left, right with
  | .str a, .str b => .ok (if a < b then .lt else if a = b then .eq else .gt)
  | _, _ =>
    match (left.number?.bind fun a => right.number?.bind (orderFloats? a)) with
    | some order => .ok order
    | none => .error (.unsupported (.comparison (h.describe left) (h.describe right)))

/-- Equality down to a number of levels of lists. -/
def equalTo (h : Heap) : (depth : Nat) → Value → Value → Bool
  | 0, _, _ => false
  | depth + 1, left, right =>
    match left, right with
    | .str a, .str b => a == b
    | .none, .none => true
    | .ref a, .ref b =>
      a == b ||
        match h.items? left, h.items? right with
        | some xs, some ys =>
          xs.length == ys.length && (xs.zip ys).all fun p => equalTo h depth p.1 p.2
        | _, _ => false
    | _, _ =>
      match left.number?, right.number? with
      | some a, some b => a == b
      | _, _ => false

/-- Equality of values: lists item by item, objects of any other kind only if they are the same.
Lists that hold each other are compared as deep as there are pairs of objects. -/
def equal (h : Heap) (left right : Value) : Bool := h.equalTo (h.size * h.size + 1) left right

end Heap

end ModelGraph
