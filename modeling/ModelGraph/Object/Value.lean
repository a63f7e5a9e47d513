import ModelGraph.Number.FloatText
import ModelGraph.Number.Binary
import ModelGraph.OrderedMap
import ModelGraph.Text.Quoted

/-!
# Values of scripts

Scalars stand for themselves; everything else is an object on the heap, named by its number. A
dictionary key is a value in which an integral float counts as the integer.
-/

namespace ModelGraph

inductive Value where
  /-- The absent value. -/
  | none
  | bool (b : Bool)
  | int (i : Int64)
  | float (x : Float)
  | str (s : String)
  /-- The object with this number. -/
  | ref (id : Nat)
  deriving DecidableEq, Inhabited

namespace Value

def isNone : Value → Bool
  | .none => true
  | _ => false

def ref? : Value → Option Nat
  | .ref id => some id
  | _ => Option.none

def str? : Value → Option String
  | .str s => some s
  | _ => Option.none

def bool? : Value → Option Bool
  | .bool b => some b
  | _ => Option.none

/-- The integer of an integer or of an integral float, the nearest word if it is too large. -/
def int? : Value → Option Int64
  | .int i => some i
  | .float x => (integerOfFloat? x).map clampInt64
  | _ => Option.none

/-- The number of an integer or a float; truth values are no numbers here. -/
def float? : Value → Option Float
  | .int i => some (floatOfWord i)
  | .float x => some x
  | _ => Option.none

/-- The size that an integer gives, if it is not negative. -/
def size? (v : Value) : Option Nat := v.int?.bind sizeOfInt64?

def isNumber : Value → Bool
  | .int _ | .float _ => true
  | _ => false

def isNaN : Value → Bool
  | .float x => x.isNaN
  | _ => false

/-- An integer, or not-a-number, which stands for an unknown one. -/
def isIntLike (v : Value) : Bool := v.int?.isSome || v.isNaN

/-- A scalar that is present. -/
def isPrimitive : Value → Bool
  | .none | .ref _ => false
  | _ => true

/-- Whether a value counts as true. Objects always do. -/
def truthy : Value → Bool
  | .none => false
  | .bool b => b
  | .int i => i != 0
  | .float x => x != 0 && !x.isNaN
  | .str s => !s.isEmpty
  | .ref _ => true

/-- The unknown number. -/
def unknown : Value := .float floatNaN

def ofSize (n : Nat) : Value := .int (Int64.ofNat n)

end Value

/-- What a dictionary finds its entries by. -/
inductive Key where
  | none
  | bool (b : Bool)
  | int (i : Int64)
  /-- A float that is not integral. -/
  | float (x : Float)
  | str (s : String)
  | ref (id : Nat)
  deriving DecidableEq, Inhabited

namespace Key

def ofValue (v : Value) : Key :=
  match v with
  | .none => .none
  | .bool b => .bool b
  | .int i => .int i
  | .float x => match v.int? with
    | some i => .int i
    | Option.none => .float x
  | .str s => .str s
  | .ref id => .ref id

def toValue : Key → Value
  | .none => .none
  | .bool b => .bool b
  | .int i => .int i
  | .float x => .float x
  | .str s => .str s
  | .ref id => .ref id

end Key

/-- The text that names the kind of a value and shows its content. -/
def Value.detailed : Value → String
  | .none => "None"
  | .bool b => "Bool(" ++ (if b then "true" else "false") ++ ")"
  | .int i => "Int(" ++ toString i.toInt ++ ")"
  | .float x => "Float(" ++ FloatLayout.described.writeFloat x ++ ")"
  | .str s => "Str(" ++ Text.quoted s ++ ")"
  | .ref id => "Ref(ObjId(" ++ toString id ++ "))"

/-- Named attributes of an object or a scope. -/
abbrev Fields := OrderedMap String Value

abbrev Dict := OrderedMap Key Value

end ModelGraph
