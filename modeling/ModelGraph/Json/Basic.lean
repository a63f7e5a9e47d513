import ModelGraph.Number.FloatText

/-!
# JSON values

Integers that fit a 64-bit word, signed or not, are kept apart from all other numbers, which are
doubles. The members of an object stand in document order; `Json.settled` is the object as a map: one
member for each name, the last one given, in the order of the names.
-/

namespace ModelGraph

inductive Json where
  | null
  | bool (value : Bool)
  | int (value : Int)
  | float (value : Float)
  /-- A single precision number, by its bits; it is only written. -/
  | single (bits : UInt32)
  | string (value : String)
  | array (items : List Json)
  | object (members : List (String × Json))
  deriving Inhabited

namespace Json

/-- Puts a member into a list ordered by name, in place of one of that name. -/
def insertMember (name : String) (value : Json) :
    List (String × Json) → List (String × Json)
  | [] => [(name, value)]
  | member :: rest =>
    if name < member.1 then (name, value) :: member :: rest
    else if name = member.1 then (name, value) :: rest
    else member :: insertMember name value rest

mutual

/-- The value with every object as a map. -/
def settled : Json → Json
  | .array items => .array (settledItems items)
  | .object members => .object (settledMembers [] members)
  | value => value

def settledItems : List Json → List Json
  | [] => []
  | item :: rest => settled item :: settledItems rest

def settledMembers (done : List (String × Json)) :
    List (String × Json) → List (String × Json)
  | [] => done
  | (name, value) :: rest => settledMembers (insertMember name (settled value) done) rest

end

/-- The value of the last member with the name. -/
def member? (name : String) : Json → Option Json
  | .object members => (members.reverse.find? (·.1 = name)).map (·.2)
  | _ => none

def string? : Json → Option String
  | .string s => some s
  | _ => none

def bool? : Json → Option Bool
  | .bool b => some b
  | _ => none

def int? : Json → Option Int
  | .int i => some i
  | _ => none

def items? : Json → Option (List Json)
  | .array items => some items
  | _ => none

/-- The double of a number. -/
def float? : Json → Option Float
  | .int i => some (floatOfInt i)
  | .float x => some x
  | _ => none

def isArray : Json → Bool
  | .array _ => true
  | _ => false

/-! ## Records

A record is written as an object, whose unknown members are passed over and whose known members come
at most once, or as an array of its fields in order, which may end early. -/

/-- The fields of a record that a value gives, by name. `names` lists the fields in order. -/
def record? (names : List String) : Json → Option (List (String × Json))
  | .object members =>
    let known := members.filter fun m => names.contains m.1
    if (known.map (·.1)).Nodup then some known else none
  | .array items => if items.length ≤ names.length then some (names.zip items) else none
  | _ => none

/-- A field that has to be there. -/
def required? {α : Type} (fields : List (String × Json)) (name : String)
    (read : Json → Option α) : Option α :=
  (fields.lookup name).bind read

/-- A field with a value for its absence. -/
def withDefault? {α : Type} (fields : List (String × Json)) (name : String) (absent : α)
    (read : Json → Option α) : Option α :=
  match fields.lookup name with
  | some value => read value
  | none => some absent

/-- Reads null as nothing. -/
def optional? {α : Type} (read : Json → Option α) : Json → Option (Option α)
  | .null => some none
  | value => (read value).map some

/-- Reads every item of an array. -/
def list? {α : Type} (read : Json → Option α) (value : Json) : Option (List α) :=
  value.items?.bind fun items => items.mapM read

end Json

end ModelGraph
