import ModelGraph.Number.Numeral

/-!
# TOML documents

A document is a table. How a table came to be decides what may be added to it later: a table with a
header of its own takes no dotted keys from elsewhere, a table made by dotted keys takes no header,
and an inline table takes nothing.
-/

namespace ModelGraph.Toml

/-- How a table came to be. -/
inductive TableOrigin where
  /-- By a header of its own. -/
  | header
  /-- As part of the path in another header. -/
  | path
  | dottedKey
  | inline
  deriving DecidableEq, Inhabited

inductive Value where
  | string (s : String)
  | int (i : Int64)
  | float (x : Float)
  | bool (b : Bool)
  /-- A date, a time of day or both. -/
  | moment (text : String)
  | array (items : List Value)
  | table (origin : TableOrigin) (members : List (String × Value))
  /-- An array whose tables have headers. -/
  | tables (items : List (List (String × Value)))
  deriving Inhabited

/-- The members of a table, in document order. -/
abbrev Members := List (String × Value)

namespace Members

def get? (ms : Members) (key : String) : Option Value := ms.lookup key

/-- Changes the value under a key. -/
def set (ms : Members) (key : String) (value : Value) : Members :=
  ms.map fun m => if m.1 = key then (key, value) else m

/-- Adds a member under a new key. -/
def add? (key : String) (value : Value) (ms : Members) : Option Members :=
  if (ms.get? key).isSome then none else some (ms ++ [(key, value)])

/-- Changes the table at a path of header keys. Tables on the way are made if need be; of an array of
tables the last is taken. -/
def atHeader? : (path : List String) → (Members → Option Members) → Members → Option Members
  | [], change, ms => change ms
  | key :: path, change, ms =>
    match ms.get? key with
    | none => do return ms ++ [(key, .table .path (← atHeader? path change []))]
    | some (.table .inline _) => none
    | some (.table origin inner) => do
      return ms.set key (.table origin (← atHeader? path change inner))
    | some (.tables items) => do
      let last ← items.getLast?
      return ms.set key (.tables (items.dropLast ++ [← atHeader? path change last]))
    | some _ => none

/-- Adds a value under a dotted key. The table that takes it is one made by dotted keys. -/
def addDotted? : (path : List String) → (key : String) → Value → Members → Option Members
  | [], key, value, ms => ms.add? key value
  | first :: path, key, value, ms =>
    match ms.get? first with
    | none => do return ms ++ [(first, .table .dottedKey (← addDotted? path key value []))]
    | some (.table origin inner) =>
      if origin = .dottedKey ∨ origin = .path ∧ !path.isEmpty then do
        return ms.set first (.table origin (← addDotted? path key value inner))
      else none
    | some (.tables items) =>
      if path.isEmpty then none
      else do
        let last ← items.getLast?
        return ms.set first (.tables (items.dropLast ++ [← addDotted? path key value last]))
    | some _ => none

/-- Opens the table of a header. -/
def openTable? (key : String) (ms : Members) : Option Members :=
  match ms.get? key with
  | none => some (ms ++ [(key, .table .header [])])
  | some (.table .path inner) => some (ms.set key (.table .header inner))
  | some _ => none

/-- Opens another table of an array. -/
def openItem? (key : String) (ms : Members) : Option Members :=
  match ms.get? key with
  | none => some (ms ++ [(key, .tables [[]])])
  | some (.tables items) => some (ms.set key (.tables (items ++ [[]])))
  | some _ => none

end Members

end ModelGraph.Toml
