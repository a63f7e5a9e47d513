import ModelGraph.Pickle.Load

/-!
# Object graphs and their pickles

A finite acyclic graph of objects is a list of objects whose parts are scalars and earlier objects.
Its pickle is written depth first: an object that is met again is fetched from the memo, where it was
put under a number of its own when it was first met.
-/

namespace ModelGraph.Pickle

/-- A text of fewer than 2³² bytes. -/
structure ShortText where
  text : String
  short : (Text.utf8 text).length < 0x100000000

/-- A byte string of fewer than 2³² bytes. -/
structure ShortBytes where
  data : Bytes
  short : data.length < 0x100000000

/-- A scalar, or one of the first `n` objects. -/
inductive Item (n : Nat) where
  | none
  | bool (b : Bool)
  | int (i : Int64)
  | float (bits : UInt64)
  | text (s : ShortText)
  | object (j : Fin n)

/-- An object whose parts are scalars and the first `n` objects. -/
inductive Node (n : Nat) where
  | bytes (data : ShortBytes)
  | list (items : List (Item n))
  | tuple (items : List (Item n))
  | dict (entries : List (ShortText × Item n)) (distinct : (entries.map (·.1.text)).Nodup)

/-- Objects in an order in which parts come before wholes. -/
inductive ObjectGraph : (size : Nat) → Type where
  | empty : ObjectGraph 0
  | add {n : Nat} (older : ObjectGraph n) (newest : Node n) : ObjectGraph (n + 1)

/-! ## What a graph means on a heap -/

/-- The value of an item, given the places of the objects on the heap. -/
def Item.value {n : Nat} (place : Nat → Nat) : Item n → Value
  | .none => .none
  | .bool b => .bool b
  | .int i => .int i
  | .float bits => .float (Float.ofBits bits)
  | .text s => .str s.text
  | .object j => .ref (place j)

/-- The object of a node. A tuple is read back as a list. -/
def Node.object {n : Nat} (place : Nat → Nat) : Node n → Object
  | .bytes data => .bytes data.data
  | .list items | .tuple items => .list (items.map (·.value place))
  | .dict entries _ => .dict ⟨entries.map fun e => (.str e.1.text, e.2.value place)⟩

/-- The object that an item is, if it is one. -/
def Item.part? {n : Nat} : Item n → Option Nat
  | .object j => some j
  | _ => Option.none

def Node.items {n : Nat} : Node n → List (Item n)
  | .bytes _ => []
  | .list items | .tuple items => items
  | .dict entries _ => entries.map (·.2)

/-- The objects that are parts of a node. -/
def Node.parts {n : Nat} (node : Node n) : List Nat := node.items.filterMap Item.part?

namespace ObjectGraph

/-- The object with a number. -/
def object? (place : Nat → Nat) : {n : Nat} → ObjectGraph n → Nat → Option Object
  | _, .empty, _ => none
  | _, .add (n := n) older newest, j =>
    if j = n then some (newest.object place) else older.object? place j

/-- The parts of the object with a number. -/
def parts : {n : Nat} → ObjectGraph n → Nat → List Nat
  | _, .empty, _ => []
  | _, .add (n := n) older newest, j => if j = n then newest.parts else older.parts j

/-- The objects that can be reached from an item. -/
inductive Reaches {n : Nat} (g : ObjectGraph n) (root : Item n) : Nat → Prop where
  | root {j : Nat} (h : root.part? = some j) : Reaches g root j
  | part {j k : Nat} (h : Reaches g root j) (hpart : k ∈ g.parts j) : Reaches g root k

end ObjectGraph

/-! ## Writing pickles -/

/-- Numbers for the memo: every object has its own, below 2³². -/
structure Numbering (size : Nat) where
  number : Nat → Nat
  short : ∀ j < size, number j < 0x100000000
  injective : ∀ j < size, ∀ k < size, number j = number k → j = k

/-- An integer in four bytes if it fits, else in eight. -/
def encodeInt (i : Int64) : Bytes :=
  if -0x80000000 ≤ i.toInt ∧ i.toInt < 0x80000000 then 0x4a :: bytesOfInt 4 i.toInt
  else 0x8a :: 0x08 :: bytesOfInt 8 i.toInt

/-- A text with its length. -/
def encodeText (s : ShortText) : Bytes :=
  0x58 :: (bytesOfNat 4 (Text.utf8 s.text).length ++ Text.utf8 s.text)

/-- A qualified name, in two lines. -/
def encodeGlobal (module name : String) : Bytes :=
  0x63 :: (Text.utf8 module ++ [10] ++ (Text.utf8 name ++ [10]))

/-- The instructions of a pickle, perhaps with a header that names the protocol, to its end. -/
def pickled (protocol : Option UInt8) (body : Bytes) : Bytes :=
  (protocol.elim [] fun version => [0x80, version]) ++ body ++ [0x2e]

/-- Puts the top of the stack into the memo. -/
def encodePut (number : Nat) : Bytes := 0x72 :: bytesOfNat 4 number

/-- Fetches a value from the memo. -/
def encodeGet (number : Nat) : Bytes := 0x6a :: bytesOfNat 4 number

section Encode

variable {n : Nat} (object : Nat → List Nat → Bytes × List Nat)

/-- An item, where `object` writes an object. Writers are given the objects met so far, and give the
ones met by then. -/
def encodeItem (item : Item n) (seen : List Nat) : Bytes × List Nat :=
  match item with
  | .none => ([0x4e], seen)
  | .bool b => ([if b then 0x88 else 0x89], seen)
  | .int i => (encodeInt i, seen)
  | .float bits => (0x47 :: (bytesOfNat 8 bits.toNat).reverse, seen)
  | .text s => (encodeText s, seen)
  | .object j => object j seen

def encodeItems : List (Item n) → List Nat → Bytes × List Nat
  | [], seen => ([], seen)
  | item :: rest, seen =>
    let first := encodeItem object item seen
    let others := encodeItems rest first.2
    (first.1 ++ others.1, others.2)

def encodeEntries : List (ShortText × Item n) → List Nat → Bytes × List Nat
  | [], seen => ([], seen)
  | (key, item) :: rest, seen =>
    let first := encodeItem object item seen
    let others := encodeEntries rest first.2
    (encodeText key ++ first.1 ++ others.1, others.2)

/-- An object that is met first, with its own number and its number for the memo. -/
def encodeNode (self number : Nat) (node : Node n) (seen : List Nat) : Bytes × List Nat :=
  match node with
  | .bytes data =>
    (0x42 :: (bytesOfNat 4 data.data.length ++ data.data) ++ encodePut number, self :: seen)
  | .list items =>
    let body := encodeItems object items (self :: seen)
    ([0x5d] ++ encodePut number ++ [0x28] ++ body.1 ++ [0x65], body.2)
  | .tuple items =>
    let body := encodeItems object items seen
    ([0x28] ++ body.1 ++ [0x74] ++ encodePut number, self :: body.2)
  | .dict entries _ =>
    let body := encodeEntries object entries (self :: seen)
    ([0x7d] ++ encodePut number ++ [0x28] ++ body.1 ++ [0x75], body.2)

end Encode

/-- An object: from the memo if it was met, else in full. -/
def ObjectGraph.encode (number : Nat → Nat) :
    {n : Nat} → ObjectGraph n → Nat → List Nat → Bytes × List Nat
  | _, .empty, _, seen => ([], seen)
  | _, .add (n := n) older newest, j, seen =>
    if j ≠ n then older.encode number j seen
    else if n ∈ seen then (encodeGet (number n), seen)
    else encodeNode (older.encode number) n (number n) newest seen

/-- The pickle of an item, perhaps with a header that names the protocol. -/
def ObjectGraph.pickle {n : Nat} (g : ObjectGraph n) (numbering : Numbering n)
    (protocol : Option UInt8) (root : Item n) : Bytes :=
  (protocol.elim [] fun version => [0x80, version]) ++
    (encodeItem (g.encode numbering.number) root []).1 ++ [0x2e]

end ModelGraph.Pickle
