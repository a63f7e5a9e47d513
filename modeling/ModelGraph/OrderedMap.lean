/-!
# Maps in insertion order

A list of pairs with distinct keys. A key keeps the place where it was first inserted; a later
insertion changes its value only. A map that is built from many pairs keeps an index of the places
while it grows, so that no key is searched for.
-/

namespace ModelGraph

structure OrderedMap (κ : Type) (υ : Type) where
  entries : List (κ × υ) := []
  deriving DecidableEq, Inhabited

namespace OrderedMap

variable {κ υ : Type} [DecidableEq κ]

def empty : OrderedMap κ υ := ⟨[]⟩

def size (m : OrderedMap κ υ) : Nat := m.entries.length

def isEmpty (m : OrderedMap κ υ) : Bool := m.entries.isEmpty

def keys (m : OrderedMap κ υ) : List κ := m.entries.map (·.1)

def values (m : OrderedMap κ υ) : List υ := m.entries.map (·.2)

/-- The value under a key. -/
def get? (m : OrderedMap κ υ) (key : κ) : Option υ := m.entries.lookup key

def contains (m : OrderedMap κ υ) (key : κ) : Bool := (m.get? key).isSome

/-- The place of a key. -/
def position? (m : OrderedMap κ υ) (key : κ) : Option Nat := m.keys.idxOf? key

/-- Puts a value under a key: in the key's place, or at the end if it is new. -/
def insertEntry (key : κ) (value : υ) : List (κ × υ) → List (κ × υ)
  | [] => [(key, value)]
  | entry :: rest =>
    if entry.1 = key then (key, value) :: rest else entry :: insertEntry key value rest

def insert (m : OrderedMap κ υ) (key : κ) (value : υ) : OrderedMap κ υ :=
  ⟨insertEntry key value m.entries⟩

/-- Changes the value under a key, or inserts the change of the default. -/
def update (m : OrderedMap κ υ) (key : κ) (absent : υ) (change : υ → υ) : OrderedMap κ υ :=
  m.insert key (change ((m.get? key).getD absent))

end OrderedMap

/-- A map in insertion order with the place of each of its keys. -/
structure IndexedMap (κ : Type) (υ : Type) where
  entries : Array (κ × υ)
  index : κ → Option Nat

namespace IndexedMap

variable {κ υ : Type} [DecidableEq κ]

def empty : IndexedMap κ υ := ⟨#[], fun _ => none⟩

def size (m : IndexedMap κ υ) : Nat := m.entries.size

def keys (m : IndexedMap κ υ) : List κ := m.entries.toList.map (·.1)

/-- The value at the place of a key. -/
def get? (m : IndexedMap κ υ) (key : κ) : Option υ :=
  (m.index key).bind fun place => m.entries[place]?.map (·.2)

def contains (m : IndexedMap κ υ) (key : κ) : Bool := (m.index key).isSome

/-- Puts a value under a key. The place of the key is looked up; a new key gets the place behind all
others. -/
def insert (m : IndexedMap κ υ) (key : κ) (value : υ) : IndexedMap κ υ :=
  match m.index key with
  | some place => { m with entries := m.entries.modify place fun entry => (entry.1, value) }
  | none =>
    { entries := m.entries.push (key, value)
      index := fun other => if other = key then some m.entries.size else m.index other }

/-- The insertions of a list, one after another. -/
def ofList (inserted : List (κ × υ)) : IndexedMap κ υ :=
  inserted.foldl (fun m e => m.insert e.1 e.2) empty

/-- The map without the index. -/
def toOrderedMap (m : IndexedMap κ υ) : OrderedMap κ υ := ⟨m.entries.toList⟩

end IndexedMap

def OrderedMap.ofList {κ υ : Type} [DecidableEq κ] (entries : List (κ × υ)) : OrderedMap κ υ :=
  (IndexedMap.ofList entries).toOrderedMap

end ModelGraph
