/-!
# Powers, machine words and sizes

Bytes are lists of `UInt8`. Sizes are natural numbers below `sizeLimit`; the checked operations
answer nothing past it and the saturating ones stop at its last value. Words are read from bytes in
little-endian order.
-/

namespace ModelGraph

/-- Two to the power of `n`. -/
def twoPow (n : Nat) : Nat := Nat.pow 2 n

/-- Ten to the power of `n`. -/
def tenPow (n : Nat) : Nat := Nat.pow 10 n

abbrev Bytes := List UInt8

/-- One more than the largest size that can be addressed. -/
def sizeLimit : Nat := 0x10000000000000000

/-- The largest size that can be addressed. -/
def maxSize : Nat := sizeLimit - 1

def checkedSize (n : Nat) : Option Nat := if n < sizeLimit then some n else none

def checkedMul (a b : Nat) : Option Nat := checkedSize (a * b)

def checkedAdd (a b : Nat) : Option Nat := checkedSize (a + b)

def saturatingMul (a b : Nat) : Nat := min (a * b) maxSize

def saturatingAdd (a b : Nat) : Nat := min (a + b) maxSize

/-- The number with these digits to base 256, lowest first. -/
def natOfBytes : Bytes → Nat
  | [] => 0
  | b :: rest => b.toNat + 256 * natOfBytes rest

/-- The `width` lowest digits of a number to base 256, lowest first. -/
def bytesOfNat : (width : Nat) → Nat → Bytes
  | 0, _ => []
  | width + 1, n => UInt8.ofNat n :: bytesOfNat width (n / 256)

/-- The two's complement reading of bytes, lowest first. -/
def intOfBytes (bytes : Bytes) : Int :=
  (natOfBytes bytes : Int).bmod (twoPow (8 * bytes.length))

/-- The `width` bytes of a two's complement integer, lowest first. -/
def bytesOfInt (width : Nat) (i : Int) : Bytes :=
  bytesOfNat width (i % twoPow (8 * width)).toNat

@[simp] theorem length_bytesOfNat (width n : Nat) : (bytesOfNat width n).length = width := by
  induction width generalizing n with
  | zero => rfl
  | succ width ih => simp [bytesOfNat, ih]

/-- Whether an integer is a signed 64-bit word. -/
def inInt64 (i : Int) : Bool := -0x8000000000000000 ≤ i && i < 0x8000000000000000

/-- The signed 64-bit word of an integer in range. -/
def int64? (i : Int) : Option Int64 := if inInt64 i then some (Int64.ofInt i) else none

/-- The signed 64-bit word nearest to an integer. -/
def clampInt64 (i : Int) : Int64 :=
  Int64.ofInt (max (-0x8000000000000000) (min 0x7fffffffffffffff i))

/-- The size that a word gives, if it is not negative. -/
def sizeOfInt64? (i : Int64) : Option Nat :=
  if 0 ≤ i.toInt then some i.toInt.toNat else none

end ModelGraph
