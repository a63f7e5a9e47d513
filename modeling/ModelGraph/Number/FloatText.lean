import ModelGraph.Number.Shortest

/-!
# Texts of floating-point numbers

One printer for every place that writes a float: the digits are the shortest ones that read back, and
a `FloatLayout` says how they are laid out.
-/

namespace ModelGraph

/-- The decisions of one printed form. -/
structure FloatLayout where
  tie : DecimalTie
  /-- The positions of the point, counted from before the first digit, that are written without an
  exponent: above the first and up to the second. Everywhere if absent. -/
  positional : Option (Int × Int)
  /-- Whether an integral number ends in `.0`. -/
  pointZero : Bool
  nan : String
  infinity : String

namespace FloatLayout

/-- The display form: never an exponent, integral numbers without a point. -/
def display : FloatLayout := ⟨.up, none, false, "NaN", "inf"⟩

/-- The form of tensor elements. -/
def element : FloatLayout := ⟨.up, none, false, "NaN", "Infinity"⟩

/-- The form inside a described value. -/
def described : FloatLayout := ⟨.up, some (-4, 16), true, "NaN", "inf"⟩

/-- JSON documents write doubles so; JSON has no word for what is not finite. -/
def jsonDouble : FloatLayout := ⟨.even, some (-5, 16), true, "null", "null"⟩

/-- JSON documents write single precision numbers so. -/
def jsonSingle : FloatLayout := ⟨.even, some (-6, 13), true, "null", "null"⟩

/-- A run of zeros; none for a negative count. -/
def zeros (n : Int) : String := String.ofList (List.replicate n.toNat '0')

/-- Digits with the point at `point`, counted from before the first digit. -/
def plain (layout : FloatLayout) (digits : String) (point : Int) : String :=
  let length : Int := digits.length
  if point ≤ 0 then "0." ++ zeros (-point) ++ digits
  else if point < length then
    let chars := digits.toList
    String.ofList (chars.take point.toNat) ++ "." ++ String.ofList (chars.drop point.toNat)
  else digits ++ zeros (point - length) ++ (if layout.pointZero then ".0" else "")

/-- One digit, the others behind a point, and the power of ten. -/
def scientific (digits : String) (point : Int) : String :=
  match digits.toList with
  | [] => ""
  | first :: others =>
    let fraction := if others.isEmpty then "" else "." ++ String.ofList others
    String.singleton first ++ fraction ++ "e" ++ toString (point - 1)

/-- The text of a positive decimal. -/
def writeDecimal (layout : FloatLayout) (d : Decimal) : String :=
  let digits := toString d.digits
  let point := (digits.length : Int) + d.exponent
  match layout.positional with
  | none => layout.plain digits point
  | some (low, high) =>
    if low < point ∧ point ≤ high then layout.plain digits point else scientific digits point

/-- The text of a number of the format. -/
def write (layout : FloatLayout) (f : BinaryFormat) : BinaryNumber → String
  | .nan => layout.nan
  | .infinite negative =>
    if negative ∧ layout.infinity ≠ "null" then "-" ++ layout.infinity else layout.infinity
  | .finite negative significand exponent =>
    let magnitude :=
      if significand = 0 then (if layout.pointZero then "0.0" else "0")
      else layout.writeDecimal (shortestDecimal f layout.tie significand exponent)
    if negative then "-" ++ magnitude else magnitude

/-- The text of a double. -/
def writeFloat (layout : FloatLayout) (x : Float) : String :=
  layout.write .double (binaryOfFloat x)

/-- The text of a single precision number, given by its bits. -/
def writeSingle (layout : FloatLayout) (bits : UInt32) : String :=
  layout.write .single (BinaryFormat.single.decode bits.toNat)

end FloatLayout

end ModelGraph
