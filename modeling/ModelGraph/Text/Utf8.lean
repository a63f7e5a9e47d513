import ModelGraph.Number.Word

/-!
# Text from bytes

Decoding of UTF-8 that never fails: each longest invalid start of a sequence is read as one
replacement character. Latin-1 reads each byte as the character of that number.
-/

namespace ModelGraph.Text

def replacement : Char := Char.ofNat 0xFFFD

/-- The character of each byte's number. -/
def latin1 (bytes : Bytes) : String := String.ofList (bytes.map fun b => Char.ofNat b.toNat)

/-- The lowest byte of every character; undoes `latin1`. -/
def lowBytes (s : String) : Bytes := s.toList.map fun c => UInt8.ofNat c.toNat

/-- What a first byte asks for: the bits it gives, the number of bytes that follow, and the bounds of
the first of them. -/
structure Utf8Lead where
  bits : Nat
  following : Nat
  low : Nat
  high : Nat

/-- The reading of a first byte past ASCII. The bounds leave out overlong forms, surrogates and what
lies past the last code point. -/
def Utf8Lead.of? (b : Nat) : Option Utf8Lead :=
  if 0xC2 ≤ b ∧ b ≤ 0xDF then some ⟨b - 0xC0, 1, 0x80, 0xBF⟩
  else if b = 0xE0 then some ⟨0, 2, 0xA0, 0xBF⟩
  else if b = 0xED then some ⟨0xD, 2, 0x80, 0x9F⟩
  else if 0xE1 ≤ b ∧ b ≤ 0xEF then some ⟨b - 0xE0, 2, 0x80, 0xBF⟩
  else if b = 0xF0 then some ⟨0, 3, 0x90, 0xBF⟩
  else if 0xF1 ≤ b ∧ b ≤ 0xF3 then some ⟨b - 0xF0, 3, 0x80, 0xBF⟩
  else if b = 0xF4 then some ⟨4, 3, 0x80, 0x8F⟩
  else none

/-- A sequence that has begun: the code point so far, the number of bytes to come, and the bounds of
the next one. -/
structure Utf8Pending where
  code : Nat
  following : Nat
  low : Nat
  high : Nat

/-- The characters of bytes, with `none` for each invalid sequence, after a pending start. -/
def decodeFrom : Option Utf8Pending → Bytes → List (Option Char)
  | none, [] => []
  | some _, [] => [none]
  | none, b :: rest =>
    let n := b.toNat
    if n < 0x80 then some (Char.ofNat n) :: decodeFrom none rest
    else
      match Utf8Lead.of? n with
      | some lead => decodeFrom (some ⟨lead.bits, lead.following, lead.low, lead.high⟩) rest
      | none => none :: decodeFrom none rest
  | some p, b :: rest =>
    let n := b.toNat
    if p.low ≤ n ∧ n ≤ p.high then
      let code := p.code * 64 + (n - 0x80)
      if p.following ≤ 1 then some (Char.ofNat code) :: decodeFrom none rest
      else decodeFrom (some ⟨code, p.following - 1, 0x80, 0xBF⟩) rest
    else
      -- The byte that does not fit begins anew.
      none ::
        if n < 0x80 then some (Char.ofNat n) :: decodeFrom none rest
        else
          match Utf8Lead.of? n with
          | some lead => decodeFrom (some ⟨lead.bits, lead.following, lead.low, lead.high⟩) rest
          | none => none :: decodeFrom none rest

/-- Reads UTF-8, replacing what is invalid. -/
def utf8Lossy (bytes : Bytes) : String :=
  String.ofList ((decodeFrom none bytes).map (·.getD replacement))

/-- Reads UTF-8 that is valid throughout. -/
def utf8? (bytes : Bytes) : Option String :=
  ((decodeFrom none bytes).mapM id).map String.ofList

/-- The UTF-8 form of a string. -/
def utf8 (s : String) : Bytes := s.toUTF8.toList

end ModelGraph.Text
