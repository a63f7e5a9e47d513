import Mathlib.Data.List.Nodup
import Mathlib.Tactic.SplitIfs
import ModelGraph.Text.Utf8

/-!
# UTF-8 read back

Reading the UTF-8 form of a text gives the text: every character is read from its own bytes, with
nothing replaced.
-/

namespace ModelGraph.Text

section Sequence

variable {b : UInt8} (rest : Bytes)

theorem decodeFrom_ascii (h : b.toNat < 0x80) :
    decodeFrom none (b :: rest) = some (Char.ofNat b.toNat) :: decodeFrom none rest := by
  simp [decodeFrom, h]

theorem decodeFrom_lead {bits following low high : Nat} (h : ¬ b.toNat < 0x80)
    (hlead : Utf8Lead.of? b.toNat = some ⟨bits, following, low, high⟩) :
    decodeFrom none (b :: rest) = decodeFrom (some ⟨bits, following, low, high⟩) rest := by
  simp [decodeFrom, h, hlead]

theorem decodeFrom_next {code following low high : Nat} (hlow : low ≤ b.toNat)
    (hhigh : b.toNat ≤ high) (h : 1 < following) :
    decodeFrom (some ⟨code, following, low, high⟩) (b :: rest) =
      decodeFrom (some ⟨code * 64 + (b.toNat - 0x80), following - 1, 0x80, 0xBF⟩) rest := by
  simp [decodeFrom, hlow, hhigh, Nat.not_le.mpr h]

theorem decodeFrom_last {code low high : Nat} (hlow : low ≤ b.toNat) (hhigh : b.toNat ≤ high) :
    decodeFrom (some ⟨code, 1, low, high⟩) (b :: rest) =
      some (Char.ofNat (code * 64 + (b.toNat - 0x80))) :: decodeFrom none rest := by
  simp [decodeFrom, hlow, hhigh]

end Sequence

theorem toNat_ofNat_of_lt {n : Nat} (h : n < 256) : (UInt8.ofNat n).toNat = n := by
  simp [Nat.mod_eq_of_lt h]

/-- The first byte of a character of two bytes. -/
theorem lead_two {n : Nat} (hlow : 2 ≤ n) (hhigh : n < 32) :
    Utf8Lead.of? (n + 0xC0) = some ⟨n, 1, 0x80, 0xBF⟩ := by
  rw [Utf8Lead.of?, if_pos (by omega), Nat.add_sub_cancel]

/-- The first byte of a character of three bytes leaves out short forms and surrogates. -/
theorem lead_three {n : Nat} (h : n < 16) :
    Utf8Lead.of? (n + 0xE0) =
      some ⟨n, 2, if n = 0 then 0xA0 else 0x80, if n = 13 then 0x9F else 0xBF⟩ := by
  unfold Utf8Lead.of?
  rw [if_neg (by omega)]
  split_ifs <;> first | omega | (simp <;> omega)

/-- The first byte of a character of four bytes leaves out short forms and what is too large. -/
theorem lead_four {n : Nat} (h : n < 5) :
    Utf8Lead.of? (n + 0xF0) =
      some ⟨n, 3, if n = 0 then 0x90 else 0x80, if n = 4 then 0x8F else 0xBF⟩ := by
  unfold Utf8Lead.of?
  rw [if_neg (by omega), if_neg (by omega), if_neg (by omega), if_neg (by omega)]
  split_ifs <;> first | omega | (simp <;> omega)

/-- A character is read from its own bytes, whatever follows. -/
theorem decodeFrom_utf8EncodeChar (c : Char) (rest : Bytes) :
    decodeFrom none (String.utf8EncodeChar c ++ rest) = some c :: decodeFrom none rest := by
  have hvalid : c.val.toNat < 0xD800 ∨ 0xDFFF < c.val.toNat ∧ c.val.toNat < 0x110000 := c.valid
  have hchar : Char.ofNat c.val.toNat = c := Char.ofNat_toNat c
  unfold String.utf8EncodeChar
  generalize c.val.toNat = v at hvalid hchar
  dsimp only
  split_ifs with hone htwo hthree
  · have hb := toNat_ofNat_of_lt (n := v) (by omega)
    rw [List.singleton_append, decodeFrom_ascii rest (by omega), hb, hchar]
  · have hb := toNat_ofNat_of_lt (n := v / 64 % 32 + 0xC0) (by omega)
    have hb₁ := toNat_ofNat_of_lt (n := v % 64 + 0x80) (by omega)
    have hlead := lead_two (n := v / 64 % 32) (by omega) (by omega)
    rw [List.cons_append, List.singleton_append, decodeFrom_lead _ (by omega) (hb ▸ hlead),
      decodeFrom_last _ (by omega) (by omega), hb₁,
      show v / 64 % 32 * 64 + (v % 64 + 0x80 - 0x80) = v by omega, hchar]
  · have hb := toNat_ofNat_of_lt (n := v / 4096 % 16 + 0xE0) (by omega)
    have hb₁ := toNat_ofNat_of_lt (n := v / 64 % 64 + 0x80) (by omega)
    have hb₂ := toNat_ofNat_of_lt (n := v % 64 + 0x80) (by omega)
    have hlead := lead_three (n := v / 4096 % 16) (by omega)
    rw [List.cons_append, List.cons_append, List.singleton_append,
      decodeFrom_lead _ (by omega) (hb ▸ hlead), decodeFrom_next _ (by split_ifs <;> omega)
        (by split_ifs <;> omega) (by decide), decodeFrom_last _ (by omega) (by omega), hb₁, hb₂]
    have hcode : (v / 4096 % 16 * 64 + (v / 64 % 64 + 0x80 - 0x80)) * 64 +
        (v % 64 + 0x80 - 0x80) = v := by omega
    rw [hcode, hchar]
  · have hb := toNat_ofNat_of_lt (n := v / 262144 % 8 + 0xF0) (by omega)
    have hb₁ := toNat_ofNat_of_lt (n := v / 4096 % 64 + 0x80) (by omega)
    have hb₂ := toNat_ofNat_of_lt (n := v / 64 % 64 + 0x80) (by omega)
    have hb₃ := toNat_ofNat_of_lt (n := v % 64 + 0x80) (by omega)
    have hlead := lead_four (n := v / 262144 % 8) (by omega)
    rw [List.cons_append, List.cons_append, List.cons_append, List.singleton_append,
      decodeFrom_lead _ (by omega) (hb ▸ hlead), decodeFrom_next _ (by split_ifs <;> omega)
        (by split_ifs <;> omega) (by decide), decodeFrom_next _ (by omega) (by omega) (by decide),
      decodeFrom_last _ (by omega) (by omega), hb₁, hb₂, hb₃]
    have hcode : ((v / 262144 % 8 * 64 + (v / 4096 % 64 + 0x80 - 0x80)) * 64 +
        (v / 64 % 64 + 0x80 - 0x80)) * 64 + (v % 64 + 0x80 - 0x80) = v := by omega
    rw [hcode, hchar]

theorem decodeFrom_flatMap (cs : List Char) :
    decodeFrom none (cs.flatMap String.utf8EncodeChar) = cs.map some := by
  induction cs with
  | nil => rfl
  | cons c cs ih => rw [List.flatMap_cons, decodeFrom_utf8EncodeChar, ih, List.map_cons]

/-- Listing bytes from a place on. -/
theorem toList_loop (bytes : ByteArray) (place : Nat) (done : List UInt8) :
    ByteArray.toList.loop bytes place done = done.reverse ++ bytes.data.toList.drop place := by
  induction place, done using ByteArray.toList.loop.induct bytes with
  | case1 place done hlt ih =>
      rw [ByteArray.toList.loop, if_pos hlt, ih]
      have hplace : place < bytes.data.toList.length := hlt
      have hbyte : bytes.get! place = bytes.data.toList[place] := getElem!_pos bytes.data place hlt
      simp [List.drop_eq_getElem_cons hplace, hbyte]
  | case2 place done hge =>
      have hplace : bytes.data.toList.length ≤ place := Nat.le_of_not_lt hge
      rw [ByteArray.toList.loop, if_neg hge, List.drop_eq_nil_of_le hplace, List.append_nil]

theorem utf8_eq (s : String) : utf8 s = s.toByteArray.data.toList := by
  rw [utf8, String.toUTF8_eq_toByteArray, ByteArray.toList, toList_loop]
  rfl

theorem utf8_append (s t : String) : utf8 (s ++ t) = utf8 s ++ utf8 t := by
  simp [utf8_eq]

theorem utf8_eq_flatMap (s : String) : utf8 s = s.toList.flatMap String.utf8EncodeChar := by
  rw [utf8_eq, ← String.utf8Encode_toList, List.utf8Encode]
  simp

/-- Reading undoes writing. -/
@[simp] theorem utf8Lossy_utf8 (s : String) : utf8Lossy (utf8 s) = s := by
  rw [utf8Lossy, utf8_eq_flatMap, decodeFrom_flatMap, List.map_map]
  simp [Function.comp_def]

/-- The bytes of a text as one number. In a long list of texts the numbers are compared at once, where
the texts would have to be taken apart for each pair. -/
def number (s : String) : Nat := s.toByteArray.data.toList.foldl (fun n b => 256 * n + b.toNat) 0

theorem nodup_of_number {texts : List String} (h : (texts.map number).Nodup) : texts.Nodup :=
  List.Nodup.of_map number h

end ModelGraph.Text
