import Mathlib.Data.List.TakeWhile
import ModelGraph.Number.Numeral

/-!
# Reading the digits of a number

The digits of a number, to base ten or to base sixteen in a fixed width, read back as that number.
-/

namespace ModelGraph

/-- The last `width` digits of a number to base sixteen. -/
def hexDigits : (width : Nat) → Nat → List Char
  | 0, _ => []
  | width + 1, n => hexDigits width (n / 16) ++ [Nat.digitChar (n % 16)]

@[simp] theorem length_hexDigits (width n : Nat) : (hexDigits width n).length = width := by
  induction width generalizing n with
  | zero => rfl
  | succ width ih => simp [hexDigits, ih]

theorem take_hexDigits_append (width n : Nat) (rest : List Char) :
    (hexDigits width n ++ rest).take width = hexDigits width n :=
  List.take_left' (length_hexDigits width n)

theorem drop_hexDigits_append (width n : Nat) (rest : List Char) :
    (hexDigits width n ++ rest).drop width = rest :=
  List.drop_left' (length_hexDigits width n)

theorem toNat_of_isDigit {c : Char} (h : c.isDigit) : 48 ≤ c.toNat ∧ c.toNat ≤ 57 := by
  simp only [Char.isDigit, Bool.and_eq_true, decide_eq_true_eq] at h
  exact ⟨UInt32.le_iff_toNat_le.mp h.1, UInt32.le_iff_toNat_le.mp h.2⟩

theorem le_of_isDigit {c : Char} (h : c.isDigit) : '0' ≤ c ∧ c ≤ '9' := by
  have hbounds := toNat_of_isDigit h
  exact ⟨UInt32.le_iff_toNat_le.mpr hbounds.1, UInt32.le_iff_toNat_le.mpr hbounds.2⟩

theorem digitValue?_of_isDigit {c : Char} (h : c.isDigit) :
    digitValue? 10 c = some (c.toNat - '0'.toNat) := by
  have hbounds := toNat_of_isDigit h
  have hlt : c.toNat - 48 < 10 := by omega
  simp [digitValue?, le_of_isDigit h, Option.filter, hlt]

theorem digitsFrom?_append (base start : Nat) (xs ys : List Char) :
    digitsFrom? base start (xs ++ ys) =
      (digitsFrom? base start xs).bind fun n => digitsFrom? base n ys := by
  induction xs generalizing start with
  | nil => rfl
  | cons c xs ih =>
      simp only [List.cons_append, digitsFrom?]
      cases digitValue? base c with
      | none => rfl
      | some d => exact ih _

/-- Decimal digits read as the number that they are the positional notation of. -/
theorem digitsFrom?_ten (start : Nat) (cs : List Char) (h : ∀ c ∈ cs, c.isDigit) :
    digitsFrom? 10 start cs = some (Nat.ofDigitChars 10 cs start) := by
  induction cs generalizing start with
  | nil => simp [digitsFrom?]
  | cons c cs ih =>
      have hc := digitValue?_of_isDigit (h c (by simp))
      have hrest := ih (start * 10 + (c.toNat - '0'.toNat)) fun d hd => h d (by simp [hd])
      rw [digitsFrom?, hc, Option.bind_some, hrest, Nat.ofDigitChars_cons, Nat.mul_comm start]

theorem isDigit_of_mem_decimal {n : Nat} {c : Char} (h : c ∈ Nat.toDigits 10 n) : c.isDigit :=
  Nat.isDigit_of_mem_toDigits (by decide) (by decide) h

@[simp] theorem digits?_toDigits (n : Nat) : digits? 10 (Nat.toDigits 10 n) = some n := by
  have hread := digitsFrom?_ten 0 (Nat.toDigits 10 n) fun c hc => isDigit_of_mem_decimal hc
  simp [digits?, hread]

theorem toList_toString (n : Nat) : (toString n).toList = Nat.toDigits 10 n := String.toList_ofList

theorem toString_inj {m n : Nat} : toString m = toString n ↔ m = n := by
  refine ⟨fun h => ?_, fun h => h ▸ rfl⟩
  have hdigits : some m = some n := by
    rw [← digits?_toDigits m, ← digits?_toDigits n, ← toList_toString, ← toList_toString, h]
  exact Option.some.inj hdigits

/-- A run of digits has no sign, so it is read as it stands. -/
theorem intNumeral?_of_isDigit (base : Nat) (cs : List Char) (h : ∀ c ∈ cs, c.isDigit) :
    intNumeral? base cs = (digits? base cs).map fun n : Nat => (n : Int) := by
  cases cs with
  | nil => rfl
  | cons c cs =>
      have hc := h c (by simp)
      have hminus : c ≠ '-' := by rintro rfl; exact absurd hc (by decide)
      have hplus : c ≠ '+' := by rintro rfl; exact absurd hc (by decide)
      simp only [intNumeral?, natNumeral?, List.cons.injEq, hminus, hplus, false_and, imp_self,
        implies_true]
      cases digits? base (c :: cs) <;> rfl

theorem inInt64_of_lt {n : Nat} (h : n < 0x8000000000000000) : inInt64 n := by
  have hlower : (-0x8000000000000000 : Int) ≤ n := by omega
  have hupper : (n : Int) < 0x8000000000000000 := by omega
  simp only [inInt64, hlower, hupper, decide_true, Bool.and_self]

/-- The decimal digits of a number read as its word, if it has one. -/
theorem int64Numeral?_decimal (n : Nat) : int64Numeral? 10 (Nat.toDigits 10 n) = int64? n := by
  have hread := intNumeral?_of_isDigit 10 (Nat.toDigits 10 n) fun c hc => isDigit_of_mem_decimal hc
  rw [int64Numeral?, hread, digits?_toDigits, Option.map_some, Option.bind_some]

/-- The decimal digits of a number read as the double nearest to it. -/
theorem floatNumeral?_decimal (n : Nat) :
    floatNumeral? (Nat.toDigits 10 n) = some (floatOfDecimal false n 0) := by
  have hdigits : ∀ c ∈ Nat.toDigits 10 n, isDigit c := fun c hc => by
    have hbounds := le_of_isDigit (isDigit_of_mem_decimal hc)
    simp [isDigit, hbounds]
  have htake : (Nat.toDigits 10 n).takeWhile isDigit = Nat.toDigits 10 n :=
    List.takeWhile_eq_self_iff.mpr hdigits
  have hdrop : (Nat.toDigits 10 n).dropWhile isDigit = [] := List.dropWhile_eq_nil_iff.mpr hdigits
  have hmagnitude : magnitude? false (Nat.toDigits 10 n) = some (floatOfDecimal false n 0) := by
    simp [magnitude?, htake, hdrop, exponentPart?]
  cases hlist : Nat.toDigits 10 n with
  | nil => exact absurd hlist Nat.toDigits_ne_nil
  | cons c cs =>
      have hc : c.isDigit := isDigit_of_mem_decimal (n := n) (by simp [hlist])
      have hminus : c ≠ '-' := by rintro rfl; exact absurd hc (by decide)
      have hplus : c ≠ '+' := by rintro rfl; exact absurd hc (by decide)
      rw [hlist] at hmagnitude
      simp only [floatNumeral?, List.cons.injEq, hminus, hplus, false_and, imp_self, implies_true,
        hmagnitude]

theorem digitValue?_digitChar : ∀ d < 16, digitValue? 16 (Nat.digitChar d) = some d := by
  decide

theorem digitsFrom?_hexDigits (width start n : Nat) :
    digitsFrom? 16 start (hexDigits width n) =
      some (start * Nat.pow 16 width + n % Nat.pow 16 width) := by
  induction width generalizing n with
  | zero => simp [hexDigits, digitsFrom?, Nat.mod_one]
  | succ width ih =>
      have hlast := digitValue?_digitChar (n % 16) (Nat.mod_lt n (by decide))
      have hpow : Nat.pow 16 (width + 1) = 16 * Nat.pow 16 width := Nat.mul_comm _ _
      have hsplit : n % (16 * Nat.pow 16 width) = n % 16 + 16 * (n / 16 % Nat.pow 16 width) :=
        Nat.mod_mul
      rw [hexDigits, digitsFrom?_append, ih, Option.bind_some, digitsFrom?, hlast,
        Option.bind_some, digitsFrom?, hpow, hsplit]
      have hshift := Nat.mul_left_comm start 16 (Nat.pow 16 width)
      congr 1
      omega

theorem eq_digitChar_of_mem_hexDigits {width n : Nat} {c : Char} (h : c ∈ hexDigits width n) :
    ∃ d < 16, c = Nat.digitChar d := by
  induction width generalizing n with
  | zero => simp [hexDigits] at h
  | succ width ih =>
      rw [hexDigits, List.mem_append, List.mem_singleton] at h
      rcases h with h | rfl
      · exact ih h
      · exact ⟨n % 16, Nat.mod_lt n (by decide), rfl⟩

/-- A number that fits its width reads back from its digits to base sixteen. -/
theorem natNumeral?_hexDigits {width n : Nat} (hwidth : 0 < width) (hn : n < Nat.pow 16 width) :
    natNumeral? 16 (hexDigits width n) = some n := by
  have hread := digitsFrom?_hexDigits width 0 n
  rw [Nat.zero_mul, Nat.zero_add, Nat.mod_eq_of_lt hn] at hread
  cases hdigits : hexDigits width n with
  | nil =>
      have hlength := congrArg List.length hdigits
      rw [length_hexDigits, List.length_nil] at hlength
      omega
  | cons c cs =>
      have hplus : c ≠ '+' := by
        have hmem : c ∈ hexDigits width n := by simp [hdigits]
        obtain ⟨d, hd, rfl⟩ := eq_digitChar_of_mem_hexDigits hmem
        exact (by decide : ∀ d < 16, Nat.digitChar d ≠ '+') d hd
      rw [hdigits] at hread
      simp only [natNumeral?, List.cons.injEq, hplus, false_and, imp_self, implies_true, digits?,
        List.isEmpty_cons, Bool.false_eq_true, if_false, hread]

end ModelGraph
