import ModelGraph.Number.Word

/-!
# Words read back

A number is read back from its bytes if it fits them, and an integer from its word if it is one.
-/

namespace ModelGraph

theorem twoPow_add (m n : Nat) : twoPow (m + n) = twoPow m * twoPow n := Nat.pow_add 2 m n

theorem twoPow_pos (n : Nat) : 0 < twoPow n := Nat.two_pow_pos n

theorem twoPow_width_succ (width : Nat) : twoPow (8 * (width + 1)) = 256 * twoPow (8 * width) := by
  rw [Nat.mul_succ, twoPow_add, Nat.mul_comm]
  rfl

theorem natOfBytes_bytesOfNat {width n : Nat} (h : n < twoPow (8 * width)) :
    natOfBytes (bytesOfNat width n) = n := by
  induction width generalizing n with
  | zero => exact (Nat.lt_one_iff.mp h).symm
  | succ width ih =>
      rw [twoPow_width_succ] at h
      have hrest := ih (n := n / 256) (by omega)
      have hdigit : (UInt8.ofNat n).toNat = n % 256 := UInt8.toNat_ofNat
      rw [bytesOfNat, natOfBytes, hrest, hdigit]
      omega

@[simp] theorem length_bytesOfInt (width : Nat) (i : Int) : (bytesOfInt width i).length = width :=
  length_bytesOfNat width _

theorem intOfBytes_bytesOfInt {width : Nat} {i : Int} (hlow : -(twoPow (8 * width) : Int) ≤ 2 * i)
    (hhigh : 2 * i < twoPow (8 * width)) : intOfBytes (bytesOfInt width i) = i := by
  have hpos : (0 : Int) < twoPow (8 * width) := Int.natCast_pos.mpr (twoPow_pos _)
  have hmod : ((i % twoPow (8 * width)).toNat : Int) = i % twoPow (8 * width) :=
    Int.toNat_of_nonneg (Int.emod_nonneg i (Int.ne_of_gt hpos))
  have hlt : (i % twoPow (8 * width)).toNat < twoPow (8 * width) := by
    have := Int.emod_lt_of_pos i hpos
    omega
  rw [intOfBytes, bytesOfInt, natOfBytes_bytesOfNat hlt, length_bytesOfNat, hmod, Int.emod_bmod]
  exact Int.bmod_eq_of_le_mul_two (by omega) (by omega)

theorem checkedSize_eq_some_iff {m n : Nat} : checkedSize m = some n ↔ m ≤ maxSize ∧ n = m := by
  have hlimit : m < sizeLimit ↔ m ≤ maxSize := (Nat.le_sub_one_iff_lt (by decide)).symm
  by_cases h : m < sizeLimit
  · rw [checkedSize, if_pos h, Option.some.injEq, eq_comm]
    exact ⟨fun hn => ⟨hlimit.mp h, hn⟩, And.right⟩
  · rw [checkedSize, if_neg h]
    exact ⟨nofun, fun hn => absurd (hlimit.mpr hn.1) h⟩

theorem checkedSize_eq_none_iff {m : Nat} : checkedSize m = none ↔ maxSize < m := by
  rw [Option.eq_none_iff_forall_ne_some, ← Nat.not_le]
  exact ⟨fun h hle => h m (checkedSize_eq_some_iff.mpr ⟨hle, rfl⟩),
    fun h n hn => h (checkedSize_eq_some_iff.mp hn).1⟩

theorem checkedMul_bind_checkedAdd (a b c : Nat) :
    (checkedMul a b).bind (checkedAdd c ·) = checkedSize (c + a * b) := by
  unfold checkedMul checkedAdd checkedSize
  by_cases h : a * b < sizeLimit
  · rw [if_pos h, Option.bind_some]
  · rw [if_neg h, if_neg fun hsum => h (Nat.lt_of_le_of_lt (Nat.le_add_left _ _) hsum)]
    rfl

/-! ## Words and their integers -/

theorem inInt64_iff {i : Int} :
    inInt64 i = true ↔ -0x8000000000000000 ≤ i ∧ i < 0x8000000000000000 := by
  simp only [inInt64, Bool.and_eq_true, decide_eq_true_eq]

theorem inInt64_toInt (w : Int64) : inInt64 w.toInt :=
  inInt64_iff.mpr ⟨Int64.le_toInt w, Int64.toInt_lt w⟩

theorem toInt_ofInt_of_inInt64 {i : Int} (h : inInt64 i) : (Int64.ofInt i).toInt = i := by
  have hbounds := inInt64_iff.mp h
  exact Int64.toInt_ofInt_of_le hbounds.1 hbounds.2

theorem bmod_of_inInt64 {i : Int} (h : inInt64 i) : i.bmod 0x10000000000000000 = i := by
  have hbounds := inInt64_iff.mp h
  exact Int.bmod_eq_of_le_mul_two (by omega) (by omega)

theorem toInt_add_of_inInt64 {a b : Int64} (h : inInt64 (a.toInt + b.toInt)) :
    (a + b).toInt = a.toInt + b.toInt := by
  rw [Int64.toInt_add, bmod_of_inInt64 h]

theorem toInt_sub_of_inInt64 {a b : Int64} (h : inInt64 (a.toInt - b.toInt)) :
    (a - b).toInt = a.toInt - b.toInt := by
  rw [Int64.toInt_sub, bmod_of_inInt64 h]

theorem toInt_ne_zero {w : Int64} (h : w ≠ 0) : w.toInt ≠ 0 := by
  rw [← Int64.toInt_zero]
  exact mt Int64.toInt_inj.mp h

theorem int64?_eq_some_iff {i : Int} {w : Int64} : int64? i = some w ↔ w.toInt = i := by
  by_cases hi : inInt64 i
  · rw [int64?, if_pos hi, Option.some.injEq, ← Int64.toInt_inj, toInt_ofInt_of_inInt64 hi, eq_comm]
  · rw [int64?, if_neg hi]
    refine iff_of_false nofun ?_
    rintro rfl
    exact hi (inInt64_toInt w)

theorem int64?_eq_none_iff {i : Int} : int64? i = none ↔ ∀ w : Int64, w.toInt ≠ i := by
  simp only [Option.eq_none_iff_forall_ne_some, ne_eq, int64?_eq_some_iff]

/-- The magnitude of a word is a word, unless it is that of the least one. -/
theorem int64?_natAbs {n : Int64} (hn : ¬ n < 0) : int64? n.toInt.natAbs = some n := by
  rw [Int64.lt_iff_toInt_lt, Int64.toInt_zero] at hn
  exact int64?_eq_some_iff.mpr (by omega)

/-- The negation of any word but the least one is exact. -/
theorem toInt_neg_of_ne_minValue {n : Int64} (h : n ≠ Int64.minValue) : (-n).toInt = -n.toInt := by
  have hlow := Int64.le_toInt n
  have hhigh := Int64.toInt_lt n
  have hne : n.toInt ≠ Int64.minValue.toInt := mt Int64.toInt_inj.mp h
  have hleast : Int64.minValue.toInt = -0x8000000000000000 := by decide
  have hword : inInt64 (-n.toInt) := inInt64_iff.mpr (by omega)
  rw [Int64.toInt_neg, bmod_of_inInt64 hword]

theorem int64?_natAbs_of_neg {n : Int64} (hn : n < 0) (hmin : n ≠ Int64.minValue) :
    int64? n.toInt.natAbs = some (-n) := by
  rw [Int64.lt_iff_toInt_lt, Int64.toInt_zero] at hn
  rw [int64?_eq_some_iff, toInt_neg_of_ne_minValue hmin]
  omega

end ModelGraph
