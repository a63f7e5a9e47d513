import Mathlib
import ModelGraph.Number.Binary
import ModelGraph.Proofs.Number.Word

/-!
# The order of doubles

The bits of a double below its sign, read as a number, grow with its magnitude. With the sign they
give each double a rank, and doubles compare as their ranks do; only the two zeros share one.
-/

namespace ModelGraph

open Float.Model

/-! ## Significands and exponents -/

/-- A significand and an exponent as a double has them: only the smallest exponent goes with a
significand that lacks the leading bit. -/
structure FitsDouble (significand : Nat) (exponent : Int) : Prop where
  significand_lt : significand < 0x20000000000000
  le_exponent : -1074 ≤ exponent
  exponent_le : exponent ≤ 971
  leading : exponent = -1074 ∨ 0x10000000000000 ≤ significand

/-- The bits of a magnitude. -/
def magnitudeBits (significand : Nat) (exponent : Int) : Int :=
  (exponent + 1074) * 0x10000000000000 + significand

namespace FitsDouble

variable {s s' : Nat} {e e' : Int} (h : FitsDouble s e) (h' : FitsDouble s' e')
include h

theorem magnitudeBits_nonneg : 0 ≤ magnitudeBits s e := by
  have he := h.le_exponent
  unfold magnitudeBits
  omega

theorem magnitudeBits_pos (hs : 0 < s) : 0 < magnitudeBits s e := by
  have he := h.le_exponent
  unfold magnitudeBits
  omega

theorem magnitudeBits_lt : magnitudeBits s e < 0x7ff0000000000000 := by
  have hs := h.significand_lt
  have he := h.exponent_le
  unfold magnitudeBits
  omega

include h'

theorem magnitudeBits_lt_of_exponent_lt (he : e < e') :
    magnitudeBits s e < magnitudeBits s' e' := by
  have hs := h.significand_lt
  have he₀ := h.le_exponent
  have hleading := h'.leading
  unfold magnitudeBits
  omega

theorem eq_of_magnitudeBits_eq (hbits : magnitudeBits s e = magnitudeBits s' e') :
    s = s' ∧ e = e' := by
  rcases lt_trichotomy e e' with he | rfl | he
  · exact absurd hbits (h.magnitudeBits_lt_of_exponent_lt h' he).ne
  · exact ⟨Int.ofNat_inj.mp (Int.add_left_cancel hbits), rfl⟩
  · exact absurd hbits (h'.magnitudeBits_lt_of_exponent_lt h he).ne'

/-- Magnitudes compare by exponent first. -/
theorem compare_magnitudeBits :
    compare (magnitudeBits s e) (magnitudeBits s' e') = (compare e e').then (compare s s') := by
  rcases lt_trichotomy e e' with he | rfl | he
  · rw [compare_lt_iff_lt.mpr he, compare_lt_iff_lt.mpr (h.magnitudeBits_lt_of_exponent_lt h' he)]
    rfl
  · rw [compare_eq_iff_eq.mpr rfl, Ordering.eq_then]
    rcases lt_trichotomy s s' with hs | rfl | hs
    · rw [compare_lt_iff_lt.mpr hs, compare_lt_iff_lt]
      exact Int.add_lt_add_left (Int.ofNat_lt.mpr hs) _
    · rw [compare_eq_iff_eq.mpr rfl, compare_eq_iff_eq.mpr rfl]
    · rw [compare_gt_iff_gt.mpr hs, compare_gt_iff_gt]
      exact Int.add_lt_add_left (Int.ofNat_lt.mpr hs) _
  · rw [compare_gt_iff_gt.mpr he, compare_gt_iff_gt.mpr (h'.magnitudeBits_lt_of_exponent_lt h he)]
    rfl

end FitsDouble

/-! ## Unpacked doubles -/

namespace Unpacked

/-- The place of an unpacked double among all doubles. -/
def rank : UnpackedFloat → Int
  | .infinity sign => sign.apply 0x7ff0000000000000
  | .notANumber => 0
  | .zero _ => 0
  | .finite sign significand exponent _ => sign.apply (magnitudeBits significand exponent)

/-- A finite number is one that a double has. -/
def Fits : UnpackedFloat → Prop
  | .finite _ significand exponent _ => FitsDouble significand exponent
  | _ => True

theorem compare_eq {u v : UnpackedFloat} (hu : Fits u) (hv : Fits v) (hu' : u ≠ .notANumber)
    (hv' : v ≠ .notANumber) : u.compare v = some (compare (rank u) (rank v)) := by
  have hlt {a b : Int} (h : a < b) : some Ordering.lt = some (compare a b) :=
    congrArg some (compare_lt_iff_lt.mpr h).symm
  have hgt {a b : Int} (h : b < a) : some Ordering.gt = some (compare a b) :=
    congrArg some (compare_gt_iff_gt.mpr h).symm
  cases u with
  | notANumber => exact absurd rfl hu'
  | zero sign =>
      cases v with
      | notANumber => exact absurd rfl hv'
      | zero sign' => rfl
      | infinity sign' => cases sign' <;> rfl
      | finite sign' s' e' hs' =>
          have hpos := hv.magnitudeBits_pos hs'
          cases sign' with
          | positive => exact hlt hpos
          | negative => exact hgt (Int.neg_neg_of_pos hpos)
  | infinity sign =>
      cases v with
      | notANumber => exact absurd rfl hv'
      | zero sign' => cases sign <;> rfl
      | infinity sign' => cases sign <;> cases sign' <;> rfl
      | finite sign' s' e' hs' =>
          have hpos := hv.magnitudeBits_pos hs'
          have hbound := hv.magnitudeBits_lt
          cases sign <;> cases sign'
          · exact hlt (Int.neg_lt_neg hbound)
          · exact hlt (hpos.trans' (by decide))
          · exact hgt (by simp only [rank, UnpackedFloat.Sign.apply]; omega)
          · exact hgt hbound
  | finite sign s e hs =>
      have hpos := hu.magnitudeBits_pos hs
      have hbound := hu.magnitudeBits_lt
      cases v with
      | notANumber => exact absurd rfl hv'
      | zero sign' =>
          cases sign with
          | positive => exact hgt hpos
          | negative => exact hlt (Int.neg_neg_of_pos hpos)
      | infinity sign' =>
          cases sign <;> cases sign'
          · exact hgt (Int.neg_lt_neg hbound)
          · exact hlt (by simp only [rank, UnpackedFloat.Sign.apply]; omega)
          · exact hgt (hpos.trans' (by decide))
          · exact hlt hbound
      | finite sign' s' e' hs' =>
          have hpos' := hv.magnitudeBits_pos hs'
          have hbits := hu.compare_magnitudeBits hv
          cases sign <;> cases sign'
          · have hneg (a b : Int) : compare (-a) (-b) = (compare a b).swap := by
              rw [Int.compare_swap, Int.compare_eq_ite_lt, Int.compare_eq_ite_lt]
              simp only [Int.neg_lt_neg_iff]
            exact congrArg some ((congrArg Ordering.swap hbits.symm).trans (hneg _ _).symm)
          · exact hlt (by simp only [rank, UnpackedFloat.Sign.apply]; omega)
          · exact hgt (by simp only [rank, UnpackedFloat.Sign.apply]; omega)
          · exact congrArg some hbits.symm

end Unpacked

/-! ## Ranks -/

/-- The bits below the sign, with the sign. -/
def bitsRank (bits : Nat) : Int :=
  if bits < 0x8000000000000000 then bits else 0x8000000000000000 - bits

/-- The place of a double among all doubles. -/
def floatRank (x : Float) : Int := bitsRank x.toBits.toNat

namespace Unpacked

variable (bits : UInt64)

theorem toNat_unpackMantissa :
    (@UnpackedFloat.unpackMantissa .binary64 bits.toBitVec).toNat =
      bits.toNat % 0x10000000000000 := by
  rw [UnpackedFloat.unpackMantissa_def]
  simp

theorem toNat_unpackExponent :
    (@UnpackedFloat.unpackExponent .binary64 bits.toBitVec).toNat =
      bits.toNat / 0x10000000000000 % 0x800 := by
  rw [UnpackedFloat.unpackExponent_def]
  simp [Nat.shiftRight_eq_div_pow]

theorem apply_unpackSign {magnitude : Int}
    (h : magnitude = (bits.toNat % 0x8000000000000000 : Nat)) :
    (UnpackedFloat.Sign.ofBitVec (@UnpackedFloat.unpackSign .binary64 bits.toBitVec)).apply
      magnitude = bitsRank bits.toNat := by
  have hlt := UInt64.toNat_lt bits
  have hsign : @UnpackedFloat.unpackSign .binary64 bits.toBitVec = 0#1 ↔
      bits.toNat < 0x8000000000000000 := by
    rw [UnpackedFloat.unpackSign_def, ← BitVec.toNat_inj]
    simp only [BitVec.extractLsb'_toNat, Nat.shiftRight_eq_div_pow, UInt64.toNat_toBitVec,
      BitVec.toNat_ofNat]
    omega
  simp only [UnpackedFloat.Sign.ofBitVec, hsign, bitsRank]
  split_ifs <;> simp only [UnpackedFloat.Sign.apply] <;> omega

/-- What is unpacked from bits has their rank. -/
theorem rank_unpack : Fits (UnpackedFloat.unpack .binary64 bits.toBitVec) ∧
    (UnpackedFloat.unpack .binary64 bits.toBitVec ≠ .notANumber →
      rank (UnpackedFloat.unpack .binary64 bits.toBitVec) = bitsRank bits.toNat) := by
  have hbits := UInt64.toNat_lt bits
  fun_cases UnpackedFloat.unpack .binary64 bits.toBitVec with
  | case1 mantissa exponent sign' sign hones hzero =>
      have hmantissa : mantissa.toNat = _ := toNat_unpackMantissa bits
      have hexponent : exponent.toNat = _ := toNat_unpackExponent bits
      have hones : exponent.toNat = 0x7ff := congrArg BitVec.toNat hones
      have hzero : mantissa.toNat = 0 := congrArg BitVec.toNat hzero
      refine ⟨trivial, fun _ => apply_unpackSign bits ?_⟩
      omega
  | case2 => exact ⟨trivial, fun h => absurd rfl h⟩
  | case3 mantissa exponent sign' sign hones hzero hzero' =>
      have hmantissa : mantissa.toNat = _ := toNat_unpackMantissa bits
      have hexponent : exponent.toNat = _ := toNat_unpackExponent bits
      have hzero : exponent.toNat = 0 := congrArg BitVec.toNat hzero
      have hzero' : mantissa.toNat = 0 := congrArg BitVec.toNat hzero'
      have hrank := apply_unpackSign bits (show (0 : Int) = _ by omega)
      refine ⟨trivial, fun _ => ?_⟩
      rw [← hrank, rank]
      cases UnpackedFloat.Sign.ofBitVec _ <;> rfl
  | case4 mantissa exponent e sign' sign hones hzero =>
      have hmantissa : mantissa.toNat = _ := toNat_unpackMantissa bits
      have hexponent : exponent.toNat = _ := toNat_unpackExponent bits
      have hzero : exponent.toNat = 0 := congrArg BitVec.toNat hzero
      have he : e = (exponent.toNat : Int) - 1075 := rfl
      refine ⟨⟨by omega, by omega, by omega, by omega⟩, fun _ => apply_unpackSign bits ?_⟩
      unfold magnitudeBits
      omega
  | case5 mantissa exponent e sign' sign hones hzero =>
      have hmantissa : mantissa.toNat = _ := toNat_unpackMantissa bits
      have hexponent : exponent.toNat = _ := toNat_unpackExponent bits
      have hones : exponent.toNat ≠ 0x7ff := fun h => hones (BitVec.eq_of_toNat_eq h)
      have hzero : exponent.toNat ≠ 0 := fun h => hzero (BitVec.eq_of_toNat_eq h)
      have he : e = (exponent.toNat : Int) - 1075 := rfl
      have hleading : (1#1 ++ mantissa).toNat = 0x10000000000000 + mantissa.toNat := by
        rw [BitVec.toNat_append, ← Nat.shiftLeft_add_eq_or_of_lt mantissa.isLt]
        rfl
      refine ⟨⟨by omega, by omega, by omega, by omega⟩, fun _ => apply_unpackSign bits ?_⟩
      unfold magnitudeBits
      omega

theorem lt_of_unpack_eq_notANumber
    (h : UnpackedFloat.unpack .binary64 bits.toBitVec = .notANumber) :
    0x7ff0000000000000 < bits.toNat % 0x8000000000000000 := by
  revert h
  fun_cases UnpackedFloat.unpack .binary64 bits.toBitVec with
  | case2 mantissa exponent hones hzero =>
      have hmantissa : mantissa.toNat = _ := toNat_unpackMantissa bits
      have hexponent : exponent.toNat = _ := toNat_unpackExponent bits
      have hones : exponent.toNat = 0x7ff := congrArg BitVec.toNat hones
      have hzero : mantissa.toNat ≠ 0 := fun h => hzero (BitVec.eq_of_toNat_eq h)
      intro _
      omega
  | _ => exact nofun

end Unpacked

theorem isNaN_of_bits {x : Float}
    (hx : x.toBits.toNat % 0x8000000000000000 ≤ 0x7ff0000000000000) : x.isNaN = false := by
  refine Bool.eq_false_iff.mpr fun hnan => ?_
  exact (Unpacked.lt_of_unpack_eq_notANumber _ (UnpackedFloat.isNaN_iff.mp hnan)).not_ge hx

theorem toBits_ofBits {bits : UInt64}
    (h : bits.toNat % 0x8000000000000000 ≤ 0x7ff0000000000000) :
    (Float.ofBits bits).toBits = bits := by
  have hnan : @UnpackedFloat.isNaNBits .binary64 bits.toBitVec = false := by
    rw [UnpackedFloat.isNaNBits, decide_eq_false_iff_not]
    rintro ⟨hones, hzero⟩
    have hexponent := Unpacked.toNat_unpackExponent bits
    have hmantissa := Unpacked.toNat_unpackMantissa bits
    have hones := congrArg BitVec.toNat hones
    have hzero := fun h => hzero (BitVec.eq_of_toNat_eq h)
    change _ = 0x7ff at hones
    change ¬_ = 0 at hzero
    omega
  have hpack := @UnpackedFloat.pack_unpack .binary64 bits.toBitVec (by decide)
  rw [hnan, if_neg Bool.false_ne_true] at hpack
  exact UInt64.toBitVec_inj.mp hpack

theorem toBits_signedDouble {negative : Bool} {magnitude : Nat}
    (h : magnitude ≤ 0x7ff0000000000000) : (signedDouble negative magnitude).toBits.toNat =
      if negative then 0x8000000000000000 + magnitude else magnitude := by
  have hbits :
      (UInt64.ofNat (if negative then 0x8000000000000000 + magnitude else magnitude)).toNat =
        if negative then 0x8000000000000000 + magnitude else magnitude := by
    rw [UInt64.toNat_ofNat_of_lt']
    split_ifs <;> simp only [UInt64.size] <;> omega
  rw [signedDouble, toBits_ofBits, hbits]
  rw [hbits]
  split_ifs <;> omega

theorem isNaN_signedDouble {negative : Bool} {magnitude : Nat}
    (h : magnitude ≤ 0x7ff0000000000000) : (signedDouble negative magnitude).isNaN = false := by
  apply isNaN_of_bits
  rw [toBits_signedDouble h]
  split_ifs <;> omega

theorem floatRank_signedDouble {negative : Bool} {magnitude : Nat}
    (h : magnitude ≤ 0x7ff0000000000000) : floatRank (signedDouble negative magnitude) =
      if negative then -(magnitude : Int) else magnitude := by
  rw [floatRank, toBits_signedDouble h, bitsRank]
  cases negative
  · rw [if_neg Bool.false_ne_true, if_neg Bool.false_ne_true, if_pos (by omega)]
  · rw [if_pos rfl, if_pos rfl, if_neg (by omega)]
    omega

theorem compare_unpack {x y : Float} (hx : x.isNaN = false) (hy : y.isNaN = false) :
    x.toModel.unpack.compare y.toModel.unpack = some (compare (floatRank x) (floatRank y)) := by
  have hnan {x : Float} (hx : x.isNaN = false) : x.toModel.unpack ≠ .notANumber := fun heq => by
    have htrue : x.isNaN = true := UnpackedFloat.isNaN_iff.mpr heq
    rw [htrue] at hx
    cases hx
  obtain ⟨hfits, hrank⟩ := Unpacked.rank_unpack x.toBits
  obtain ⟨hfits', hrank'⟩ := Unpacked.rank_unpack y.toBits
  rw [floatRank, floatRank, ← hrank (hnan hx), ← hrank' (hnan hy)]
  exact Unpacked.compare_eq hfits hfits' (hnan hx) (hnan hy)

theorem float_beq_iff {x y : Float} (hx : x.isNaN = false) (hy : y.isNaN = false) :
    (x == y) = true ↔ floatRank x = floatRank y := by
  have hbeq : (x == y) = (x.toModel.unpack.compare y.toModel.unpack == some .eq) := rfl
  rw [hbeq, compare_unpack hx hy, beq_iff_eq, Option.some.injEq, Int.compare_eq_eq]

theorem float_lt_iff {x y : Float} (hx : x.isNaN = false) (hy : y.isNaN = false) :
    x < y ↔ floatRank x < floatRank y := by
  have hlt : x < y ↔ (x.toModel.unpack.compare y.toModel.unpack == some .lt) = true :=
    decide_eq_true_iff
  rw [hlt, compare_unpack hx hy, beq_iff_eq, Option.some.injEq, Int.compare_eq_lt]

/-! ## The nearest double to an integer -/

/-- A quotient rounded to the nearest number, the even one of two equally near. -/
def nearestEven (numerator denominator : Nat) : Nat :=
  let down := numerator / denominator
  let rest := 2 * (numerator % denominator)
  if rest > denominator ∨ (rest = denominator ∧ down % 2 = 1) then down + 1 else down

/-- The significand of the double nearest to a positive number. -/
def nearestSignificand (n : Nat) : Nat :=
  nearestEven (n * twoPow (52 - n.log2)) (twoPow (n.log2 - 52))

/-- The bits of the double nearest to a number. -/
def nearestBits (n : Nat) : Nat :=
  if n = 0 then 0 else (n.log2 + 1022) * 0x10000000000000 + nearestSignificand n

theorem twoPow_log2_le {n : Nat} (hn : n ≠ 0) : twoPow n.log2 ≤ n := Nat.log2_self_le hn

theorem lt_twoPow_log2 (n : Nat) : n < twoPow (n.log2 + 1) := Nat.lt_log2_self

/-- A number cut, or filled up, to a number of bits below its leading one. -/
theorem scaled_bounds {n : Nat} (hn : n ≠ 0) (bits : Nat) :
    twoPow bits ≤ n * twoPow (bits - n.log2) / twoPow (n.log2 - bits) ∧
      n * twoPow (bits - n.log2) / twoPow (n.log2 - bits) < twoPow (bits + 1) := by
  have hlow := twoPow_log2_le hn
  have hhigh := lt_twoPow_log2 n
  constructor
  · apply (Nat.le_div_iff_mul_le (twoPow_pos _)).mpr
    calc twoPow bits * twoPow (n.log2 - bits)
        = twoPow n.log2 * twoPow (bits - n.log2) := by
          rw [← twoPow_add, ← twoPow_add]
          congr 1
          omega
      _ ≤ n * twoPow (bits - n.log2) := Nat.mul_le_mul_right _ hlow
  · apply (Nat.div_lt_iff_lt_mul (twoPow_pos _)).mpr
    calc n * twoPow (bits - n.log2)
        < twoPow (n.log2 + 1) * twoPow (bits - n.log2) :=
          Nat.mul_lt_mul_of_pos_right hhigh (twoPow_pos _)
      _ = twoPow (bits + 1) * twoPow (n.log2 - bits) := by
          rw [← twoPow_add, ← twoPow_add]
          congr 1
          omega

theorem le_nearestEven (numerator denominator : Nat) :
    numerator / denominator ≤ nearestEven numerator denominator := by
  unfold nearestEven
  dsimp only
  split_ifs <;> omega

theorem nearestEven_le (numerator denominator : Nat) :
    nearestEven numerator denominator ≤ numerator / denominator + 1 := by
  unfold nearestEven
  dsimp only
  split_ifs <;> omega

theorem nearestSignificand_bounds {n : Nat} (hn : n ≠ 0) :
    0x10000000000000 ≤ nearestSignificand n ∧ nearestSignificand n ≤ 0x20000000000000 := by
  obtain ⟨hlow, hhigh⟩ := scaled_bounds hn 52
  exact ⟨hlow.trans (le_nearestEven _ _), (nearestEven_le _ _).trans hhigh⟩

theorem nearestBits_lt {n : Nat} (hlt : n < 0x10000000000000000) :
    nearestBits n < 0x7ff0000000000000 := by
  unfold nearestBits
  split_ifs with hn
  · decide
  · have hlog : n.log2 < 64 := (Nat.log2_lt hn).mpr hlt
    have hle := (nearestSignificand_bounds hn).2
    omega

theorem floatOfRatio_one {negative : Bool} {n : Nat} (hn : n ≠ 0) (hlt : n < 0x10000000000000000) :
    floatOfRatio negative n 1 = signedDouble negative (nearestBits n) := by
  have hlog : (1 : Nat).log2 = 0 := by decide
  have hscale (q : Int) : (if 0 ≤ q then (n, 1 * twoPow q.toNat) else (n * twoPow (-q).toNat, 1)) =
      (n * twoPow (-q).toNat, twoPow q.toNat) := by
    split_ifs with hq
    · rw [Int.toNat_of_nonpos (by omega : -q ≤ 0), Nat.one_mul]
      exact congrArg (·, _) (Nat.mul_one n).symm
    · rw [Int.toNat_of_nonpos (by omega : q ≤ 0)]
      rfl
  have hnear : ((n.log2 : Int) - (1 : Nat).log2 - 53) = (n.log2 : Int) - 53 := by rw [hlog]; omega
  -- The quotient at the first guess has one bit too many, so the next one is taken.
  have hfitting : (if n * twoPow (-((n.log2 : Int) - 53)).toNat / twoPow ((n.log2 : Int) - 53).toNat
      < 0x20000000000000 then (n.log2 : Int) - 53 else (n.log2 : Int) - 53 + 1) = n.log2 - 52 := by
    have hbits : 0x20000000000000 ≤ n * twoPow (53 - n.log2) / twoPow (n.log2 - 53) :=
      (scaled_bounds hn 53).1
    rw [show (-((n.log2 : Int) - 53)).toNat = 53 - n.log2 by omega,
      show ((n.log2 : Int) - 53).toNat = n.log2 - 53 by omega, if_neg (Nat.not_lt.mpr hbits)]
    omega
  have hmax : max ((n.log2 : Int) - 52) (-1074) = n.log2 - 52 := by omega
  have hshift : (-((n.log2 : Int) - 52)).toNat = 52 - n.log2 := by omega
  have hshift' : ((n.log2 : Int) - 52).toNat = n.log2 - 52 := by omega
  have hexponent : ((n.log2 : Int) - 52 + 1074).toNat = n.log2 + 1022 := by omega
  have hbound := nearestBits_lt hlt
  rw [nearestBits, if_neg hn] at hbound
  rw [floatOfRatio, if_neg (by simp [hn]), nearestBits, if_neg hn]
  simp only [hscale, hnear]
  simp only [hfitting, hmax, hshift, hshift', hexponent]
  exact if_pos hbound

theorem nearestEven_mono (denominator : Nat) {a b : Nat} (h : a ≤ b) :
    nearestEven a denominator ≤ nearestEven b denominator := by
  rcases (Nat.div_le_div_right h).lt_or_eq with hlt | heq
  · exact (nearestEven_le _ _).trans (Nat.succ_le_of_lt hlt |>.trans (le_nearestEven _ _))
  · have hrest : a % denominator ≤ b % denominator := by
      have ha := Nat.div_add_mod a denominator
      have hb := Nat.div_add_mod b denominator
      rw [heq] at ha
      omega
    unfold nearestEven
    dsimp only
    rw [heq]
    split_ifs <;> omega

theorem nearestEven_one (n : Nat) : nearestEven n 1 = n := by
  simp [nearestEven, Nat.mod_one]

theorem nearestSignificand_of_lt {n : Nat} (hlt : n < 0x20000000000000) :
    nearestSignificand n = n * twoPow (52 - n.log2) := by
  by_cases hn : n = 0
  · rw [hn]
    decide
  · have hlog : n.log2 < 53 := (Nat.log2_lt hn).mpr hlt
    rw [nearestSignificand, Nat.sub_eq_zero_of_le (by omega : n.log2 ≤ 52)]
    exact nearestEven_one _

theorem nearestSignificand_lt {n : Nat} (hn : n ≠ 0) (hlt : n < 0x20000000000000) :
    nearestSignificand n < 0x20000000000000 := by
  have hlog : n.log2 < 53 := (Nat.log2_lt hn).mpr hlt
  have hbound := (scaled_bounds hn 52).2
  rw [Nat.sub_eq_zero_of_le (by omega : n.log2 ≤ 52)] at hbound
  rw [nearestSignificand_of_lt hlt, ← Nat.div_one (n * _)]
  exact hbound

theorem log2_mono {n m : Nat} (hn : n ≠ 0) (h : n ≤ m) : n.log2 ≤ m.log2 :=
  (Nat.le_log2 (by omega)).mpr ((Nat.log2_self_le hn).trans h)

/-- Larger numbers have larger bits, or the same. -/
theorem nearestBits_mono {n m : Nat} (h : n ≤ m) : nearestBits n ≤ nearestBits m := by
  by_cases hn : n = 0
  · rw [nearestBits, if_pos hn]
    exact Nat.zero_le _
  · have hm : m ≠ 0 := by omega
    rw [nearestBits, nearestBits, if_neg hn, if_neg hm]
    rcases (log2_mono hn h).lt_or_eq with hlog | hlog
    · have hhigh := (nearestSignificand_bounds hn).2
      have hlow := (nearestSignificand_bounds hm).1
      omega
    · have hsignificand : nearestSignificand n ≤ nearestSignificand m := by
        rw [nearestSignificand, nearestSignificand, hlog]
        exact nearestEven_mono _ (Nat.mul_le_mul_right _ h)
      omega

/-- Below 2⁵³ the bits of different numbers differ. -/
theorem nearestBits_lt_nearestBits {n m : Nat} (h : n < m) (hn : n < 0x20000000000000) :
    nearestBits n < nearestBits m := by
  have hm : m ≠ 0 := by omega
  have hlow := (nearestSignificand_bounds hm).1
  rw [nearestBits, nearestBits, if_neg hm]
  split_ifs with hzero
  · omega
  · have hhigh := nearestSignificand_lt hzero hn
    rcases (log2_mono hzero h.le).lt_or_eq with hlog | hlog
    · omega
    · have hsmall : m.log2 < 53 := hlog ▸ (Nat.log2_lt hzero).mpr hn
      have hsignificand : nearestSignificand n < nearestSignificand m := by
        rw [nearestSignificand_of_lt hn, nearestSignificand_of_lt ((Nat.log2_lt hm).mp hsmall),
          hlog]
        exact Nat.mul_lt_mul_of_pos_right h (twoPow_pos _)
      omega

theorem nearestBits_pos {n : Nat} (hn : n ≠ 0) : 0 < nearestBits n := by
  rw [nearestBits, if_neg hn]
  omega

/-- The rank of the double nearest to an integer. -/
def nearestRank (i : Int) : Int :=
  if i < 0 then -(nearestBits i.natAbs : Int) else nearestBits i.natAbs

theorem floatOfInt_eq {i : Int} (hi : i.natAbs < 0x10000000000000000) :
    floatOfInt i = signedDouble (i < 0) (nearestBits i.natAbs) := by
  by_cases hzero : i.natAbs = 0
  · rw [floatOfInt, floatOfRatio, if_pos (.inl hzero), nearestBits, if_pos hzero]
  · exact floatOfRatio_one hzero hi

theorem floatRank_floatOfInt {i : Int} (hi : i.natAbs < 0x10000000000000000) :
    floatRank (floatOfInt i) = nearestRank i := by
  rw [floatOfInt_eq hi, floatRank_signedDouble (nearestBits_lt hi).le, nearestRank]
  simp only [decide_eq_true_eq]

theorem isNaN_floatOfInt {i : Int} (hi : i.natAbs < 0x10000000000000000) :
    (floatOfInt i).isNaN = false := by
  rw [floatOfInt_eq hi]
  exact isNaN_signedDouble (nearestBits_lt hi).le

theorem natAbs_toInt_lt (a : Int64) : a.toInt.natAbs < 0x10000000000000000 := by
  have hlow := Int64.le_toInt a
  have hhigh := Int64.toInt_lt a
  omega

theorem nearestRank_eq_zero_iff {i : Int} : nearestRank i = 0 ↔ i = 0 := by
  constructor
  · intro h
    by_contra hi
    have hpos := nearestBits_pos (show i.natAbs ≠ 0 by omega)
    unfold nearestRank at h
    split_ifs at h <;> omega
  · rintro rfl
    decide

theorem nearestRank_mono {i j : Int} (h : i ≤ j) : nearestRank i ≤ nearestRank j := by
  unfold nearestRank
  split_ifs with hi hj hj
  · have hbits := nearestBits_mono (show j.natAbs ≤ i.natAbs by omega)
    omega
  · omega
  · omega
  · have hbits := nearestBits_mono (show i.natAbs ≤ j.natAbs by omega)
    omega

/-- Where one of two integers is below 2⁵³, no double is nearest to both. -/
theorem nearestRank_lt {i j : Int} (h : i < j)
    (hsmall : i.natAbs < 0x20000000000000 ∨ j.natAbs < 0x20000000000000) :
    nearestRank i < nearestRank j := by
  unfold nearestRank
  split_ifs with hi hj hj
  · have hbits := nearestBits_lt_nearestBits (show j.natAbs < i.natAbs by omega) (by omega)
    omega
  · have hbits := nearestBits_pos (show i.natAbs ≠ 0 by omega)
    omega
  · omega
  · have hbits := nearestBits_lt_nearestBits (show i.natAbs < j.natAbs by omega) (by omega)
    omega

theorem eq_of_floatRank {x y : Float} (h : floatRank x = floatRank y) (hne : floatRank x ≠ 0) :
    x = y := by
  have hx := UInt64.toNat_lt x.toBits
  have hy := UInt64.toNat_lt y.toBits
  refine Float.toBits_inj.mp (UInt64.toNat_inj.mp ?_)
  unfold floatRank bitsRank at h hne
  split_ifs at h hne <;> omega

/-! ## The integer of a double -/

/-- A magnitude is read as an integer where it is one. -/
theorem whole_eq_some_iff {s k : Nat} {e : Int} :
    (if 0 ≤ e then some (s * twoPow e.toNat)
      else
        let unit := twoPow (-e).toNat
        if s % unit = 0 then some (s / unit) else none) = some k ↔ (k : ℚ) = s * (2 : ℚ) ^ e := by
  have hcast (n : Nat) : (twoPow n : ℚ) = (2 : ℚ) ^ (n : Int) := by
    rw [twoPow, zpow_natCast]
    exact Nat.cast_pow 2 n
  by_cases he : 0 ≤ e
  · rw [if_pos he, Option.some.injEq]
    have hpower := hcast e.toNat
    rw [Int.toNat_of_nonneg he] at hpower
    rw [← hpower]
    exact ⟨fun heq => by rw [← heq, Nat.cast_mul], fun heq => by exact_mod_cast heq.symm⟩
  · have hpower := hcast (-e).toNat
    rw [Int.toNat_of_nonneg (by omega), zpow_neg] at hpower
    have hunit : (twoPow (-e).toNat : ℚ) ≠ 0 := Nat.cast_ne_zero.mpr (twoPow_pos _).ne'
    have hvalue : (k : ℚ) = s * (2 : ℚ) ^ e ↔ s = k * twoPow (-e).toNat := by
      rw [← inv_inv ((2 : ℚ) ^ e), ← hpower, ← div_eq_mul_inv, eq_div_iff hunit]
      exact ⟨fun heq => by exact_mod_cast heq.symm, fun heq => by exact_mod_cast heq.symm⟩
    rw [if_neg he, hvalue]
    dsimp only
    constructor
    · intro heq
      split_ifs at heq with hmod
      rw [← Option.some.inj heq, Nat.div_mul_cancel (Nat.dvd_of_mod_eq_zero hmod)]
    · intro heq
      rw [heq, if_pos (Nat.mul_mod_left _ _), Nat.mul_div_cancel _ (twoPow_pos _)]

/-- A number has one significand and one exponent as a double. -/
theorem FitsDouble.eq_of_value_eq {s s' : Nat} {e e' : Int} (h : FitsDouble s e)
    (h' : FitsDouble s' e') (hvalue : (s : ℚ) * 2 ^ e = s' * 2 ^ e') : s = s' ∧ e = e' := by
  have hle {s s' : Nat} {e e' : Int} (h : FitsDouble s e) (h' : FitsDouble s' e')
      (hvalue : (s : ℚ) * 2 ^ e = s' * 2 ^ e') : e' ≤ e := by
    by_contra! hlt
    have hs : (s : ℚ) = s' * 2 ^ (e' - e) := by
      rw [zpow_sub₀ two_ne_zero, ← mul_div_assoc, ← hvalue]
      exact (mul_div_cancel_right₀ _ (zpow_ne_zero _ two_ne_zero)).symm
    have hdouble : (2 : ℚ) ≤ 2 ^ (e' - e) := by
      rw [← zpow_one (2 : ℚ), ← zpow_mul, one_mul]
      exact zpow_le_zpow_right₀ one_le_two (by omega)
    have hbig : s' * 2 ≤ s := by
      have hle : (s' : ℚ) * 2 ≤ s := hs ▸ mul_le_mul_of_nonneg_left hdouble (Nat.cast_nonneg s')
      exact_mod_cast hle
    have hleading := h'.leading
    have he := h.le_exponent
    have hlt := h.significand_lt
    omega
  have he : e = e' := le_antisymm (hle h' h hvalue.symm) (hle h h' hvalue)
  subst he
  refine ⟨?_, rfl⟩
  exact_mod_cast mul_right_cancel₀ (zpow_ne_zero e two_ne_zero) hvalue

theorem decode_double {bits : Nat} (hbits : bits < 0x10000000000000000) :
    BinaryFormat.double.decode bits =
      let magnitude := bits % 0x8000000000000000
      let negative := decide (0x8000000000000000 ≤ bits)
      if magnitude / 0x10000000000000 = 0x7ff then
        if magnitude % 0x10000000000000 = 0 then .infinite negative else .nan
      else if magnitude / 0x10000000000000 = 0 then .finite negative magnitude (-1074)
      else .finite negative (0x10000000000000 + magnitude % 0x10000000000000)
        (-1074 + (magnitude / 0x10000000000000 - 1 : Nat)) := by
  have hfraction : twoPow BinaryFormat.double.fractionBits = 0x10000000000000 := rfl
  have hexponent : twoPow BinaryFormat.double.exponentBits = 0x800 := rfl
  have hsign : twoPow (BinaryFormat.double.fractionBits + BinaryFormat.double.exponentBits) =
    0x8000000000000000 := rfl
  have hmin : BinaryFormat.double.minExponent = -1074 := rfl
  have hnegative : (bits / 0x8000000000000000 % 2 == 1) = decide (0x8000000000000000 ≤ bits) := by
    rw [Bool.eq_iff_iff, beq_iff_eq, decide_eq_true_iff]
    omega
  have hlow : bits % 0x10000000000000 = bits % 0x8000000000000000 % 0x10000000000000 := by omega
  have hhigh : bits / 0x10000000000000 % 0x800 = bits % 0x8000000000000000 / 0x10000000000000 := by
    omega
  unfold BinaryFormat.decode
  simp only [hfraction, hexponent, hsign, hmin, hnegative, hlow, hhigh]
  split_ifs with hones hzero hzero
  · rfl
  · rfl
  · congr 1
    omega
  · rfl

/-- The significand and exponent of a finite double give its rank. -/
theorem floatRank_of_finite {x : Float} {negative : Bool} {s : Nat} {e : Int}
    (h : binaryOfFloat x = .finite negative s e) : FitsDouble s e ∧
      floatRank x = if negative then -magnitudeBits s e else magnitudeBits s e := by
  have hbits := UInt64.toNat_lt x.toBits
  rw [binaryOfFloat, decode_double hbits] at h
  dsimp only at h
  split_ifs at h with hones hzero hzero
  · cases h
    refine ⟨⟨by omega, by omega, by omega, by omega⟩, ?_⟩
    simp only [floatRank, bitsRank, magnitudeBits, decide_eq_true_eq]
    split_ifs <;> omega
  · cases h
    refine ⟨⟨by omega, by omega, by omega, by omega⟩, ?_⟩
    simp only [floatRank, bitsRank, magnitudeBits, decide_eq_true_eq]
    split_ifs <;> omega

theorem exists_binaryOfFloat {x : Float}
    (h : x.toBits.toNat % 0x8000000000000000 < 0x7ff0000000000000) :
    ∃ negative s e, binaryOfFloat x = .finite negative s e := by
  rw [binaryOfFloat, decode_double (UInt64.toNat_lt x.toBits)]
  dsimp only
  split_ifs with hones hzero hzero
  · omega
  · omega
  · exact ⟨_, _, _, rfl⟩
  · exact ⟨_, _, _, rfl⟩

/-- The integer that a double stands for. -/
theorem integerOfFloat?_eq_some_iff {x : Float} {i : Int} : integerOfFloat? x = some i ↔
    ∃ negative s e, binaryOfFloat x = .finite negative s e ∧ (i.natAbs : ℚ) = s * (2 : ℚ) ^ e ∧
      i = if negative then -(i.natAbs : Int) else i.natAbs := by
  unfold integerOfFloat?
  cases hx : binaryOfFloat x with
  | nan => simp
  | infinite negative => simp
  | finite negative s e =>
      simp only [Option.map_eq_some_iff, Option.bind_eq_bind, Option.bind_eq_some_iff,
        Option.pure_def, Option.some.injEq, whole_eq_some_iff]
      constructor
      · rintro ⟨_, ⟨k, hk, rfl⟩, rfl⟩
        have habs : (if negative then -(k : Int) else k).natAbs = k := by split_ifs <;> omega
        exact ⟨negative, s, e, rfl, by rw [habs, hk], by rw [habs]⟩
      · rintro ⟨_, _, _, heq, hvalue, hi⟩
        cases heq
        exact ⟨_, ⟨i.natAbs, hvalue, rfl⟩, hi.symm⟩

/-- Doubles that stand for one integer have one rank. -/
theorem floatRank_eq_of_integer {x y : Float} {i : Int} (hx : integerOfFloat? x = some i)
    (hy : integerOfFloat? y = some i) : floatRank x = floatRank y := by
  obtain ⟨negative, s, e, hbits, hvalue, hi⟩ := integerOfFloat?_eq_some_iff.mp hx
  obtain ⟨negative', s', e', hbits', hvalue', hi'⟩ := integerOfFloat?_eq_some_iff.mp hy
  obtain ⟨hfits, hrank⟩ := floatRank_of_finite hbits
  obtain ⟨hfits', hrank'⟩ := floatRank_of_finite hbits'
  obtain ⟨rfl, rfl⟩ := hfits.eq_of_value_eq hfits' (hvalue.symm.trans hvalue')
  rw [hrank, hrank']
  by_cases hzero : i.natAbs = 0
  · have hs : (s : ℚ) = 0 := by
      rw [hzero, Nat.cast_zero, eq_comm, mul_eq_zero] at hvalue
      exact hvalue.resolve_right (zpow_ne_zero _ two_ne_zero)
    have hbits : magnitudeBits s e = 0 := by
      have hleading := hfits.leading
      have hs : s = 0 := by exact_mod_cast hs
      unfold magnitudeBits
      omega
    rw [hbits]
    split_ifs <;> rfl
  · have hnegative : negative = negative' := by
      cases negative <;> cases negative' <;> simp at hi hi' ⊢ <;> omega
    rw [hnegative]

theorem integerOfFloat?_of_rank_zero {x : Float} (h : floatRank x = 0) :
    integerOfFloat? x = some 0 := by
  have hbits : x.toBits.toNat = 0 ∨ x.toBits.toNat = 0x8000000000000000 := by
    unfold floatRank bitsRank at h
    split_ifs at h <;> omega
  rw [integerOfFloat?, binaryOfFloat]
  rcases hbits with hbits | hbits <;> rw [hbits] <;> decide +kernel

/-- Doubles of one rank stand for one integer, or none. -/
theorem integerOfFloat?_congr {x y : Float} (h : floatRank x = floatRank y) :
    integerOfFloat? x = integerOfFloat? y := by
  by_cases hzero : floatRank x = 0
  · rw [integerOfFloat?_of_rank_zero hzero, integerOfFloat?_of_rank_zero (h ▸ hzero)]
  · rw [eq_of_floatRank h hzero]

theorem floatRank_eq_iff_of_integer {x y : Float} {i j : Int} (hx : integerOfFloat? x = some i)
    (hy : integerOfFloat? y = some j) : floatRank x = floatRank y ↔ i = j := by
  constructor
  · intro h
    rw [integerOfFloat?_congr h, hy] at hx
    exact (Option.some.inj hx).symm
  · rintro rfl
    exact floatRank_eq_of_integer hx hy

/-- The double nearest to a number is a number too: the same one below 2⁵³, and from there on none
below 2⁵³. -/
theorem exists_nearestBits {n : Nat} (hn : n ≠ 0) (hlt : n < 0x10000000000000000) :
    ∃ s e, FitsDouble s e ∧ magnitudeBits s e = nearestBits n ∧ ∃ k : Nat,
      (k : ℚ) = s * (2 : ℚ) ^ e ∧ (n < 0x20000000000000 → k = n) ∧
      (0x20000000000000 ≤ n → 0x20000000000000 ≤ k) := by
  have hlog : n.log2 < 64 := (Nat.log2_lt hn).mpr hlt
  obtain ⟨hlow, hhigh⟩ := nearestSignificand_bounds hn
  have hbits : nearestBits n = (n.log2 + 1022) * 0x10000000000000 + nearestSignificand n :=
    if_neg hn
  rcases Nat.lt_or_ge n 0x20000000000000 with hsmall | hlarge
  · have hlog : n.log2 < 53 := (Nat.log2_lt hn).mpr hsmall
    have hhigh := nearestSignificand_lt hn hsmall
    refine ⟨nearestSignificand n, n.log2 - 52, ⟨hhigh, by omega, by omega, .inr hlow⟩, ?_, n, ?_,
      fun _ => rfl, fun hlarge => absurd hsmall hlarge.not_gt⟩
    · rw [hbits, magnitudeBits]
      push_cast
      omega
    · have hcast : (twoPow (52 - n.log2) : ℚ) = (2 : ℚ) ^ (-((n.log2 : Int) - 52)) := by
        rw [show -((n.log2 : Int) - 52) = (52 - n.log2 : Nat) by omega, zpow_natCast]
        exact Nat.cast_pow 2 _
      rw [nearestSignificand_of_lt hsmall, Nat.cast_mul, hcast, mul_assoc,
        ← zpow_add₀ two_ne_zero, neg_add_cancel, zpow_zero, mul_one]
  · -- A significand of 2⁵³ has been rounded up to the next power of two.
    have hnormal : ∃ s e : Nat, FitsDouble s e ∧ magnitudeBits s e = nearestBits n ∧
        0x10000000000000 ≤ s ∧ 1 ≤ e := by
      have hlog' : 53 ≤ n.log2 := (Nat.le_log2 hn).mpr hlarge
      rcases hhigh.lt_or_eq with hhigh | heq
      · refine ⟨nearestSignificand n, n.log2 - 52, ⟨hhigh, by omega, by omega, .inr hlow⟩, ?_,
          hlow, by omega⟩
        rw [hbits, magnitudeBits]
        omega
      · refine ⟨0x10000000000000, n.log2 - 51, ⟨by omega, by omega, by omega, .inr le_rfl⟩, ?_,
          le_rfl, by omega⟩
        rw [hbits, heq, magnitudeBits]
        omega
    obtain ⟨s, e, hfits, hmagnitude, hs, he⟩ := hnormal
    refine ⟨s, e, hfits, hmagnitude, s * 2 ^ e, ?_, fun hsmall => absurd hsmall hlarge.not_gt,
      fun _ => ?_⟩
    · rw [zpow_natCast]
      exact_mod_cast rfl
    · have hpower : 2 ^ 1 ≤ 2 ^ e := Nat.pow_le_pow_right two_pos he
      exact Nat.mul_le_mul hs hpower

/-- A sign and a magnitude that is not zero are those of their number. -/
theorem negative_and_magnitude_eq {negative : Bool} {i a b : Int} (ha : 0 ≤ a) (hb : 0 < b)
    (h : (if i < 0 then -b else b) = if negative then -a else a) :
    decide (i < 0) = negative ∧ a = b := by
  by_cases hi : i < 0 <;> cases negative
  · rw [if_pos hi, if_neg Bool.false_ne_true] at h
    omega
  · rw [if_pos hi, if_pos rfl] at h
    exact ⟨decide_eq_true hi, (Int.neg_inj.mp h).symm⟩
  · rw [if_neg hi, if_neg Bool.false_ne_true] at h
    exact ⟨decide_eq_false hi, h.symm⟩
  · rw [if_neg hi, if_pos rfl] at h
    omega

/-- The double nearest to an integer is an integer too: the same one below 2⁵³, and from there on
none below 2⁵³. -/
theorem exists_integer_floatOfInt {i : Int} (hi : i.natAbs < 0x10000000000000000) :
    ∃ j, integerOfFloat? (floatOfInt i) = some j ∧ (i.natAbs < 0x20000000000000 → j = i) ∧
      (0x20000000000000 ≤ i.natAbs → 0x20000000000000 ≤ j.natAbs) := by
  by_cases hzero : i.natAbs = 0
  · rw [Int.natAbs_eq_zero.mp hzero]
    exact ⟨0, by decide +kernel, fun _ => rfl, fun hlarge => absurd hlarge (by decide)⟩
  have hlt : nearestBits i.natAbs < 0x7ff0000000000000 := nearestBits_lt hi
  have hbits : (floatOfInt i).toBits.toNat % 0x8000000000000000 = nearestBits i.natAbs := by
    rw [floatOfInt_eq hi, toBits_signedDouble hlt.le]
    split_ifs <;> omega
  obtain ⟨negative, s, e, hx⟩ := exists_binaryOfFloat (hbits ▸ hlt)
  obtain ⟨hfits, hrank⟩ := floatRank_of_finite hx
  obtain ⟨s', e', hfits', hmagnitude, k, hvalue, hsmall, hlarge⟩ := exists_nearestBits hzero hi
  have hpos : 0 < magnitudeBits s' e' := hmagnitude ▸ Int.natCast_pos.mpr (nearestBits_pos hzero)
  rw [floatRank_floatOfInt hi, nearestRank, ← hmagnitude] at hrank
  obtain ⟨rfl, hsame⟩ := negative_and_magnitude_eq hfits.magnitudeBits_nonneg hpos hrank
  obtain ⟨rfl, rfl⟩ := hfits.eq_of_magnitudeBits_eq hfits' hsame
  have habs : (if i < 0 then -(k : Int) else k).natAbs = k := by split_ifs <;> omega
  refine ⟨if i < 0 then -k else k, integerOfFloat?_eq_some_iff.mpr ⟨_, s, e, hx, ?_, ?_⟩,
    fun h => ?_, fun h => ?_⟩
  · rw [habs, hvalue]
  · rw [habs]
    simp only [decide_eq_true_eq]
  · rw [hsmall h]
    split_ifs <;> omega
  · rw [habs]
    exact hlarge h

end ModelGraph
