import ModelGraph.Machine.Standard
import ModelGraph.Proofs.Machine.Outcome
import ModelGraph.Proofs.Number.Word

/-!
# Arithmetic on integers

Sums, differences and products of integers are exact: none is wrapped, and one that is no word is a
float. Division rounds to the floor, though the division of words cuts toward zero.
-/

namespace ModelGraph

/-! ## Division -/

/-- Division with the quotient rounded to the floor: what is left is zero or has the sign of the
divisor, and is below it in magnitude. -/
structure FloorDivision (a b quotient rest : Int) : Prop where
  sum : a = quotient * b + rest
  sign : rest = 0 ∨ rest.sign = b.sign
  small : rest.natAbs < b.natAbs

namespace FloorDivision

variable {a b quotient rest : Int}

theorem eq_fdiv_fmod (h : FloorDivision a b quotient rest) :
    quotient = a.fdiv b ∧ rest = a.fmod b := by
  have hsum : rest + b * quotient = a := by rw [h.sum, Int.mul_comm, Int.add_comm]
  have hsmall := h.small
  rcases Int.lt_trichotomy b 0 with hb | hb | hb
  · have hrest : rest ≤ 0 := by
      rcases h.sign with hzero | hsign
      · omega
      · rw [Int.sign_eq_neg_one_of_neg hb, Int.sign_eq_neg_one_iff_neg] at hsign
        omega
    obtain ⟨hq, hr⟩ := (Int.fdiv_fmod_unique' hb).mpr ⟨hsum, by omega, hrest⟩
    exact ⟨hq.symm, hr.symm⟩
  · omega
  · have hrest : 0 ≤ rest := by
      rcases h.sign with hzero | hsign
      · omega
      · rw [Int.sign_eq_one_of_pos hb, Int.sign_eq_one_iff_pos] at hsign
        omega
    obtain ⟨hq, hr⟩ := (Int.fdiv_fmod_unique hb).mpr ⟨hsum, hrest, by omega⟩
    exact ⟨hq.symm, hr.symm⟩

end FloorDivision

section Cut

variable {a b : Int}

theorem natAbs_tmod_lt (a : Int) (hb : b ≠ 0) : (a.tmod b).natAbs < b.natAbs := by
  rw [Int.natAbs_tmod]
  exact Nat.mod_lt _ (Int.natAbs_pos.mpr hb)

/-- What is left by the quotient cut toward zero has the sign of the dividend. -/
theorem tmod_neg_iff (h : a.tmod b ≠ 0) : a.tmod b < 0 ↔ a < 0 := by
  have hdvd : ¬ b ∣ a := mt Int.tmod_eq_zero_of_dvd h
  rw [← Int.sign_eq_neg_one_iff_neg, Int.sign_tmod, if_neg hdvd, Int.sign_eq_neg_one_iff_neg]

theorem sign_eq_sign (ha : a ≠ 0) (hb : b ≠ 0) (h : a < 0 ↔ b < 0) : a.sign = b.sign := by
  rcases Int.lt_or_gt_of_ne ha with hneg | hpos
  · rw [Int.sign_eq_neg_one_of_neg hneg, Int.sign_eq_neg_one_of_neg (h.mp hneg)]
  · rw [Int.sign_eq_one_of_pos hpos, Int.sign_eq_one_of_pos (by omega)]

/-- A quotient that leaves something is less than its dividend. -/
theorem natAbs_tdiv_lt (h : a.tmod b ≠ 0) : (a.tdiv b).natAbs < a.natAbs := by
  have hsum := Nat.div_add_mod a.natAbs b.natAbs
  have hrest : (a.tmod b).natAbs ≠ 0 := Int.natAbs_ne_zero.mpr h
  rw [Int.natAbs_tmod] at hrest
  rw [Int.natAbs_tdiv]
  change a.natAbs / b.natAbs < a.natAbs
  rcases Nat.eq_zero_or_pos b.natAbs with hb | hb
  · rw [hb, Nat.mod_zero] at hrest
    rw [hb, Nat.div_zero]
    omega
  · have hle := Nat.le_mul_of_pos_left (a.natAbs / b.natAbs) hb
    omega

/-- The quotient cut toward zero is the one rounded to the floor if nothing is left or the signs
agree. -/
theorem floorDivision_tdiv (hb : b ≠ 0) (h : a.tmod b ≠ 0 → (a < 0 ↔ b < 0)) :
    FloorDivision a b (a.tdiv b) (a.tmod b) where
  sum := (Int.tdiv_mul_add_tmod a b).symm
  sign := by
    by_cases hrest : a.tmod b = 0
    · exact .inl hrest
    · exact .inr (sign_eq_sign hrest hb ((tmod_neg_iff hrest).trans (h hrest)))
  small := natAbs_tmod_lt a hb

/-- Otherwise the quotient is less by one, and what is left more by the divisor. -/
theorem floorDivision_tdiv_sub_one (hb : b ≠ 0) (hrest : a.tmod b ≠ 0) (h : ¬ (a < 0 ↔ b < 0)) :
    FloorDivision a b (a.tdiv b - 1) (a.tmod b + b) where
  sum := by
    have hsum := Int.tdiv_mul_add_tmod a b
    rw [Int.sub_mul, Int.one_mul]
    omega
  sign := by
    have hsmall := natAbs_tmod_lt a hb
    rw [← tmod_neg_iff hrest] at h
    exact .inr (sign_eq_sign (by omega) hb (by omega))
  small := by
    have hsmall := natAbs_tmod_lt a hb
    rw [← tmod_neg_iff hrest] at h
    omega

end Cut

section Words

variable {a b : Int64}

theorem toInt_div (h : a = Int64.minValue → b ≠ -1) : (a / b).toInt = a.toInt.tdiv b.toInt := by
  by_cases ha : a = Int64.minValue
  · exact Int64.toInt_div_of_ne_right a b (h ha)
  · exact Int64.toInt_div_of_ne_left a b ha

/-- The quotient of two words that is cut toward zero is above the one that is rounded to the
floor. -/
def Corrected (a b : Int64) : Prop := a.toInt.tmod b.toInt ≠ 0 ∧ ¬ (a.toInt < 0 ↔ b.toInt < 0)

theorem mod_bne_zero_iff : (a % b != 0) = true ↔ a.toInt.tmod b.toInt ≠ 0 := by
  rw [bne_iff_ne, ne_eq, ← Int64.toInt_inj, Int64.toInt_mod, Int64.toInt_zero]

theorem decide_neg_bne_iff :
    (decide (a < 0) != decide (b < 0)) = true ↔ ¬ (a.toInt < 0 ↔ b.toInt < 0) := by
  rw [bne_iff_ne, ne_eq, decide_eq_decide, Int64.lt_iff_toInt_lt, Int64.lt_iff_toInt_lt,
    Int64.toInt_zero]

/-- Both tests of signs find the same: where something is left, it has the sign of the dividend. -/
theorem corrected_iff :
    ((a % b != 0 && decide (a < 0) != decide (b < 0)) = true ↔ Corrected a b) ∧
    ((a % b != 0 && decide (a % b < 0) != decide (b < 0)) = true ↔ Corrected a b) := by
  simp only [Bool.and_eq_true, mod_bne_zero_iff, decide_neg_bne_iff, Int64.toInt_mod]
  refine ⟨Iff.rfl, and_congr_right fun hrest => ?_⟩
  rw [tmod_neg_iff hrest]

/-- Division of words rounds to the floor. -/
theorem floorDivision_words (hb : b ≠ 0) (h : a = Int64.minValue → b ≠ -1) :
    FloorDivision a.toInt b.toInt (floorQuotient a b).toInt (floorRemainder a b).toInt := by
  have hquotient := toInt_div h
  have hrest := Int64.toInt_mod a b
  have hb := toInt_ne_zero hb
  unfold floorQuotient floorRemainder
  by_cases hcorrected : Corrected a b
  · have hleft := hcorrected.1
    have hsigns := hcorrected.2
    rw [if_pos (corrected_iff.1.mpr hcorrected), if_pos (corrected_iff.2.mpr hcorrected),
      toInt_sub_of_inInt64, toInt_add_of_inInt64, hquotient, hrest]
    · exact floorDivision_tdiv_sub_one hb hleft hsigns
    -- What is left and the divisor have different signs, so their sum is between them.
    · rw [← tmod_neg_iff hleft] at hsigns
      have hsmall := natAbs_tmod_lt a.toInt hb
      have hlow := Int64.le_toInt b
      have hhigh := Int64.toInt_lt b
      rw [inInt64_iff, hrest]
      omega
    · have hless := natAbs_tdiv_lt hleft
      have hlow := Int64.le_toInt a
      have hhigh := Int64.toInt_lt a
      rw [inInt64_iff, hquotient, Int64.toInt_one]
      omega
  · rw [if_neg (mt corrected_iff.1.mp hcorrected), if_neg (mt corrected_iff.2.mp hcorrected),
      hquotient, hrest]
    exact floorDivision_tdiv hb fun hleft =>
      Classical.not_not.mp fun hsigns => hcorrected ⟨hleft, hsigns⟩

end Words

/-! ## Operations -/

open Exec

namespace Heap

variable {h : Heap} {op : ArithmeticOp} {a b : Int64}

theorem arithmetic_of_whole {i : Int64} (hop : op.onWholes a b = .ok (some i)) :
    h.arithmetic op (.int a) (.int b) = .ok (.int i) := by
  simp only [arithmetic, Value.whole?, hop]
  rfl

theorem arithmetic_of_no_whole (hop : op.onWholes a b = .ok none) :
    h.arithmetic op (.int a) (.int b) =
      .ok (.float (op.onFloats (floatOfWord a) (floatOfWord b))) := by
  simp only [arithmetic, Value.whole?, hop]
  rfl

/-- Where the exact result is a word, it is the result, and where it is none, the result is that of
the nearest floats. -/
theorem arithmetic_of_exact {exact : Int} (hop : op.onWholes a b = .ok (int64? exact)) :
    (∀ i : Int64, i.toInt = exact → h.arithmetic op (.int a) (.int b) = .ok (.int i)) ∧
    ((∀ i : Int64, i.toInt ≠ exact) → h.arithmetic op (.int a) (.int b) =
      .ok (.float (op.onFloats (floatOfWord a) (floatOfWord b)))) := by
  constructor
  · intro i hi
    rw [int64?_eq_some_iff.mpr hi] at hop
    exact arithmetic_of_whole hop
  · intro hnone
    rw [int64?_eq_none_iff.mpr hnone] at hop
    exact arithmetic_of_no_whole hop

end Heap

theorem outcome_arithmetic (op : ArithmeticOp) (left right : Value) (m : Machine) :
    (Builtin.arithmetic op left right).outcome m = (m.heap.arithmetic op left right, m) := by
  rw [Builtin.arithmetic, outcome_bind_ok (outcome_heap m), outcome_ofExcept]

theorem outcome_sum_int (a b : Int64) (m : Machine) :
    (Builtin.sum (.int a) (.int b)).outcome m = (m.heap.arithmetic .add (.int a) (.int b), m) := by
  rw [Builtin.sum, outcome_bind_ok (outcome_heap m)]
  exact outcome_ofExcept _ m

/-- An operation that scripts call by name, and what it is on integers and on floats. -/
structure ExactOperation where
  name : String
  primitive : Primitive
  onIntegers : Int → Int → Int
  onFloats : Float → Float → Float

/-- The operations whose result on integers is exact wherever it is a word. -/
def exactOperations : List ExactOperation :=
  [⟨"torch.add", .add, (· + ·), (· + ·)⟩, ⟨"torch.sub", .sub, (· - ·), (· - ·)⟩,
    ⟨"torch.mul", .mul, (· * ·), (· * ·)⟩]

namespace ExactOperation

variable {o : ExactOperation}

theorem mem_builtinFunctions (ho : o ∈ exactOperations) :
    (o.name, o.primitive) ∈ builtinFunctions := by
  simp only [exactOperations, List.mem_cons, List.not_mem_nil, or_false] at ho
  rcases ho with rfl | rfl | rfl <;> simp [builtinFunctions]

theorem exists_arithmeticOp (ho : o ∈ exactOperations) (a b : Int64) (host : Host) (m : Machine) :
    ∃ op : ArithmeticOp,
      (host.primitive o.primitive [.int a, .int b]).outcome m =
        (m.heap.arithmetic op (.int a) (.int b), m) ∧
      op.onWholes a b = .ok (int64? (o.onIntegers a.toInt b.toInt)) ∧ op.onFloats = o.onFloats := by
  simp only [exactOperations, List.mem_cons, List.not_mem_nil, or_false] at ho
  rcases ho with rfl | rfl | rfl
  · exact ⟨.add, outcome_sum_int a b m, rfl, rfl⟩
  · exact ⟨.sub, outcome_arithmetic .sub _ _ m, rfl, rfl⟩
  · exact ⟨.mul, outcome_arithmetic .mul _ _ m, rfl, rfl⟩

theorem outcome_eq (ho : o ∈ exactOperations) (a b : Int64) (host : Host) (m : Machine) :
    (∀ i : Int64, i.toInt = o.onIntegers a.toInt b.toInt →
      (host.primitive o.primitive [.int a, .int b]).outcome m = (.ok (.int i), m)) ∧
    ((∀ i : Int64, i.toInt ≠ o.onIntegers a.toInt b.toInt) →
      (host.primitive o.primitive [.int a, .int b]).outcome m =
        (.ok (.float (o.onFloats (floatOfWord a) (floatOfWord b))), m)) := by
  obtain ⟨op, hprimitive, hop, hfloats⟩ := exists_arithmeticOp ho a b host m
  obtain ⟨hwhole, hnone⟩ := m.heap.arithmetic_of_exact hop
  rw [hprimitive]
  exact ⟨fun i hi => by rw [hwhole i hi], fun hi => by rw [hnone hi, hfloats]⟩

end ExactOperation

theorem outcome_floorDiv {a b : Int64} (hb : b ≠ 0) (host : Host) (m : Machine) :
    (host.primitive .floorDiv [.int a, .int b]).outcome m =
      (.ok (.int (floorQuotient a b)), m) ∧
    (host.primitive .remainder [.int a, .int b]).outcome m =
      (.ok (.int (floorRemainder a b)), m) := by
  have hquotient : ArithmeticOp.floorDiv.onWholes a b = .ok (some (floorQuotient a b)) := if_neg hb
  have hrest : ArithmeticOp.remainder.onWholes a b = .ok (some (floorRemainder a b)) := if_neg hb
  rw [← m.heap.arithmetic_of_whole hquotient, ← m.heap.arithmetic_of_whole hrest]
  exact ⟨outcome_arithmetic .floorDiv _ _ m, outcome_arithmetic .remainder _ _ m⟩

/-- Sums, differences and products are integers wherever they are words, and else those of the
nearest floats. The quotient and what is left are the only ones of a division to the floor; the least
word by -1 is left out, as its quotient is no word. -/
theorem outcome_arithmetic_int (a b : Int64) :
    (∀ o ∈ exactOperations, (o.name, o.primitive) ∈ builtinFunctions ∧
      ∀ (host : Host) (m : Machine),
        (∀ i : Int64, i.toInt = o.onIntegers a.toInt b.toInt →
          (host.primitive o.primitive [.int a, .int b]).outcome m = (.ok (.int i), m)) ∧
        ((∀ i : Int64, i.toInt ≠ o.onIntegers a.toInt b.toInt) →
          (host.primitive o.primitive [.int a, .int b]).outcome m =
            (.ok (.float (o.onFloats (floatOfWord a) (floatOfWord b))), m))) ∧
    ("torch.floordiv", .floorDiv) ∈ builtinFunctions ∧
    ("torch.remainder", .remainder) ∈ builtinFunctions ∧
    (b ≠ 0 → (a = Int64.minValue → b ≠ -1) → ∃ quotient rest : Int64,
      FloorDivision a.toInt b.toInt quotient.toInt rest.toInt ∧
      (∀ quotient' rest', FloorDivision a.toInt b.toInt quotient' rest' →
        quotient' = quotient.toInt ∧ rest' = rest.toInt) ∧
      ∀ (host : Host) (m : Machine),
        (host.primitive .floorDiv [.int a, .int b]).outcome m = (.ok (.int quotient), m) ∧
        (host.primitive .remainder [.int a, .int b]).outcome m = (.ok (.int rest), m)) := by
  refine ⟨fun o ho => ⟨ExactOperation.mem_builtinFunctions ho, ExactOperation.outcome_eq ho a b⟩,
    by simp [builtinFunctions], by simp [builtinFunctions], fun hb hmin => ?_⟩
  have hfloor := floorDivision_words hb hmin
  refine ⟨_, _, hfloor, fun quotient' rest' h => ?_, outcome_floorDiv hb⟩
  obtain ⟨hquotient, hrest⟩ := hfloor.eq_fdiv_fmod
  rw [hquotient, hrest]
  exact h.eq_fdiv_fmod

/-- At the least word: a sum that is a word, a difference that is none, and a division. -/
theorem outcome_arithmetic_int_minValue :
    (-9223372036854775805 : Int64).toInt = Int64.minValue.toInt + (3 : Int64).toInt ∧
    (Host.standard.primitive .add [.int Int64.minValue, .int 3]).outcome .standard =
      (.ok (.int (-9223372036854775805)), .standard) ∧
    (∀ i : Int64, i.toInt ≠ Int64.minValue.toInt - (3 : Int64).toInt) ∧
    (Host.standard.primitive .sub [.int Int64.minValue, .int 3]).outcome .standard =
      (.ok (.float (floatOfWord Int64.minValue - floatOfWord 3)), .standard) ∧
    (3 : Int64) ≠ 0 ∧ (Int64.minValue = Int64.minValue → (3 : Int64) ≠ -1) ∧
    (Host.standard.primitive .floorDiv [.int Int64.minValue, .int 3]).outcome .standard =
      (.ok (.int (-3074457345618258603)), .standard) ∧
    (Host.standard.primitive .remainder [.int Int64.minValue, .int 3]).outcome .standard =
      (.ok (.int 1), .standard) := by
  have hnone : ∀ i : Int64, i.toInt ≠ Int64.minValue.toInt - (3 : Int64).toInt := fun i hi => by
    have hlow := Int64.le_toInt i
    rw [hi] at hlow
    exact absurd hlow (by decide)
  have hfloor : FloorDivision Int64.minValue.toInt (3 : Int64).toInt
      (-3074457345618258603 : Int64).toInt (1 : Int64).toInt :=
    ⟨by decide, by decide, by decide⟩
  obtain ⟨hexact, -, -, hdivision⟩ := outcome_arithmetic_int Int64.minValue 3
  have hadd := hexact ⟨"torch.add", .add, (· + ·), (· + ·)⟩ (.head _)
  have hsub := hexact ⟨"torch.sub", .sub, (· - ·), (· - ·)⟩ (.tail _ (.head _))
  obtain ⟨quotient, rest, -, hunique, houtcome⟩ := hdivision (by decide) (by decide)
  obtain ⟨hquotient, hrest⟩ := hunique _ _ hfloor
  obtain ⟨hfloorDiv, hremainder⟩ := houtcome Host.standard .standard
  rw [← Int64.toInt_inj.mp hquotient] at hfloorDiv
  rw [← Int64.toInt_inj.mp hrest] at hremainder
  exact ⟨by decide, (hadd.2 _ _).1 _ (by decide), hnone, (hsub.2 _ _).2 hnone, by decide, by decide,
    hfloorDiv, hremainder⟩

end ModelGraph
