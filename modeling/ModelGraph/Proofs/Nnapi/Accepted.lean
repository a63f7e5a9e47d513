import Mathlib.Algebra.GroupWithZero.Nat
import ModelGraph.Proofs.Nnapi.Blob

/-!
# Decoded models keep to their bytes

What the words of some bytes announce, a model decoded from them has: as many operands, operations and
indices as the header counts, as many dimensions and indices as the records declare, values just where
headers name operands, and no byte more than all of these take.
-/

namespace ModelGraph.Nnapi

namespace Blob

variable {data : Bytes}

/-! ## Values -/

theorem header_operand_eq_iff {j : Nat} (hnamed : 0 ≤ namedOperand data j) (k : Nat) :
    (header data j).operand = k ↔ namedOperand data j = k := by
  unfold header
  dsimp only
  omega

theorem isSome_payload?_iff (j : Nat) :
    (payload? data j).isSome ↔ (payloadForm? data j).isSome := by
  rw [payload?, Option.isSome_map]

/-- An operand has a value as soon as some header names it. -/
theorem isSome_valueAmong_iff (k : Nat) {count : Nat}
    (hform : ∀ j < count, (payloadForm? data j).isSome) :
    (valueAmong data k count).isSome ↔ ∃ j < count, (header data j).operand = k := by
  induction count with
  | zero => simp [valueAmong]
  | succ count ih =>
      rw [valueAmong]
      split_ifs with hk
      · rw [isSome_payload?_iff]
        exact iff_of_true (hform count (Nat.lt_succ_self count)) ⟨count, Nat.lt_succ_self count, hk⟩
      · rw [ih fun j hj => hform j (Nat.lt_succ_of_lt hj)]
        constructor
        · rintro ⟨j, hj, hname⟩
          exact ⟨j, Nat.lt_succ_of_lt hj, hname⟩
        · rintro ⟨j, hj, hname⟩
          rcases Nat.lt_succ_iff_lt_or_eq.mp hj with hlt | rfl
          · exact ⟨j, hlt, hname⟩
          · exact absurd hname hk

/-- The value of an operand is the payload of the last header that names it. -/
theorem valueAmong_eq_payload? {k j count : Nat} (hj : j < count) (hname : (header data j).operand = k)
    (hlast : ∀ i < count, j < i → (header data i).operand ≠ k) :
    valueAmong data k count = payload? data j := by
  induction count with
  | zero => exact absurd hj (Nat.not_lt_zero j)
  | succ count ih =>
      rw [valueAmong]
      rcases Nat.lt_succ_iff_lt_or_eq.mp hj with hlt | rfl
      · rw [if_neg (hlast count (Nat.lt_succ_self count) hlt)]
        exact ih hlt fun i hi => hlast i (Nat.lt_succ_of_lt hi)
      · rw [if_pos hname]

/-! ## Lengths of sections -/

theorem sum_range_succ (size : Nat → Nat) (count : Nat) :
    ((List.range (count + 1)).map size).sum = ((List.range count).map size).sum + size count := by
  simp [List.range_succ]

theorem dimensionPlace_eq (k : Nat) : dimensionPlace data k =
    operationPlace data (operationCount data) + 4 * ((List.range k).map (rank data)).sum := by
  induction k with
  | zero => rfl
  | succ k ih =>
      rw [dimensionPlace, ih, sum_range_succ]
      omega

theorem payloadPlace_eq (j : Nat) : payloadPlace data j =
    dimensionPlace data (operandCount data) + ((List.range j).map (payloadSize data)).sum := by
  induction j with
  | zero => rfl
  | succ j ih =>
      rw [payloadPlace, ih, sum_range_succ]
      omega

theorem indexPlace_eq (i : Nat) : indexPlace data i = payloadPlace data (valueCount data) +
    4 * ((List.range i).map fun i => inputArity data i + outputArity data i).sum := by
  induction i with
  | zero => rfl
  | succ i ih =>
      rw [indexPlace, ih, sum_range_succ]
      omega

/-- The sections end where their parts add up to. -/
theorem stop_eq_sum : stop data = 24 + 16 * operandCount data + 12 * valueCount data +
    12 * operationCount data + 4 * ((List.range (operandCount data)).map (rank data)).sum +
    ((List.range (valueCount data)).map (payloadSize data)).sum +
    4 * ((List.range (operationCount data)).map fun i =>
      inputArity data i + outputArity data i).sum +
    4 * (inputCount data + outputCount data) := by
  unfold stop outputPlace inputPlace
  rw [indexPlace_eq, payloadPlace_eq, dimensionPlace_eq]
  unfold operationPlace headerPlace operandPlace
  omega

theorem length_indicesAt (place length : Nat) : (indicesAt data place length).length = length := by
  simp [indicesAt]

theorem length_dimensions (k : Nat) : (dimensions data k).length = rank data k := by
  simp [dimensions]

variable (data) in
/-- The bytes and a model agree on every number that the bytes declare. -/
structure Describes (m : Model) : Prop where
  operandCount : m.operands.length = (signedAt data 4).toInt
  valueCount : valueCount data = (signedAt data 8).toInt
  operationCount : m.operations.length = (signedAt data 12).toInt
  inputCount : m.inputs.length = (signedAt data 16).toInt
  outputCount : m.outputs.length = (signedAt data 20).toInt
  rank : ∀ k (hk : k < m.operands.length),
    m.operands[k].dimensions.length = (unsignedAt data (operandPlace k + 4)).toNat
  arities : ∀ i (hi : i < m.operations.length),
    m.operations[i].inputs.length = (unsignedAt data (operationPlace data i + 4)).toNat ∧
      m.operations[i].outputs.length = (unsignedAt data (operationPlace data i + 8)).toNat
  operationIndex : ∀ o ∈ m.operations, ∀ index ∈ o.inputs ++ o.outputs, index < m.operands.length
  index : ∀ index ∈ m.inputs ++ m.outputs, index < m.operands.length
  hasValue : ∀ k (hk : k < m.operands.length),
    m.operands[k].value.isSome ↔ ∃ j < Blob.valueCount data, namedOperand data j = k
  lastValue : ∀ k (hk : k < m.operands.length), ∀ j < Blob.valueCount data, namedOperand data j = k →
    (∀ i < Blob.valueCount data, j < i → namedOperand data i ≠ k) →
    m.operands[k].value = payload? data j
  length : data.length = 24 + 16 * m.operands.length + 12 * Blob.valueCount data +
    12 * m.operations.length + 4 * (m.operands.map fun o => o.dimensions.length).sum +
    ((List.range (Blob.valueCount data)).map (payloadSize data)).sum +
    4 * (m.operations.map fun o => o.inputs.length + o.outputs.length).sum +
    4 * (m.inputs.length + m.outputs.length)

end Blob

open Blob

variable {data : Bytes}

theorem natCast_countAt {place : Nat} (hcount : 0 ≤ signedAt data place) :
    (countAt data place : Int) = (signedAt data place).toInt := by
  rw [Int32.le_iff_toInt_le] at hcount
  exact Int.toNat_of_nonneg hcount

/-- Bytes that are decoded describe the decoded model to the last byte. -/
theorem Model.describes_of_decode {m : Model} (h : Model.decode data = .ok m) : Describes data m := by
  obtain ⟨hacc, rfl⟩ := decode_eq_ok_iff.mp h
  have hoperands : (Blob.model data).operands.length = operandCount data := by simp [Blob.model]
  have hoperations : (Blob.model data).operations.length = operationCount data := by simp [Blob.model]
  have hinputs : (Blob.model data).inputs.length = inputCount data := length_indicesAt _ _
  have houtputs : (Blob.model data).outputs.length = outputCount data := length_indicesAt _ _
  have hname : ∀ j < valueCount data, ∀ k : Nat,
      (header data j).operand = k ↔ namedOperand data j = k :=
    fun j hj => header_operand_eq_iff (hacc.named j hj).1
  have hdimensions : (Blob.model data).operands.map (fun o => o.dimensions.length) =
      (List.range (operandCount data)).map (rank data) := by
    simp [Blob.model, operandAmong, length_dimensions]
  have harities : (Blob.model data).operations.map (fun o => o.inputs.length + o.outputs.length) =
      (List.range (operationCount data)).map fun i => inputArity data i + outputArity data i := by
    simp [Blob.model, Blob.operation, length_indicesAt]
  constructor
  case operandCount =>
    rw [hoperands]
    exact natCast_countAt (hacc.counts 4 (by simp))
  case valueCount => exact natCast_countAt (hacc.counts 8 (by simp))
  case operationCount =>
    rw [hoperations]
    exact natCast_countAt (hacc.counts 12 (by simp))
  case inputCount =>
    rw [hinputs]
    exact natCast_countAt (hacc.counts 16 (by simp))
  case outputCount =>
    rw [houtputs]
    exact natCast_countAt (hacc.counts 20 (by simp))
  case rank =>
    intro k hk
    simp only [Blob.model, List.getElem_map, List.getElem_range, operandAmong]
    exact length_dimensions k
  case arities =>
    intro i hi
    simp only [Blob.model, List.getElem_map, List.getElem_range, Blob.operation]
    exact ⟨length_indicesAt _ _, length_indicesAt _ _⟩
  case operationIndex =>
    rw [hoperands]
    intro o ho
    obtain ⟨i, hi, rfl⟩ := List.mem_map.mp ho
    exact hacc.operation i (List.mem_range.mp hi)
  case index =>
    rw [hoperands]
    exact hacc.index
  case hasValue =>
    intro k hk
    simp only [Blob.model, List.getElem_map, List.getElem_range, operandAmong]
    rw [isSome_valueAmong_iff k hacc.form]
    constructor
    · rintro ⟨j, hj, hjk⟩
      exact ⟨j, hj, (hname j hj k).mp hjk⟩
    · rintro ⟨j, hj, hjk⟩
      exact ⟨j, hj, (hname j hj k).mpr hjk⟩
  case lastValue =>
    intro k hk j hj hjk hlast
    simp only [Blob.model, List.getElem_map, List.getElem_range, operandAmong]
    apply valueAmong_eq_payload? hj ((hname j hj k).mpr hjk)
    intro i hi hji hik
    exact hlast i hi hji ((hname i hi k).mp hik)
  case length =>
    rw [hdimensions, harities, hoperands, hoperations, hinputs, houtputs, hacc.length]
    exact stop_eq_sum

/-- An integer that two headers name, the second one with a buffer, and an operation on it. -/
def twiceNamed : Bytes := [
  1, 0, 0, 0, 1, 0, 0, 0, 2, 0, 0, 0, 1, 0, 0, 0, 0, 0, 0, 0, 1, 0, 0, 0,
  1, 0, 0, 0, 1, 0, 0, 0, 0, 0, 0, 0, 0, 0, 0, 0,
  0, 0, 0, 0, 0, 0, 0, 0, 4, 0, 0, 0, 0, 0, 0, 0, 2, 0, 0, 0, 12, 0, 0, 0,
  8, 0, 0, 0, 1, 0, 0, 0, 1, 0, 0, 0,
  5, 0, 0, 0,
  7, 0, 0, 0, 1, 0, 0, 0, 64, 0, 0, 0, 4, 0, 0, 0,
  0, 0, 0, 0, 0, 0, 0, 0,
  0, 0, 0, 0]

def twiceNamedModel : Model :=
  ⟨1, [⟨.int32, [5], 0, 0, some (.buffer 1 64 4)⟩], [⟨⟨8⟩, [0], [0]⟩], [], [0]⟩

theorem decode_twiceNamed : Model.decode twiceNamed = .ok twiceNamedModel := by decide +kernel

theorem Model.describes_twiceNamed :
    Model.decode twiceNamed = .ok twiceNamedModel ∧ Describes twiceNamed twiceNamedModel :=
  ⟨decode_twiceNamed, Model.describes_of_decode decode_twiceNamed⟩

end ModelGraph.Nnapi
