import ModelGraph.Proofs.Nnapi.Places

/-!
# Serialized models by the places of their words

The words of a serialized model tell by themselves where each section and each record of it stands, and
what the model is. The decoder accepts some bytes just where these words pass its checks and the bytes
end after the last index; it then gives this model.
-/

namespace ModelGraph.Nnapi

/-! ## Payloads -/

/-- How the payload of a value is laid out. -/
inductive PayloadForm where
  /-- One byte, filled up to a word. -/
  | flag
  | word
  /-- As many bytes as the header of the value says. -/
  | run (length : Nat)
  /-- Number, offset and length of a buffer. -/
  | buffer
  deriving DecidableEq

namespace PayloadForm

def size : PayloadForm → Nat
  | flag => 4
  | word => 4
  | run length => length
  | buffer => 12

/-- The value of a payload at a place. -/
def value (data : Bytes) (place : Nat) : PayloadForm → OperandValue
  | flag => .bool ((bytesAt data place 1).any (· ≠ 0))
  | word => .int (signedAt data place)
  | run length => .bytes (bytesAt data place length)
  | buffer =>
    .buffer (unsignedAt data place) (unsignedAt data (place + 4)) (unsignedAt data (place + 8))

/-- The form of a payload, by the header of the value and the type of its operand. -/
def of? (header : ValueHeader) (type : OperandType) : Option PayloadForm :=
  if header.source = 0 then
    if type = .boolean then some flag
    else if type = .int32 then some word
    else if type = .int32Tensor then some (run header.length.toNat)
    else none
  else if header.source = 2 ∧ header.length = 12 then some buffer
  else none

end PayloadForm

namespace Blob

variable (data : Bytes)

/-! ## Header -/

def countAt (place : Nat) : Nat := (signedAt data place).toInt.toNat

def operandCount : Nat := countAt data 4

def valueCount : Nat := countAt data 8

def operationCount : Nat := countAt data 12

def inputCount : Nat := countAt data 16

def outputCount : Nat := countAt data 20

/-! ## Records -/

def operandPlace (k : Nat) : Nat := 24 + 16 * k

def operandRecord (k : Nat) : OperandRecord :=
  ⟨⟨signedAt data (operandPlace k)⟩, unsignedAt data (operandPlace k + 4),
    unsignedAt data (operandPlace k + 8), signedAt data (operandPlace k + 12)⟩

def headerPlace (j : Nat) : Nat := operandPlace (operandCount data) + 12 * j

/-- The number of the operand that a value header names. -/
def namedOperand (j : Nat) : Int := (signedAt data (headerPlace data j)).toInt

def header (j : Nat) : ValueHeader :=
  ⟨(namedOperand data j).toNat, signedAt data (headerPlace data j + 4),
    unsignedAt data (headerPlace data j + 8)⟩

def operationPlace (i : Nat) : Nat := headerPlace data (valueCount data) + 12 * i

def operationRecord (i : Nat) : OperationRecord :=
  ⟨⟨signedAt data (operationPlace data i)⟩, unsignedAt data (operationPlace data i + 4),
    unsignedAt data (operationPlace data i + 8)⟩

/-! ## Dimensions and payloads -/

def rank (k : Nat) : Nat := (operandRecord data k).rank.toNat

/-- Where the dimensions of an operand stand: behind those of the operands before it. -/
def dimensionPlace : Nat → Nat
  | 0 => operationPlace data (operationCount data)
  | k + 1 => dimensionPlace k + 4 * rank data k

def dimensions (k : Nat) : List UInt32 :=
  (List.range (rank data k)).map fun d => unsignedAt data (dimensionPlace data k + 4 * d)

def payloadForm? (j : Nat) : Option PayloadForm :=
  PayloadForm.of? (header data j) (operandRecord data (header data j).operand).type

def payloadSize (j : Nat) : Nat := ((payloadForm? data j).map PayloadForm.size).getD 0

/-- Where the payload of a value stands: behind those of the values before it. -/
def payloadPlace : Nat → Nat
  | 0 => dimensionPlace data (operandCount data)
  | j + 1 => payloadPlace j + payloadSize data j

def payload? (j : Nat) : Option OperandValue :=
  (payloadForm? data j).map (PayloadForm.value data (payloadPlace data j))

/-- The value of an operand by the first `count` headers: the last one that names it decides. -/
def valueAmong (k : Nat) : (count : Nat) → Option OperandValue
  | 0 => none
  | j + 1 => if (header data j).operand = k then payload? data j else valueAmong k j

/-- An operand with its value by the first `count` headers. -/
def operandAmong (count k : Nat) : Operand :=
  ⟨(operandRecord data k).type, dimensions data k, (operandRecord data k).scale,
    (operandRecord data k).zeroPoint, valueAmong data k count⟩

/-! ## Indices -/

def indicesAt (place length : Nat) : List Nat :=
  (List.range length).map fun i => (unsignedAt data (place + 4 * i)).toNat

def inputArity (i : Nat) : Nat := (operationRecord data i).inputCount.toNat

def outputArity (i : Nat) : Nat := (operationRecord data i).outputCount.toNat

/-- Where the indices of an operation stand: behind those of the operations before it. -/
def indexPlace : Nat → Nat
  | 0 => payloadPlace data (valueCount data)
  | i + 1 => indexPlace i + 4 * inputArity data i + 4 * outputArity data i

def operation (i : Nat) : Operation :=
  ⟨(operationRecord data i).type, indicesAt data (indexPlace data i) (inputArity data i),
    indicesAt data (indexPlace data i + 4 * inputArity data i) (outputArity data i)⟩

def inputPlace : Nat := indexPlace data (operationCount data)

def outputPlace : Nat := inputPlace data + 4 * inputCount data

/-- Where the last section ends. -/
def stop : Nat := outputPlace data + 4 * outputCount data

/-- The model that the words describe. -/
def model : Model where
  version := signedAt data 0
  operands := (List.range (operandCount data)).map (operandAmong data (valueCount data))
  operations := (List.range (operationCount data)).map (operation data)
  inputs := indicesAt data (inputPlace data) (inputCount data)
  outputs := indicesAt data (outputPlace data) (outputCount data)

/-- The checks that the words have to pass. -/
structure Accepted : Prop where
  version : signedAt data 0 = 1
  counts : ∀ place ∈ [4, 8, 12, 16, 20], 0 ≤ signedAt data place
  named : ∀ j < valueCount data, 0 ≤ namedOperand data j ∧ namedOperand data j < operandCount data
  form : ∀ j < valueCount data, (payloadForm? data j).isSome
  operation : ∀ i < operationCount data, ∀ index ∈ (operation data i).inputs ++ (operation data i).outputs,
    index < operandCount data
  index : ∀ index ∈ (model data).inputs ++ (model data).outputs, index < operandCount data
  length : data.length = stop data

end Blob

/-! ## Records and payloads are read at their places -/

open Read Blob

variable (data : Bytes)

theorem spans_operandRecord (k : Nat) :
    Spans readOperandRecord data (operandPlace k) (operandPlace (k + 1)) True (operandRecord data k) := by
  unfold readOperandRecord
  apply spans_signed.andThen
  apply spans_unsigned.andThen
  apply spans_unsigned.andThen
  refine (spans_signed.map _).congr ?_ Iff.rfl
  unfold operandPlace
  omega

theorem spans_header (j : Nat) :
    Spans (readValueHeader (operandCount data)) data (headerPlace data j) (headerPlace data (j + 1))
      (0 ≤ namedOperand data j ∧ namedOperand data j < operandCount data) (header data j) := by
  unfold readValueHeader
  apply spans_signed.andThen
  refine ((spans_checkIndex _ _).bind fun _ =>
    spans_signed.andThen (spans_unsigned.map _)).congr ?_ (Iff.of_eq (and_true _))
  unfold headerPlace
  omega

theorem spans_operationRecord (i : Nat) :
    Spans readOperationRecord data (operationPlace data i) (operationPlace data (i + 1)) True
      (operationRecord data i) := by
  unfold readOperationRecord
  apply spans_signed.andThen
  apply spans_unsigned.andThen
  refine (spans_unsigned.map _).congr ?_ Iff.rfl
  unfold operationPlace
  omega

theorem spans_words (place length : Nat) :
    Spans (times unsigned length) data place (place + 4 * length) True
      ((List.range length).map fun d => unsignedAt data (place + 4 * d)) := by
  have hword (d : Nat) : Spans unsigned data (place + 4 * d) (place + 4 * (d + 1)) True
      (unsignedAt data (place + 4 * d)) := spans_unsigned
  have htimes := Spans.times length fun d _ => hword d
  exact htimes.congr rfl (iff_of_true (fun _ _ => trivial) trivial)

theorem spans_operand (k : Nat) :
    Spans (readOperand (operandRecord data k)) data (dimensionPlace data k)
      (dimensionPlace data (k + 1)) True (operandAmong data 0 k) :=
  (spans_words data (dimensionPlace data k) (rank data k)).map _

variable {data}

theorem spans_payload {header : ValueHeader} {type : OperandType} {form : PayloadForm}
    (hform : PayloadForm.of? header type = some form) (place : Nat) :
    Spans (readPayload header type) data place (place + form.size) True (form.value data place) := by
  unfold PayloadForm.of? at hform
  unfold readPayload
  split_ifs at hform with hsource hboolean hint htensor hbuffer <;> cases hform
  · rw [if_pos hsource, if_pos hboolean]
    apply (spans_bytes 1).andThen
    exact (spans_bytes 3).map _
  · rw [if_pos hsource, if_neg hboolean, if_pos hint]
    exact spans_signed.map _
  · rw [if_pos hsource, if_neg hboolean, if_neg hint, if_pos htensor]
    exact (spans_bytes _).map _
  · rw [if_neg hsource, if_pos hbuffer.1, if_neg (not_not.mpr hbuffer.2)]
    apply spans_unsigned.andThen
    apply spans_unsigned.andThen
    exact spans_unsigned.map _

theorem exists_fail_of_form_eq_none {header : ValueHeader} {type : OperandType}
    (hform : PayloadForm.of? header type = none) : ∃ e, readPayload header type = fail e := by
  unfold PayloadForm.of? at hform
  unfold readPayload
  split_ifs at hform with hsource hboolean hint htensor hbuffer
  · rw [if_pos hsource, if_neg hboolean, if_neg hint, if_neg htensor]
    exact ⟨_, rfl⟩
  · rw [if_neg hsource]
    split_ifs with hnumbered hlength hmemory
    · exact ⟨_, rfl⟩
    · exact absurd ⟨hnumbered, not_not.mp hlength⟩ hbuffer
    · exact ⟨_, rfl⟩
    · exact ⟨_, rfl⟩

/-! ## Values -/

theorem set_map_range {α : Type} (f : Nat → α) (count i : Nat) (a : α) :
    ((List.range count).map f).set i a = (List.range count).map fun k => if i = k then a else f k := by
  apply List.ext_getElem
  · simp
  · intro k hk hk'
    simp [List.getElem_set]

theorem header_operand_lt {j : Nat}
    (hnamed : 0 ≤ namedOperand data j ∧ namedOperand data j < operandCount data) :
    (header data j).operand < operandCount data := by
  unfold header
  dsimp only
  omega

/-- A header changes the operand that it names. -/
theorem operandAmong_succ (j k : Nat) : operandAmong data (j + 1) k =
    if (header data j).operand = k then { operandAmong data j k with value := payload? data j }
    else operandAmong data j k := by
  unfold operandAmong
  rw [valueAmong]
  split_ifs <;> rfl

theorem spans_value {j : Nat}
    (hnamed : 0 ≤ namedOperand data j ∧ namedOperand data j < operandCount data) :
    Spans (readValue ((List.range (operandCount data)).map (operandAmong data j)) (header data j)) data
      (payloadPlace data j) (payloadPlace data (j + 1)) (payloadForm? data j).isSome
      ((List.range (operandCount data)).map (operandAmong data (j + 1))) := by
  have hfound : ((List.range (operandCount data)).map (operandAmong data j))[(header data j).operand]? =
      some (operandAmong data j (header data j).operand) := by
    rw [List.getElem?_map, List.getElem?_range (header_operand_lt hnamed)]
    rfl
  unfold readValue
  rw [hfound]
  dsimp only
  cases hform : payloadForm? data j with
  | none =>
      obtain ⟨e, hfail⟩ := exists_fail_of_form_eq_none hform
      have htype : (operandAmong data j (header data j).operand).type =
          (operandRecord data (header data j).operand).type := rfl
      rw [htype, hfail]
      exact (spans_fail e _).congr rfl (by simp)
  | some form =>
      have hplace : payloadPlace data (j + 1) = payloadPlace data j + form.size := by
        rw [payloadPlace, payloadSize, hform]
        rfl
      have hvalue : payload? data j = some (form.value data (payloadPlace data j)) := by
        rw [payload?, hform]
        rfl
      have hstored : (List.range (operandCount data)).map (operandAmong data (j + 1)) =
          ((List.range (operandCount data)).map (operandAmong data j)).set (header data j).operand
            { operandAmong data j (header data j).operand with
              value := some (form.value data (payloadPlace data j)) } := by
        rw [set_map_range]
        apply List.map_congr_left
        intro k _
        rw [operandAmong_succ, hvalue]
        split_ifs with hk
        · rw [hk]
        · rfl
      rw [hstored, hplace]
      exact ((spans_payload hform (payloadPlace data j)).map _).congr rfl (by simp)

theorem spans_values_from (first count : Nat)
    (hnamed : ∀ j < first + count, 0 ≤ namedOperand data j ∧ namedOperand data j < operandCount data) :
    Spans (readValues ((List.range (operandCount data)).map (operandAmong data first))
        ((List.range' first count).map (header data))) data
      (payloadPlace data first) (payloadPlace data (first + count))
      (∀ j, first ≤ j → j < first + count → (payloadForm? data j).isSome)
      ((List.range (operandCount data)).map (operandAmong data (first + count))) := by
  induction count generalizing first with
  | zero =>
      refine (spans_pure _).congr rfl (iff_of_true trivial ?_)
      intro j hfirst hlast
      omega
  | succ count ih =>
      have hrest := ih (first + 1) fun j hj => hnamed j (by omega)
      rw [Nat.add_right_comm first 1 count] at hrest
      have hone := spans_value (hnamed first (by omega))
      refine (hone.bind fun _ => hrest).congr rfl ?_
      constructor
      · rintro ⟨hhead, htail⟩ j hfirst hlast
        rcases Nat.eq_or_lt_of_le hfirst with rfl | hlater
        · exact hhead
        · exact htail j hlater (by omega)
      · intro hall
        exact ⟨hall first (Nat.le_refl first) (by omega),
          fun j hfirst hlast => hall j (by omega) (by omega)⟩

/-- The values are read and stored in the order of their headers. -/
theorem spans_values
    (hnamed : ∀ j < valueCount data, 0 ≤ namedOperand data j ∧ namedOperand data j < operandCount data) :
    Spans (readValues ((List.range (operandCount data)).map (operandAmong data 0))
        ((List.range (valueCount data)).map (header data))) data
      (payloadPlace data 0) (payloadPlace data (valueCount data))
      (∀ j < valueCount data, (payloadForm? data j).isSome)
      ((List.range (operandCount data)).map (operandAmong data (valueCount data))) := by
  have hbounded : ∀ j < 0 + valueCount data,
      0 ≤ namedOperand data j ∧ namedOperand data j < operandCount data := by
    rwa [Nat.zero_add]
  have hfrom := spans_values_from 0 (valueCount data) hbounded
  rw [Nat.zero_add, ← List.range_eq_range'] at hfrom
  exact hfrom.congr rfl ⟨fun hall j hj => hall j (Nat.zero_le j) hj, fun hall j _ hj => hall j hj⟩

/-! ## Indices -/

variable (data)

theorem spans_indices (place length : Nat) :
    Spans (readIndices (operandCount data) length) data place (place + 4 * length)
      (∀ index ∈ indicesAt data place length, index < operandCount data)
      (indicesAt data place length) := by
  have hitem (i : Nat) : Spans (do checkIndex (← unsigned).toNat (operandCount data)) data
      (place + 4 * i) (place + 4 * (i + 1))
      (0 ≤ ((unsignedAt data (place + 4 * i)).toNat : Int) ∧
        ((unsignedAt data (place + 4 * i)).toNat : Int) < operandCount data)
      (unsignedAt data (place + 4 * i)).toNat :=
    spans_unsigned.andThen (spans_checkIndex _ _)
  have htimes := Spans.times length fun i _ => hitem i
  refine htimes.congr rfl ?_
  unfold indicesAt
  rw [List.forall_mem_map]
  constructor
  · intro hall i hi
    have hindex := hall i (List.mem_range.mp hi)
    omega
  · intro hall i hi
    have hindex := hall i (List.mem_range.mpr hi)
    omega

theorem spans_operation (i : Nat) :
    Spans (readOperation (operandCount data) (operationRecord data i)) data (indexPlace data i)
      (indexPlace data (i + 1))
      (∀ index ∈ (operation data i).inputs ++ (operation data i).outputs, index < operandCount data)
      (operation data i) := by
  have hinputs := spans_indices data (indexPlace data i) (inputArity data i)
  have houtputs := spans_indices data (indexPlace data i + 4 * inputArity data i) (outputArity data i)
  refine (hinputs.bind fun _ => houtputs.map fun outputs =>
    (⟨(operationRecord data i).type, _, outputs⟩ : Operation)).congr rfl ?_
  rw [List.forall_mem_append]
  rfl

/-! ## Models -/

theorem spans_readEnd (place : Nat) : Spans readEnd data place place (data.length ≤ place) () where
  start_le _ := Nat.le_refl place
  eq_ok_iff hplace b c := by
    have hempty : (data.drop place).isEmpty ↔ data.length ≤ place := by
      rw [List.isEmpty_iff, List.drop_eq_nil_iff]
    unfold readEnd Cursor.atPlace
    dsimp only
    split_ifs with hend
    · constructor
      · intro h
        obtain ⟨-, rfl⟩ := Prod.mk.inj (Except.ok.inj h)
        exact ⟨⟨hplace, hempty.mp hend⟩, rfl, rfl⟩
      · rintro ⟨-, -, rfl⟩
        rfl
    · constructor
      · intro h
        cases h
      · intro h
        exact absurd (hempty.mpr h.1.2) hend

variable {data}

/-- The data are read to the end of the last section just where their words pass the checks. -/
theorem spans_readModel :
    Spans readModel data 0 (stop data)
      (¬ signedAt data 0 ≠ 1 ∧ 0 ≤ signedAt data 4 ∧ 0 ≤ signedAt data 8 ∧ 0 ≤ signedAt data 12 ∧
        0 ≤ signedAt data 16 ∧ 0 ≤ signedAt data 20 ∧
        (∀ j < valueCount data, 0 ≤ namedOperand data j ∧ namedOperand data j < operandCount data) ∧
        (∀ j < valueCount data, (payloadForm? data j).isSome) ∧
        (∀ i < operationCount data, ∀ index ∈ (operation data i).inputs ++ (operation data i).outputs,
          index < operandCount data) ∧
        (∀ index ∈ (model data).inputs, index < operandCount data) ∧
        (∀ index ∈ (model data).outputs, index < operandCount data) ∧ data.length ≤ stop data)
      (model data) := by
  have hrecords := Spans.times (operandCount data) fun k _ => spans_operandRecord data k
  have hheaders := Spans.times (valueCount data) fun j _ => spans_header data j
  have harities := Spans.times (operationCount data) fun i _ => spans_operationRecord data i
  have hdimensions := Spans.each readOperand (operandRecord data) (operandCount data)
    fun k _ => spans_operand data k
  have hoperations := Spans.each (readOperation (operandCount data)) (operationRecord data)
    (operationCount data) fun i _ => spans_operation data i
  have hinputs := spans_indices data (inputPlace data) (inputCount data)
  have houtputs := spans_indices data (outputPlace data) (outputCount data)
  have hend := (spans_readEnd data (stop data)).map fun _ => model data
  unfold readModel
  apply spans_signed.andThen
  apply Spans.unless
  apply (spans_count "operand").bind
  intro _
  apply (spans_count "value").bind
  intro _
  apply (spans_count "operation").bind
  intro _
  apply (spans_count "input").bind
  intro _
  apply (spans_count "output").bind
  intro _
  apply (hrecords.congr rfl (iff_of_true (fun _ _ => trivial) trivial)).andThen
  apply hheaders.bind
  intro hnamed
  apply (harities.congr rfl (iff_of_true (fun _ _ => trivial) trivial)).andThen
  apply (hdimensions.congr rfl (iff_of_true (fun _ _ => trivial) trivial)).andThen
  apply (spans_values hnamed).bind
  intro _
  apply hoperations.bind
  intro _
  apply hinputs.bind
  intro _
  apply houtputs.bind
  intro _
  exact hend

/-- The decoder accepts some bytes just where their words pass the checks, and gives the model that the
words describe. -/
theorem decode_eq_ok_iff {m : Model} : Model.decode data = .ok m ↔ Accepted data ∧ m = model data := by
  have hspan := spans_readModel.eq_ok_iff (Nat.zero_le data.length)
  have hdecode : Model.decode data = .ok m ↔ ∃ c, readModel (.atPlace data 0) = .ok (m, c) := by
    change (readModel ⟨0, data⟩).map Prod.fst = .ok m ↔ ∃ c, readModel ⟨0, data.drop 0⟩ = .ok (m, c)
    rw [List.drop_zero]
    rcases readModel ⟨0, data⟩ with e | ⟨m', c⟩ <;> simp [Except.map]
  rw [hdecode]
  constructor
  · rintro ⟨c, hrun⟩
    obtain ⟨⟨hstop, hversion, hoperands, hvalues, hoperations, hinputs, houtputs, hnamed, hform,
      hoperation, hinput, houtput, hend⟩, hm, -⟩ := (hspan m c).mp hrun
    have hcounts : ∀ place ∈ [4, 8, 12, 16, 20], 0 ≤ signedAt data place := by
      simp [hoperands, hvalues, hoperations, hinputs, houtputs]
    exact ⟨⟨not_not.mp hversion, hcounts, hnamed, hform, hoperation,
      List.forall_mem_append.mpr ⟨hinput, houtput⟩, Nat.le_antisymm hend hstop⟩, hm⟩
  · rintro ⟨h, hm⟩
    obtain ⟨hinput, houtput⟩ := List.forall_mem_append.mp h.index
    exact ⟨_, (hspan m _).mpr ⟨⟨Nat.le_of_eq h.length.symm, not_not.mpr h.version,
      h.counts 4 (by simp), h.counts 8 (by simp), h.counts 12 (by simp), h.counts 16 (by simp),
      h.counts 20 (by simp), h.named, h.form, h.operation, hinput, houtput,
      Nat.le_of_eq h.length⟩, hm, rfl⟩⟩

end ModelGraph.Nnapi
