import ModelGraph.Proofs.Nnapi.Accepted

/-!
# Declared lengths of values

A value header declares the length of its payload. The length decides how much of the data a run of
words takes, and a buffer with a length other than twelve is refused. For a flag and for a word nothing
depends on it: with any other length the same bytes are decoded as the same model.
-/

namespace ModelGraph.Nnapi

namespace Blob

variable {data data' : Bytes}

/-- Data that differ in the four bytes at a place at most. -/
structure SameBut (place : Nat) (data data' : Bytes) : Prop where
  length : data'.length = data.length
  bytesAt : ∀ start length, start + length ≤ place ∨ place + 4 ≤ start →
    bytesAt data' start length = bytesAt data start length

namespace SameBut

variable {place : Nat}

theorem signedAt (h : SameBut place data data') {start : Nat}
    (hapart : start + 4 ≤ place ∨ place + 4 ≤ start) : signedAt data' start = signedAt data start := by
  unfold Nnapi.signedAt
  rw [h.bytesAt start 4 hapart]

theorem unsignedAt (h : SameBut place data data') {start : Nat}
    (hapart : start + 4 ≤ place ∨ place + 4 ≤ start) :
    unsignedAt data' start = unsignedAt data start := by
  unfold Nnapi.unsignedAt
  rw [h.bytesAt start 4 hapart]

theorem value (h : SameBut place data data') {start : Nat} (hstart : place + 4 ≤ start)
    (form : PayloadForm) : form.value data' start = form.value data start := by
  cases form with
  | flag => simp only [PayloadForm.value, h.bytesAt start 1 (.inr hstart)]
  | word => simp only [PayloadForm.value, h.signedAt (.inr hstart)]
  | run length => simp only [PayloadForm.value, h.bytesAt start length (.inr hstart)]
  | buffer =>
      have hoffset : Nnapi.unsignedAt data' (start + 4) = Nnapi.unsignedAt data (start + 4) :=
        h.unsignedAt (.inr (by omega))
      have hlength : Nnapi.unsignedAt data' (start + 8) = Nnapi.unsignedAt data (start + 8) :=
        h.unsignedAt (.inr (by omega))
      simp only [PayloadForm.value, h.unsignedAt (.inr hstart), hoffset, hlength]

theorem indicesAt (h : SameBut place data data') {start : Nat} (hstart : place + 4 ≤ start)
    (length : Nat) : indicesAt data' start length = indicesAt data start length := by
  apply List.map_congr_left
  intro i _
  rw [h.unsignedAt (.inr (by omega))]

end SameBut

theorem length_unsignedWord (n : Nat) : (unsignedWord n).length = 4 := length_bytesOfNat 4 n

/-- The data with another length in a value header. -/
def withLength (data : Bytes) (j : Nat) (length : UInt32) : Bytes :=
  data.take (headerPlace data j + 8) ++ unsignedWord length.toNat ++ data.drop (headerPlace data j + 12)

theorem sameBut_withLength {j : Nat} (hlength : headerPlace data j + 12 ≤ data.length)
    (length : UInt32) : SameBut (headerPlace data j + 8) data (withLength data j length) := by
  have htake : (data.take (headerPlace data j + 8)).length = headerPlace data j + 8 :=
    List.length_take_of_le (by omega)
  constructor
  case length =>
    unfold withLength
    rw [List.length_append, List.length_append, htake, length_unsignedWord, List.length_drop]
    omega
  case bytesAt =>
    intro start count hapart
    unfold bytesAt withLength
    rcases hapart with hbefore | hafter
    · rw [List.append_assoc, List.drop_append_of_le_length (by omega),
        List.take_append_of_le_length (by rw [List.length_drop]; omega), List.drop_take, List.take_take,
        Nat.min_eq_left (by omega)]
    · have hfront : (data.take (headerPlace data j + 8) ++ unsignedWord length.toNat).length =
          headerPlace data j + 12 := by
        rw [List.length_append, htake, length_unsignedWord]
      rw [List.drop_append, hfront, List.drop_eq_nil_of_le (by omega), List.nil_append, List.drop_drop,
        Nat.add_sub_cancel' (by omega)]

/-! ## What the length of a header leaves alone -/

section

variable {j : Nat} (h : SameBut (headerPlace data j + 8) data data')
include h

theorem SameBut.signedAt_header {start : Nat} (hstart : start ≤ 20) :
    Nnapi.signedAt data' start = Nnapi.signedAt data start := by
  apply h.signedAt
  unfold headerPlace operandPlace
  omega

theorem SameBut.countAt_eq {start : Nat} (hstart : start ≤ 20) :
    countAt data' start = countAt data start := by
  unfold countAt
  rw [h.signedAt_header hstart]

theorem SameBut.operandCount_eq : operandCount data' = operandCount data := h.countAt_eq (by omega)

theorem SameBut.valueCount_eq : valueCount data' = valueCount data := h.countAt_eq (by omega)

theorem SameBut.operationCount_eq : operationCount data' = operationCount data :=
  h.countAt_eq (by omega)

theorem SameBut.operandRecord_eq {k : Nat} (hk : k < operandCount data) :
    operandRecord data' k = operandRecord data k := by
  have hbefore : operandPlace k + 16 ≤ headerPlace data j + 8 := by
    unfold headerPlace operandPlace
    omega
  unfold operandRecord
  rw [h.signedAt (.inl (by omega)), h.unsignedAt (.inl (by omega)), h.unsignedAt (.inl (by omega)),
    h.signedAt (.inl (by omega))]

theorem SameBut.headerPlace_eq (i : Nat) : headerPlace data' i = headerPlace data i := by
  unfold headerPlace
  rw [h.operandCount_eq]

theorem SameBut.namedOperand_eq (i : Nat) : namedOperand data' i = namedOperand data i := by
  unfold namedOperand
  rw [h.headerPlace_eq, h.signedAt (by unfold headerPlace; omega)]

/-- Of the headers only the length of one changes. -/
theorem SameBut.header_eq (i : Nat) : header data' i =
    if i = j then { header data j with length := Nnapi.unsignedAt data' (headerPlace data j + 8) }
    else header data i := by
  have hsource : Nnapi.signedAt data' (headerPlace data i + 4) =
      Nnapi.signedAt data (headerPlace data i + 4) :=
    h.signedAt (by unfold headerPlace; omega)
  unfold header
  rw [h.namedOperand_eq, h.headerPlace_eq, hsource]
  split_ifs with hij
  · rw [hij]
  · rw [h.unsignedAt (by unfold headerPlace; omega)]

end

/-- A payload that is laid out without regard to its declared length. -/
def LengthFree (data : Bytes) (j : Nat) : Prop :=
  payloadForm? data j = some .flag ∨ payloadForm? data j = some .word

theorem of?_length {header : ValueHeader} {type : OperandType}
    (hform : PayloadForm.of? header type = some .flag ∨ PayloadForm.of? header type = some .word)
    (length : UInt32) :
    PayloadForm.of? { header with length } type = PayloadForm.of? header type := by
  unfold PayloadForm.of? at hform ⊢
  split_ifs at hform ⊢ with hsource hboolean hint <;> simp_all

section

variable {j : Nat} (h : SameBut (headerPlace data j + 8) data data') (hj : j < valueCount data)
include h hj

/-- The operations and all that stands behind them come after the header. -/
theorem SameBut.operationPlace_eq (i : Nat) : operationPlace data' i = operationPlace data i ∧
    headerPlace data j + 12 ≤ operationPlace data i := by
  constructor
  · unfold operationPlace
    rw [h.headerPlace_eq, h.valueCount_eq]
  · unfold operationPlace headerPlace
    omega

theorem SameBut.operationRecord_eq (i : Nat) : operationRecord data' i = operationRecord data i := by
  obtain ⟨hplace, hafter⟩ := h.operationPlace_eq hj i
  unfold operationRecord
  rw [hplace, h.signedAt (.inr (by omega)), h.unsignedAt (.inr (by omega)),
    h.unsignedAt (.inr (by omega))]

theorem SameBut.dimensionPlace_eq {k : Nat} (hk : k ≤ operandCount data) :
    dimensionPlace data' k = dimensionPlace data k ∧
      headerPlace data j + 12 ≤ dimensionPlace data k := by
  induction k with
  | zero =>
      unfold dimensionPlace
      rw [h.operationCount_eq]
      exact h.operationPlace_eq hj _
  | succ k ih =>
      obtain ⟨hplace, hafter⟩ := ih (by omega)
      unfold dimensionPlace rank
      rw [hplace, h.operandRecord_eq (by omega)]
      exact ⟨rfl, by omega⟩

theorem SameBut.dimensions_eq {k : Nat} (hk : k < operandCount data) :
    dimensions data' k = dimensions data k := by
  obtain ⟨hplace, hafter⟩ := h.dimensionPlace_eq hj (Nat.le_of_lt hk)
  unfold dimensions rank
  rw [hplace, h.operandRecord_eq hk]
  apply List.map_congr_left
  intro d _
  rw [h.unsignedAt (.inr (by omega))]

variable (hnamed : ∀ i < valueCount data, (header data i).operand < operandCount data)
  (hfree : LengthFree data j)
include hnamed hfree

theorem SameBut.payloadForm?_eq {i : Nat} (hi : i < valueCount data) :
    payloadForm? data' i = payloadForm? data i := by
  unfold payloadForm?
  rw [h.header_eq]
  split_ifs with hij
  · rw [h.operandRecord_eq (hnamed j hj), hij]
    exact of?_length hfree _
  · rw [h.operandRecord_eq (hnamed i hi)]

theorem SameBut.payloadPlace_eq {i : Nat} (hi : i ≤ valueCount data) :
    payloadPlace data' i = payloadPlace data i ∧ headerPlace data j + 12 ≤ payloadPlace data i := by
  induction i with
  | zero =>
      unfold payloadPlace
      rw [h.operandCount_eq]
      exact h.dimensionPlace_eq hj (Nat.le_refl _)
  | succ i ih =>
      obtain ⟨hplace, hafter⟩ := ih (by omega)
      unfold payloadPlace payloadSize
      rw [hplace, h.payloadForm?_eq hj hnamed hfree (by omega)]
      exact ⟨rfl, by omega⟩

theorem SameBut.payload?_eq {i : Nat} (hi : i < valueCount data) :
    payload? data' i = payload? data i := by
  obtain ⟨hplace, hafter⟩ := h.payloadPlace_eq hj hnamed hfree (Nat.le_of_lt hi)
  unfold payload?
  rw [h.payloadForm?_eq hj hnamed hfree hi, hplace]
  apply Option.map_congr
  intro form _
  exact h.value hafter form

theorem SameBut.valueAmong_eq (k : Nat) {count : Nat} (hcount : count ≤ valueCount data) :
    valueAmong data' k count = valueAmong data k count := by
  induction count with
  | zero => rfl
  | succ i ih =>
      have hoperand : (header data' i).operand = (header data i).operand := by
        rw [h.header_eq]
        split_ifs with hij
        · rw [hij]
        · rfl
      unfold valueAmong
      rw [hoperand, h.payload?_eq hj hnamed hfree (by omega), ih (by omega)]

theorem SameBut.operandAmong_eq {k : Nat} (hk : k < operandCount data) :
    operandAmong data' (valueCount data) k = operandAmong data (valueCount data) k := by
  unfold operandAmong
  rw [h.operandRecord_eq hk, h.dimensions_eq hj hk,
    h.valueAmong_eq hj hnamed hfree k (Nat.le_refl _)]

theorem SameBut.indexPlace_eq (i : Nat) :
    indexPlace data' i = indexPlace data i ∧ headerPlace data j + 12 ≤ indexPlace data i := by
  induction i with
  | zero =>
      unfold indexPlace
      rw [h.valueCount_eq]
      exact h.payloadPlace_eq hj hnamed hfree (Nat.le_refl _)
  | succ i ih =>
      unfold indexPlace inputArity outputArity
      rw [ih.1, h.operationRecord_eq hj]
      exact ⟨rfl, by omega⟩

theorem SameBut.operation_eq (i : Nat) : operation data' i = operation data i := by
  obtain ⟨hplace, hafter⟩ := h.indexPlace_eq hj hnamed hfree i
  unfold operation inputArity outputArity
  rw [hplace, h.operationRecord_eq hj, h.indicesAt (by omega), h.indicesAt (by omega)]

theorem SameBut.stop_eq : inputPlace data' = inputPlace data ∧ outputPlace data' = outputPlace data ∧
    stop data' = stop data := by
  have hinputs : inputCount data' = inputCount data := h.countAt_eq (by omega)
  have houtputs : outputCount data' = outputCount data := h.countAt_eq (by omega)
  unfold stop outputPlace inputPlace
  rw [h.operationCount_eq, (h.indexPlace_eq hj hnamed hfree _).1, hinputs, houtputs]
  exact ⟨rfl, rfl, rfl⟩

/-- The model does not depend on the declared length of a flag or a word. -/
theorem SameBut.model_eq : model data' = model data := by
  have hinputs : inputCount data' = inputCount data := h.countAt_eq (by omega)
  have houtputs : outputCount data' = outputCount data := h.countAt_eq (by omega)
  obtain ⟨hinput, houtput, -⟩ := h.stop_eq hj hnamed hfree
  have hafter := (h.indexPlace_eq hj hnamed hfree (operationCount data)).2
  have hoperands : (List.range (operandCount data)).map (operandAmong data' (valueCount data)) =
      (List.range (operandCount data)).map (operandAmong data (valueCount data)) :=
    List.map_congr_left fun k hk => h.operandAmong_eq hj hnamed hfree (List.mem_range.mp hk)
  have hoperations : (List.range (operationCount data)).map (operation data') =
      (List.range (operationCount data)).map (operation data) :=
    List.map_congr_left fun i _ => h.operation_eq hj hnamed hfree i
  unfold model
  rw [h.signedAt_header (by omega), h.operandCount_eq, h.valueCount_eq, h.operationCount_eq, hoperands,
    hoperations, hinput, houtput, hinputs, houtputs, h.indicesAt (by unfold inputPlace; omega),
    h.indicesAt (by unfold outputPlace inputPlace; omega)]

end

theorem SameBut.accepted {j : Nat} (h : SameBut (headerPlace data j + 8) data data')
    (hacc : Accepted data) (hj : j < valueCount data) (hfree : LengthFree data j) :
    Accepted data' := by
  have hnamed : ∀ i < valueCount data, (header data i).operand < operandCount data :=
    fun i hi => header_operand_lt (hacc.named i hi)
  constructor
  case version =>
    rw [h.signedAt_header (by omega)]
    exact hacc.version
  case counts =>
    intro place hplace
    rw [h.signedAt_header (by simp at hplace; omega)]
    exact hacc.counts place hplace
  case named =>
    rw [h.valueCount_eq, h.operandCount_eq]
    intro i hi
    rw [h.namedOperand_eq]
    exact hacc.named i hi
  case form =>
    rw [h.valueCount_eq]
    intro i hi
    rw [h.payloadForm?_eq hj hnamed hfree hi]
    exact hacc.form i hi
  case operation =>
    rw [h.operationCount_eq, h.operandCount_eq]
    intro i hi
    rw [h.operation_eq hj hnamed hfree]
    exact hacc.operation i hi
  case index =>
    rw [h.model_eq hj hnamed hfree, h.operandCount_eq]
    exact hacc.index
  case length =>
    rw [h.length, (h.stop_eq hj hnamed hfree).2.2]
    exact hacc.length

/-- With another length for a flag or a word the data are decoded as the same model. -/
theorem SameBut.decode_eq {j : Nat} (h : SameBut (headerPlace data j + 8) data data')
    (hacc : Accepted data) (hj : j < valueCount data) (hfree : LengthFree data j) :
    Model.decode data' = .ok (model data) :=
  decode_eq_ok_iff.mpr ⟨h.accepted hacc hj hfree,
    (h.model_eq hj (fun i hi => header_operand_lt (hacc.named i hi)) hfree).symm⟩

/-! ## Payloads inside the data -/

theorem payloadPlace_mono {j count : Nat} (hj : j ≤ count) :
    payloadPlace data j ≤ payloadPlace data count := by
  induction count with
  | zero => exact Nat.le_of_eq (congrArg (payloadPlace data) (Nat.le_zero.mp hj))
  | succ count ih =>
      rcases Nat.le_succ_iff.mp hj with hle | rfl
      · rw [payloadPlace]
        exact Nat.le_add_right_of_le (ih hle)
      · exact Nat.le_refl _

theorem payloadPlace_le_stop {j : Nat} (hj : j ≤ valueCount data) :
    payloadPlace data j ≤ stop data := by
  have hlast : payloadPlace data j ≤ payloadPlace data (valueCount data) := payloadPlace_mono hj
  unfold stop outputPlace inputPlace
  rw [indexPlace_eq]
  omega

theorem headerPlace_le_stop {j : Nat} (hj : j < valueCount data) :
    headerPlace data j + 12 ≤ stop data := by
  have hfirst : payloadPlace data 0 ≤ stop data := payloadPlace_le_stop (Nat.zero_le _)
  rw [payloadPlace, dimensionPlace_eq] at hfirst
  unfold operationPlace headerPlace at hfirst
  unfold headerPlace
  omega

theorem length_header_withLength {j : Nat} (hlength : headerPlace data j + 12 ≤ data.length)
    (length : UInt32) : (header (withLength data j length) j).length = length := by
  have htake : (data.take (headerPlace data j + 8)).length = headerPlace data j + 8 :=
    List.length_take_of_le (by omega)
  have hword : bytesAt (withLength data j length) (headerPlace data j + 8) 4 =
      unsignedWord length.toNat := by
    unfold bytesAt withLength
    rw [List.append_assoc, List.drop_left' htake, List.take_left' (length_unsignedWord _)]
  unfold header
  rw [(sameBut_withLength hlength length).headerPlace_eq]
  unfold unsignedAt
  rw [hword, unsignedWord, natOfBytes_bytesOfNat length.toNat_lt]
  exact UInt32.ofNat_toNat

/-- What the declared length of a value means, when its payload takes a number of bytes. -/
inductive LengthUse (data : Bytes) (m : Model) (j taken : Nat) : Prop where
  /-- A buffer has to declare the length of its description. -/
  | buffer (source : (header data j).source = 2) (bytes : taken = 12)
    (declared : (header data j).length = 12)
  /-- A run takes what it declares. -/
  | run (source : (header data j).source = 0)
    (type : (operandRecord data (header data j).operand).type = .int32Tensor)
    (bytes : taken = (header data j).length.toNat)
  /-- A flag or a word may declare anything: the model stays the same. -/
  | fixed (source : (header data j).source = 0)
    (type : (operandRecord data (header data j).operand).type = .boolean ∨
      (operandRecord data (header data j).operand).type = .int32)
    (bytes : taken = 4)
    (any : ∀ length, (header (withLength data j length) j).length = length ∧
      Model.decode (withLength data j length) = .ok m)

end Blob

open Blob Read

variable {data : Bytes}

/-- What each value of decoded bytes takes and how that is related to the length it declares. -/
theorem Model.decode_declaredLength {m : Model} (h : Model.decode data = .ok m) {j : Nat}
    (hj : j < valueCount data) :
    ∃ value taken,
      readPayload (header data j) (operandRecord data (header data j).operand).type
          (.atPlace data (payloadPlace data j)) =
        .ok (value, .atPlace data (payloadPlace data j + taken)) ∧
      payloadPlace data (j + 1) = payloadPlace data j + taken ∧ LengthUse data m j taken := by
  obtain ⟨hacc, rfl⟩ := decode_eq_ok_iff.mp h
  obtain ⟨form, hform⟩ := Option.isSome_iff_exists.mp (hacc.form j hj)
  have hnext : payloadPlace data (j + 1) = payloadPlace data j + form.size := by
    rw [payloadPlace, payloadSize, hform]
    rfl
  have hstart : payloadPlace data j ≤ data.length := by
    rw [hacc.length]
    exact payloadPlace_le_stop (Nat.le_of_lt hj)
  have hstop : payloadPlace data j + form.size ≤ data.length := by
    rw [hacc.length, ← hnext]
    exact payloadPlace_le_stop hj
  have hread := ((spans_payload hform (payloadPlace data j)).eq_ok_iff hstart _ _).mpr
    ⟨⟨hstop, trivial⟩, rfl, rfl⟩
  have hheader : headerPlace data j + 12 ≤ data.length := by
    rw [hacc.length]
    exact headerPlace_le_stop hj
  have hany (hfree : LengthFree data j) (length : UInt32) :
      (header (withLength data j length) j).length = length ∧
        Model.decode (withLength data j length) = .ok (Blob.model data) :=
    ⟨length_header_withLength hheader length,
      (sameBut_withLength hheader length).decode_eq hacc hj hfree⟩
  refine ⟨_, form.size, hread, hnext, ?_⟩
  have hkind := hform
  unfold payloadForm? PayloadForm.of? at hkind
  split_ifs at hkind with hsource hboolean hint htensor hbuffer <;> cases hkind
  · exact .fixed hsource (.inl hboolean) rfl (hany (.inl hform))
  · exact .fixed hsource (.inr hint) rfl (hany (.inr hform))
  · exact .run hsource htensor rfl
  · exact .buffer hbuffer.1 rfl hbuffer.2

/-- The first value of the bytes is a word. -/
theorem Model.decode_declaredLength_twiceNamed :
    0 < valueCount twiceNamed ∧ ∃ value taken,
      readPayload (header twiceNamed 0) (operandRecord twiceNamed (header twiceNamed 0).operand).type
          (.atPlace twiceNamed (payloadPlace twiceNamed 0)) =
        .ok (value, .atPlace twiceNamed (payloadPlace twiceNamed 0 + taken)) ∧
      payloadPlace twiceNamed (0 + 1) = payloadPlace twiceNamed 0 + taken ∧
      LengthUse twiceNamed twiceNamedModel 0 taken := by
  have hcount : 0 < valueCount twiceNamed := by decide +kernel
  exact ⟨hcount, Model.decode_declaredLength decode_twiceNamed hcount⟩

end ModelGraph.Nnapi
