import Mathlib.Data.List.Nodup
import ModelGraph.Proofs.Nnapi.Layout
import ModelGraph.Proofs.Number.Word
import ModelGraph.Proofs.Text.Utf8

/-!
# Decoding undoes encoding

A reading takes some bytes if it reads them as a value, whatever bytes follow. Readings in sequence take
their bytes in sequence, so each section of a model is read from exactly the bytes that were written for
it; the last one leaves nothing.
-/

namespace ModelGraph.Nnapi

/-! ## Readings that take their bytes -/

namespace Read

variable {α β γ : Type}

/-- The reading reads the bytes as the value and stops after them. -/
def Takes (r : Read α) (data : Bytes) (a : α) : Prop :=
  ∀ offset rest, r ⟨offset, data ++ rest⟩ = .ok (a, ⟨offset + data.length, rest⟩)

theorem takes_pure (a : α) : Takes (return a) [] a := fun _ _ => rfl

theorem Takes.bind {r : Read α} {next : α → Read β} {data data' : Bytes} {a : α} {b : β}
    (h : Takes r data a) (hnext : Takes (next a) data' b) : Takes (r >>= next) (data ++ data') b := by
  intro offset rest
  change Read.bind r next _ = _
  rw [List.append_assoc, Read.bind, h]
  simp only [hnext (offset + data.length) rest, List.length_append, Nat.add_assoc]

theorem Takes.map {r : Read α} {data : Bytes} {a : α} (h : Takes r data a) (f : α → β) :
    Takes (r >>= fun a => return f a) data (f a) := by
  have hbind : Takes (r >>= fun a => return f a) (data ++ []) (f a) := h.bind (takes_pure (f a))
  rwa [List.append_nil] at hbind

theorem takes_bytes (data : Bytes) {length : Nat} (h : data.length = length) :
    Takes (bytes length) data data := by
  intro offset rest
  rw [bytes, if_neg (by simp [← h]), List.take_left' h, List.drop_left' h, h]

theorem takes_signed {i : Int} (hlow : -0x80000000 ≤ i) (hhigh : i < 0x80000000) :
    Takes signed (signedWord i) (Int32.ofInt i) := by
  have hwidth : twoPow (8 * 4) = 0x100000000 := rfl
  have hmap := (takes_bytes _ (length_bytesOfInt 4 i)).map fun data => Int32.ofInt (intOfBytes data)
  rwa [intOfBytes_bytesOfInt (by omega) (by omega)] at hmap

theorem takes_int32 (i : Int32) : Takes signed (signedWord i.toInt) i := by
  have htakes := takes_signed i.le_toInt i.toInt_lt
  rwa [Int32.ofInt_toInt] at htakes

theorem takes_unsigned {n : Nat} (hn : n < 0x100000000) :
    Takes unsigned (unsignedWord n) (UInt32.ofNat n) := by
  have hmap := (takes_bytes _ (length_bytesOfNat 4 n)).map fun data => UInt32.ofNat (natOfBytes data)
  rwa [natOfBytes_bytesOfNat hn] at hmap

theorem takes_uint32 (n : UInt32) : Takes unsigned (unsignedWord n.toNat) n := by
  have htakes := takes_unsigned n.toNat_lt
  rwa [UInt32.ofNat_toNat] at htakes

theorem takes_count (what : String) {n : Nat} (hn : n < 0x80000000) :
    Takes (count what) (signedWord n) n := by
  have hword : (Int32.ofInt n).toInt = n := Int32.toInt_ofInt_of_le (by omega) (by omega)
  have hnonneg : ¬ Int32.ofInt n < 0 := by
    rw [Int32.lt_iff_toInt_lt, hword]
    exact Int.not_lt.mpr (Int.natCast_nonneg n)
  have hcount : Takes (if Int32.ofInt n < 0 then fail (.invalidCount what (Int32.ofInt n))
      else return (Int32.ofInt n).toInt.toNat) [] n := by
    rw [if_neg hnonneg, hword]
    exact takes_pure n
  have hbind : Takes (count what) (signedWord n ++ []) n :=
    (takes_signed (i := n) (by omega) (by omega)).bind hcount
  rwa [List.append_nil] at hbind

/-- The reading reads the bytes as the value if nothing follows. -/
def Exhausts (r : Read α) (data : Bytes) (a : α) : Prop :=
  ∀ offset, r ⟨offset, data⟩ = .ok (a, ⟨offset + data.length, []⟩)

theorem Takes.exhausts {r : Read α} {next : α → Read β} {data data' : Bytes} {a : α} {b : β}
    (h : Takes r data a) (hnext : Exhausts (next a) data' b) :
    Exhausts (r >>= next) (data ++ data') b := by
  intro offset
  change Read.bind r next _ = _
  rw [Read.bind, h]
  simp only [hnext (offset + data.length), List.length_append, Nat.add_assoc]

/-- Items that are read one for each element of a list. -/
theorem takes_each (item : α → Read β) (key : γ → α) (write : γ → Bytes) (value : γ → β)
    (items : List γ) (h : ∀ c ∈ items, Takes (item (key c)) (write c) (value c)) :
    Takes (each item (items.map key)) (items.flatMap write) (items.map value) := by
  induction items with
  | nil => exact takes_pure []
  | cons c items ih =>
      have hrest := ih fun c' hc' => h c' (List.mem_cons_of_mem c hc')
      exact (h c (by simp)).bind (hrest.map (value c :: ·))

/-- Items that are read as often as a count says. -/
theorem takes_times (item : Read β) (write : γ → Bytes) (value : γ → β) (items : List γ)
    (h : ∀ c ∈ items, Takes item (write c) (value c)) :
    Takes (times item items.length) (items.flatMap write) (items.map value) := by
  induction items with
  | nil => exact takes_pure []
  | cons c items ih =>
      have hrest := ih fun c' hc' => h c' (List.mem_cons_of_mem c hc')
      exact (h c (by simp)).bind (hrest.map (value c :: ·))

end Read

open Read

/-! ## Numbers of types -/

theorem nodup_operandTypeNames : operandTypeNames.Nodup := by decide +kernel

theorem nodup_operationNames : operationNames.Nodup := Text.nodup_of_number (by decide +kernel)

/-- A name that is in a table once gives back the number that it names. -/
theorem numberOf_nameAt? {names : List String} (hnames : names.Nodup) (code : Int32) :
    numberOf names (nameAt? names code.toInt) code = code.toInt := by
  unfold nameAt?
  split_ifs with hcode
  · cases hname : names[code.toInt.toNat]? with
    | none => rfl
    | some name =>
        obtain ⟨hlt, rfl⟩ := List.getElem?_eq_some_iff.mp hname
        change ((names.idxOf names[code.toInt.toNat] : Nat) : Int) = code.toInt
        rw [hnames.idxOf_getElem, Int.toNat_of_nonneg hcode]
  · rfl

theorem OperandType.number_eq (t : OperandType) : t.number = t.code.toInt := by
  unfold number name?
  by_cases hmodel : t.code = 16
  · rw [if_pos hmodel, if_pos rfl, hmodel]
    rfl
  · have hname : nameAt? operandTypeNames t.code.toInt ≠ some "model" := by
      unfold nameAt?
      split_ifs
      · intro h
        have hmem : "model" ∈ operandTypeNames := List.mem_of_getElem? h
        exact absurd hmem (by decide +kernel)
      · simp
    rw [if_neg hmodel, if_neg hname, numberOf_nameAt? nodup_operandTypeNames]

theorem OperationType.number_eq (t : OperationType) : t.number = t.code.toInt :=
  numberOf_nameAt? nodup_operationNames t.code

/-! ## Records -/

def Operand.record (o : Operand) : OperandRecord :=
  ⟨o.type, UInt32.ofNat o.dimensions.length, o.scale, o.zeroPoint⟩

/-- The operand without its value. -/
def Operand.bare (o : Operand) : Operand := { o with value := none }

def valueHeader (numbered : Nat × OperandValue) : ValueHeader :=
  ⟨numbered.1, Int32.ofInt numbered.2.source, UInt32.ofNat numbered.2.length⟩

def Operation.record (o : Operation) : OperationRecord :=
  ⟨o.type, UInt32.ofNat o.inputs.length, UInt32.ofNat o.outputs.length⟩

theorem takes_operandRecord {o : Operand} (hrank : o.dimensions.length < 0x100000000) :
    Takes readOperandRecord o.writeRecord o.record := by
  unfold Operand.writeRecord
  rw [o.type.number_eq]
  simp only [List.append_assoc]
  exact (takes_int32 _).bind ((takes_unsigned hrank).bind ((takes_uint32 _).bind
    ((takes_int32 _).map _)))

theorem takes_operationRecord {o : Operation} (hinputs : o.inputs.length < 0x100000000)
    (houtputs : o.outputs.length < 0x100000000) :
    Takes readOperationRecord o.writeRecord o.record := by
  unfold Operation.writeRecord
  rw [o.type.number_eq]
  simp only [List.append_assoc]
  exact (takes_int32 _).bind ((takes_unsigned hinputs).bind ((takes_unsigned houtputs).map _))

theorem takes_checkIndex {i count : Nat} (hi : i < count) : Takes (checkIndex i count) [] i := by
  unfold checkIndex
  rw [if_pos ⟨Int.natCast_nonneg i, Int.ofNat_lt.mpr hi⟩]
  exact takes_pure i

theorem OperandValue.source_bounds (v : OperandValue) : 0 ≤ v.source ∧ v.source ≤ 2 := by
  cases v <;> simp [source]

theorem OperandValue.length_lt {type : OperandType} {v : OperandValue} (hfits : v.Fits type) :
    v.length < 0x100000000 := by
  cases v with
  | bytes data => exact hfits.2
  | _ => simp [length]

theorem takes_valueHeader {numbered : Nat × OperandValue} {count : Nat} {type : OperandType}
    (hindex : numbered.1 < count) (hcount : count < 0x80000000) (hfits : numbered.2.Fits type) :
    Takes (readValueHeader count) (writeHeader numbered) (valueHeader numbered) := by
  obtain ⟨index, value⟩ := numbered
  have hsource := value.source_bounds
  have hword : (Int32.ofInt index).toInt = index :=
    Int32.toInt_ofInt_of_le (by omega) (by dsimp only at hindex; omega)
  have hcheck : Takes (checkIndex (Int32.ofInt index).toInt count) [] index := by
    rw [hword]
    exact takes_checkIndex hindex
  unfold writeHeader
  simp only [List.append_assoc]
  refine (takes_signed (i := index) (by omega) (by dsimp only at hindex; omega)).bind ?_
  rw [← List.nil_append (signedWord value.source ++ _)]
  exact hcheck.bind ((takes_signed (by omega) (by omega)).bind
    ((takes_unsigned (OperandValue.length_lt hfits)).map _))

/-! ## Values -/

theorem takes_payload {v : OperandValue} {type : OperandType} (hfits : v.Fits type) (index : Nat) :
    Takes (readPayload (valueHeader (index, v)) type) v.payload v := by
  unfold readPayload
  cases v with
  | bool b =>
      cases hfits
      have hflag : [if b then (1 : UInt8) else 0].any (· ≠ 0) = b := by cases b <;> rfl
      have hfill : Takes (bytes 3 >>= fun _ =>
          return OperandValue.bool ([if b then (1 : UInt8) else 0].any (· ≠ 0))) [0, 0, 0] (.bool b) := by
        rw [hflag]
        exact (takes_bytes [0, 0, 0] rfl).map _
      exact (takes_bytes [if b then (1 : UInt8) else 0] rfl).bind hfill
  | int i =>
      cases hfits
      exact (takes_int32 i).map _
  | bytes data =>
      obtain ⟨rfl, hlength⟩ := hfits
      have hword : (UInt32.ofNat data.length).toNat = data.length := UInt32.toNat_ofNat_of_lt' hlength
      exact (takes_bytes data hword.symm).map _
  | buffer number offset length =>
      unfold OperandValue.payload
      simp only [List.append_assoc]
      exact (takes_uint32 number).bind ((takes_uint32 offset).bind ((takes_uint32 length).map _))

/-- The values of the operands that follow some finished ones are read and stored in their places. -/
theorem takes_values (done rest : List Operand)
    (hfits : ∀ o ∈ rest, ∀ value ∈ o.value, value.Fits o.type) :
    Takes (readValues (done ++ rest.map Operand.bare)
        ((numberedValues done.length rest).map valueHeader))
      ((numberedValues done.length rest).flatMap (·.2.payload)) (done ++ rest) := by
  -- A header names its operand by the number of finished ones, so these grow at their end.
  induction rest generalizing done with
  | nil =>
      rw [List.map_nil]
      exact takes_pure _
  | cons o rest ih =>
      have hrest := ih (done ++ [o]) fun o' ho' => hfits o' (List.mem_cons_of_mem o ho')
      rw [List.length_append, List.length_singleton, List.append_assoc, List.append_assoc] at hrest
      cases hvalue : o.value with
      | none =>
          have hbare : o.bare = o := by rw [Operand.bare, ← hvalue]
          simp only [numberedValues, hvalue, List.map_cons, hbare]
          exact hrest
      | some value =>
          have hpayload := takes_payload (hfits o (by simp) value hvalue) done.length
          have hstored : { o.bare with value := some value } = o := by rw [Operand.bare, ← hvalue]
          have hget : (done ++ o.bare :: rest.map Operand.bare)[done.length]? = some o.bare := by simp
          have hset : (done ++ o.bare :: rest.map Operand.bare).set done.length o =
              done ++ o :: rest.map Operand.bare := by simp
          have hread : Takes (readValue (done ++ o.bare :: rest.map Operand.bare)
              (valueHeader (done.length, value))) value.payload
              (done ++ o :: rest.map Operand.bare) := by
            unfold readValue
            simp only [valueHeader, hget]
            rw [← hset, ← hstored]
            exact hpayload.map _
          simp only [numberedValues, hvalue]
          exact hread.bind hrest

theorem length_numberedValues_le (number : Nat) (operands : List Operand) :
    (numberedValues number operands).length ≤ operands.length := by
  induction operands generalizing number with
  | nil => exact Nat.le_refl 0
  | cons o operands ih =>
      have hone : (o.value.map fun value => (number, value)).toList.length ≤ 1 := by
        cases o.value <;> simp
      have hrest := ih (number + 1)
      rw [numberedValues, List.length_append, List.length_cons]
      omega

theorem mem_numberedValues {number : Nat} {operands : List Operand} {numbered : Nat × OperandValue}
    (h : numbered ∈ numberedValues number operands) :
    numbered.1 < number + operands.length ∧ ∃ o ∈ operands, numbered.2 ∈ o.value := by
  induction operands generalizing number with
  | nil => exact absurd h List.not_mem_nil
  | cons o operands ih =>
      rw [numberedValues, List.mem_append] at h
      rw [List.length_cons]
      rcases h with h | h
      · rw [Option.mem_toList, Option.map_eq_some_iff] at h
        obtain ⟨value, hvalue, rfl⟩ := h
        exact ⟨by dsimp only; omega, o, by simp, hvalue⟩
      · obtain ⟨hnumber, o', ho', hvalue⟩ := ih h
        exact ⟨by omega, o', List.mem_cons_of_mem o ho', hvalue⟩

/-! ## Dimensions and indices -/

theorem takes_operand {o : Operand} (hrank : o.dimensions.length < 0x100000000) :
    Takes (readOperand o.record) o.writeDimensions o.bare := by
  have hword : o.record.rank.toNat = o.dimensions.length := UInt32.toNat_ofNat_of_lt' hrank
  have htimes := takes_times unsigned (fun d : UInt32 => unsignedWord d.toNat) id
    o.dimensions fun d _ => takes_uint32 d
  unfold readOperand
  rw [hword]
  rw [List.map_id] at htimes
  exact htimes.map _

theorem takes_indices {indices : List Nat} {count : Nat} (hcount : count < 0x80000000)
    (hindices : ∀ i ∈ indices, i < count) :
    Takes (readIndices count indices.length) (writeIndices indices) indices := by
  have hitem : ∀ i ∈ indices, Takes (do checkIndex (← unsigned).toNat count) (unsignedWord i) i := by
    intro i hi
    have hbound := hindices i hi
    have hlimit : i < 0x100000000 := by omega
    have hword : (UInt32.ofNat i).toNat = i := UInt32.toNat_ofNat_of_lt' hlimit
    have hcheck : Takes (checkIndex (UInt32.ofNat i).toNat count) [] i := by
      rw [hword]
      exact takes_checkIndex hbound
    have hbind : Takes (unsigned >>= fun n => checkIndex n.toNat count) (unsignedWord i ++ []) i :=
      (takes_unsigned hlimit).bind hcheck
    rwa [List.append_nil] at hbind
  have htimes := takes_times _ unsignedWord id indices hitem
  rwa [List.map_id] at htimes

theorem takes_operation {o : Operation} {count : Nat} (hcount : count < 0x80000000)
    (hinputs : o.inputs.length < 0x100000000) (houtputs : o.outputs.length < 0x100000000)
    (hinput : ∀ i ∈ o.inputs, i < count) (houtput : ∀ i ∈ o.outputs, i < count) :
    Takes (readOperation count o.record) (writeIndices o.inputs ++ writeIndices o.outputs) o := by
  have hins : o.record.inputCount.toNat = o.inputs.length := UInt32.toNat_ofNat_of_lt' hinputs
  have houts : o.record.outputCount.toNat = o.outputs.length := UInt32.toNat_ofNat_of_lt' houtputs
  unfold readOperation
  rw [hins, houts]
  exact (takes_indices hcount hinput).bind ((takes_indices hcount houtput).map _)

/-! ## Models -/

theorem exhausts_readEnd (m : Model) : Exhausts (readEnd >>= fun _ => return m) [] m :=
  fun _ => rfl

theorem exhausts_readModel {m : Model} (h : m.WellFormed) : Exhausts readModel m.encode m := by
  have hvalues : m.values.length < 0x80000000 :=
    Nat.lt_of_le_of_lt (length_numberedValues_le 0 m.operands) h.operands
  have hrecords := takes_times readOperandRecord Operand.writeRecord Operand.record
    m.operands fun o ho => takes_operandRecord (h.rank o ho)
  have hheaders := takes_times (readValueHeader m.operands.length) writeHeader valueHeader
    m.values fun numbered hnumbered => by
      obtain ⟨hindex, o, ho, hvalue⟩ := mem_numberedValues hnumbered
      exact takes_valueHeader (by omega) h.operands (h.fits o ho _ hvalue)
  have harities := takes_times readOperationRecord Operation.writeRecord Operation.record
    m.operations fun o ho => takes_operationRecord (h.inputCount o ho) (h.outputCount o ho)
  have hdimensions := takes_each readOperand Operand.record Operand.writeDimensions
    Operand.bare m.operands fun o ho => takes_operand (h.rank o ho)
  have hpayloads := takes_values [] m.operands h.fits
  have hoperations := takes_each (readOperation m.operands.length) Operation.record
    (fun o => writeIndices o.inputs ++ writeIndices o.outputs) id m.operations fun o ho =>
      takes_operation h.operands (h.inputCount o ho) (h.outputCount o ho) (h.operationInput o ho)
        (h.operationOutput o ho)
  rw [List.map_id] at hoperations
  unfold readModel Model.encode
  simp only [List.append_assoc]
  refine (takes_int32 m.version).exhausts ?_
  rw [if_neg (not_not.mpr h.version)]
  refine (takes_count "operand" h.operands).exhausts ((takes_count "value" hvalues).exhausts
    ((takes_count "operation" h.operations).exhausts ((takes_count "input" h.inputs).exhausts
    ((takes_count "output" h.outputs).exhausts ?_))))
  refine hrecords.exhausts (hheaders.exhausts (harities.exhausts (hdimensions.exhausts
    (hpayloads.exhausts (hoperations.exhausts ?_)))))
  have hend : Exhausts (readIndices m.operands.length m.outputs.length >>= fun outputs =>
      readEnd >>= fun _ => return ⟨m.version, m.operands, m.operations, m.inputs, outputs⟩)
      (writeIndices m.outputs ++ []) m :=
    (takes_indices h.operands h.output).exhausts (exhausts_readEnd m)
  rw [List.append_nil] at hend
  exact (takes_indices h.operands h.input).exhausts hend

/-- A model that the words of the layout can hold is decoded from its bytes. -/
theorem Model.decode_encode {m : Model} (h : m.WellFormed) : Model.decode m.encode = .ok m := by
  rw [Model.decode, exhausts_readModel h 0]
  rfl

/-- Operands with all forms of values; the types of some have no names. -/
def sampleModel : Model where
  version := 1
  operands := [⟨⟨3⟩, [1, 4], 0, 0, some (.buffer 0 16 0xffffffff)⟩, ⟨.boolean, [], 0, 0, some (.bool true)⟩,
    ⟨.int32, [], 0, 0, some (.int (-7))⟩,
    ⟨.int32Tensor, [2], 0x3f000000, -3, some (.bytes [3, 0, 0, 0, 255])⟩,
    ⟨⟨-42⟩, [], 0x7fc00001, 0, none⟩, ⟨⟨16⟩, [0xffffffff], 0x80000000, 0, none⟩]
  operations := [⟨⟨0⟩, [0, 4, 2], [5]⟩, ⟨⟨102⟩, [], [1]⟩]
  inputs := [4]
  outputs := [5, 0]

theorem wellFormed_sampleModel : sampleModel.WellFormed := by
  constructor <;> simp [sampleModel, OperandValue.Fits]

theorem Model.decode_encode_sample :
    sampleModel.WellFormed ∧ Model.decode sampleModel.encode = .ok sampleModel :=
  ⟨wellFormed_sampleModel, Model.decode_encode wellFormed_sampleModel⟩

end ModelGraph.Nnapi
