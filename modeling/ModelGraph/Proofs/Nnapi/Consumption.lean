import ModelGraph.Proofs.Nnapi.RoundTrip

/-!
# A decoded model is consumed exactly

Where a model ends is decided by the counts, ranks, arities and lengths read before. A reading that
succeeds has taken a definite beginning of its data. Before other bytes it reads that beginning as the
same value, and when the data end inside it the reading reports how many bytes its next read misses: a
check on what was read has passed before, so no other error comes first. Sequencing keeps this, hence
every section has it; the last reading of a model also asks that nothing is left.
-/

namespace ModelGraph.Nnapi

open Read

namespace Read

variable {α β : Type}

/-- The reading of the short data stops at a read for which bytes are missing. They are missing at the
end of the data, and no more of them than stood in the whole data of the given length. -/
def RunsOut (r : Read α) (whole : Nat) (short : Bytes) : Prop :=
  ∀ offset, ∃ position needed, r ⟨offset, short⟩ = .error (.unexpectedEnd position needed) ∧
    offset ≤ position ∧ position ≤ offset + short.length ∧
    0 < needed ∧ short.length + needed ≤ whole

/-- The reading reads the data as the value and needs all of them. -/
structure Needs (r : Read α) (data : Bytes) (a : α) : Prop where
  takes : Takes r data a
  cut : ∀ short more, more ≠ [] → data = short ++ more → RunsOut r data.length short

/-- Whatever the reading reads successfully, it takes a beginning that it needs. -/
def Consuming (r : Read α) : Prop :=
  ∀ c a c', r c = .ok (a, c') →
    ∃ data, c.rest = data ++ c'.rest ∧ c'.offset = c.offset + data.length ∧ Needs r data a

/-- The reading reads the data as the value, needs all of them and refuses any bytes after them. -/
structure Ends (r : Read α) (data : Bytes) (a : α) : Prop where
  exhausts : Exhausts r data a
  cut : ∀ short more, more ≠ [] → data = short ++ more → RunsOut r data.length short
  trailing : ∀ offset extra, extra ≠ [] →
    r ⟨offset, data ++ extra⟩ = .error (.trailingBytes extra.length)

/-- Whatever the reading reads successfully, it takes all of it and needs it. -/
def Ending (r : Read α) : Prop :=
  ∀ c a c', r c = .ok (a, c') → Ends r c.rest a

/-! ## Primitive readings -/

theorem needs_nil {r : Read α} {a : α} (h : Takes r [] a) : Needs r [] a :=
  ⟨h, fun _ _ hmore hdata => absurd (List.append_eq_nil_iff.mp hdata.symm).2 hmore⟩

theorem consuming_pure (a : α) : Consuming (Read.pure a) := by
  intro c b c' h
  obtain ⟨rfl, rfl⟩ := Prod.mk.inj (Except.ok.inj h)
  exact ⟨[], rfl, rfl, needs_nil (takes_pure a)⟩

theorem consuming_fail (e : DecodeError) : Consuming (fail e : Read α) := by
  intro c a c' h
  cases h

theorem runsOut_bytes {length : Nat} {short : Bytes} (hshort : short.length < length) :
    RunsOut (bytes length) length short := by
  intro offset
  refine ⟨offset, length - short.length, if_pos hshort, ?_⟩
  omega

theorem consuming_bytes (length : Nat) : Consuming (bytes length) := by
  intro c data c' h
  unfold bytes at h
  split_ifs at h with hshort
  obtain ⟨rfl, rfl⟩ := Prod.mk.inj (Except.ok.inj h)
  have hlength : (c.rest.take length).length = length :=
    List.length_take_of_le (Nat.le_of_not_lt hshort)
  refine ⟨c.rest.take length, (List.take_append_drop length c.rest).symm, by rw [hlength],
    takes_bytes _ hlength, ?_⟩
  intro short more hmore hdata
  have hlong := congrArg List.length hdata
  have hpos := List.length_pos_iff.mpr hmore
  rw [List.length_append] at hlong
  rw [hlength]
  exact runsOut_bytes (by omega)

/-! ## Readings in sequence -/

theorem RunsOut.bind {r : Read α} {whole whole' : Nat} {short : Bytes} (h : RunsOut r whole short)
    (hwhole : whole ≤ whole') (next : α → Read β) : RunsOut (Read.bind r next) whole' short := by
  intro offset
  obtain ⟨position, needed, hr, hbounds⟩ := h offset
  exact ⟨position, needed, by rw [Read.bind, hr], by omega⟩

theorem Needs.bind_runsOut {r : Read α} {data : Bytes} {a : α} {next : α → Read β} {whole : Nat}
    {short : Bytes} (h : Needs r data a) (hnext : RunsOut (next a) whole short) :
    RunsOut (Read.bind r next) (data.length + whole) (data ++ short) := by
  intro offset
  obtain ⟨position, needed, hrun, hbounds⟩ := hnext (offset + data.length)
  refine ⟨position, needed, ?_, ?_⟩
  · rw [Read.bind, h.takes offset short]
    exact hrun
  · rw [List.length_append]
    omega

/-- Data that end inside those of two readings in sequence end inside those of the first, or after
them inside those of the second. -/
theorem Needs.cut_bind {r : Read α} {data data' : Bytes} {a : α} {next : α → Read β}
    (h : Needs r data a)
    (hnext : ∀ short more, more ≠ [] → data' = short ++ more → RunsOut (next a) data'.length short)
    (short more : Bytes) (hmore : more ≠ []) (hdata : data ++ data' = short ++ more) :
    RunsOut (Read.bind r next) (data ++ data').length short := by
  rw [List.length_append]
  rcases List.append_eq_append_iff.mp hdata with ⟨short', rfl, hrest⟩ | ⟨more', hfirst, rfl⟩
  · exact h.bind_runsOut (hnext short' more hmore hrest)
  · by_cases hinside : more' = []
    · subst hinside
      rw [List.append_nil] at hfirst
      subst hfirst
      have hstart := h.bind_runsOut (hnext [] data' (by simpa using hmore) rfl)
      rwa [List.append_nil] at hstart
    · exact (h.cut short more' hinside hfirst).bind (Nat.le_add_right _ _) next

theorem Needs.bind {r : Read α} {next : α → Read β} {data data' : Bytes} {a : α} {b : β}
    (h : Needs r data a) (hnext : Needs (next a) data' b) :
    Needs (Read.bind r next) (data ++ data') b :=
  ⟨h.takes.bind hnext.takes, h.cut_bind hnext.cut⟩

theorem Needs.ends {r : Read α} {next : α → Read β} {data data' : Bytes} {a : α} {b : β}
    (h : Needs r data a) (hnext : Ends (next a) data' b) :
    Ends (Read.bind r next) (data ++ data') b := by
  refine ⟨h.takes.exhausts hnext.exhausts, h.cut_bind hnext.cut, ?_⟩
  intro offset extra hextra
  rw [List.append_assoc, Read.bind, h.takes]
  exact hnext.trailing _ extra hextra

theorem exists_of_bind {r : Read α} {next : α → Read β} {c c' : Cursor} {b : β}
    (h : Read.bind r next c = .ok (b, c')) : ∃ a mid, r c = .ok (a, mid) ∧ next a mid = .ok (b, c') := by
  unfold Read.bind at h
  split at h
  · exact ⟨_, _, ‹_›, h⟩
  · cases h

theorem Consuming.bind {r : Read α} {next : α → Read β} (h : Consuming r)
    (hnext : ∀ a, Consuming (next a)) : Consuming (r >>= next) := by
  intro c b c' hrun
  obtain ⟨a, mid, hr, hrest⟩ := exists_of_bind hrun
  obtain ⟨data, hdata, hoffset, hneeds⟩ := h c a mid hr
  obtain ⟨data', hdata', hoffset', hneeds'⟩ := hnext a mid b c' hrest
  refine ⟨data ++ data', ?_, ?_, hneeds.bind hneeds'⟩
  · rw [hdata, hdata', List.append_assoc]
  · rw [hoffset', hoffset, List.length_append, Nat.add_assoc]

theorem Consuming.ending {r : Read α} {next : α → Read β} (h : Consuming r)
    (hnext : ∀ a, Ending (next a)) : Ending (r >>= next) := by
  intro c b c' hrun
  obtain ⟨a, mid, hr, hrest⟩ := exists_of_bind hrun
  obtain ⟨data, hdata, -, hneeds⟩ := h c a mid hr
  rw [hdata]
  exact hneeds.ends (hnext a mid b c' hrest)

theorem Consuming.map {r : Read α} (h : Consuming r) (f : α → β) :
    Consuming (r >>= fun a => return f a) :=
  h.bind fun a => consuming_pure (f a)

theorem consuming_signed : Consuming signed := (consuming_bytes 4).map _

theorem consuming_unsigned : Consuming unsigned := (consuming_bytes 4).map _

theorem consuming_count (what : String) : Consuming (count what) :=
  consuming_signed.bind fun n => by
    split_ifs
    · exact consuming_fail _
    · exact consuming_pure _

theorem consuming_each {item : α → Read β} (h : ∀ a, Consuming (item a)) (as : List α) :
    Consuming (each item as) := by
  induction as with
  | nil => exact consuming_pure []
  | cons a as ih => exact (h a).bind fun b => ih.map (b :: ·)

theorem consuming_times {item : Read α} (h : Consuming item) (n : Nat) : Consuming (times item n) := by
  induction n with
  | zero => exact consuming_pure []
  | succ n ih => exact h.bind fun a => ih.map (a :: ·)

end Read

/-! ## Sections -/

theorem consuming_checkIndex (index : Int) (count : Nat) : Consuming (checkIndex index count) := by
  unfold checkIndex
  split_ifs
  · exact consuming_pure _
  · exact consuming_fail _

theorem consuming_readOperandRecord : Consuming readOperandRecord :=
  consuming_signed.bind fun _ => consuming_unsigned.bind fun _ => consuming_unsigned.bind fun _ =>
    consuming_signed.map _

theorem consuming_readValueHeader (operandCount : Nat) : Consuming (readValueHeader operandCount) :=
  consuming_signed.bind fun _ => (consuming_checkIndex _ _).bind fun _ =>
    consuming_signed.bind fun _ => consuming_unsigned.map _

theorem consuming_readOperationRecord : Consuming readOperationRecord :=
  consuming_signed.bind fun _ => consuming_unsigned.bind fun _ => consuming_unsigned.map _

theorem consuming_readPayload (header : ValueHeader) (type : OperandType) :
    Consuming (readPayload header type) := by
  unfold readPayload
  split_ifs
  · exact (consuming_bytes 1).bind fun _ => (consuming_bytes 3).map _
  · exact consuming_signed.map _
  · exact (consuming_bytes _).map _
  · exact consuming_fail _
  · exact consuming_fail _
  · exact consuming_unsigned.bind fun _ => consuming_unsigned.bind fun _ => consuming_unsigned.map _
  · exact consuming_fail _
  · exact consuming_fail _

theorem consuming_readValue (operands : List Operand) (header : ValueHeader) :
    Consuming (readValue operands header) := by
  unfold readValue
  split
  · exact (consuming_readPayload header _).map _
  · exact consuming_fail _

theorem consuming_readValues (operands : List Operand) (headers : List ValueHeader) :
    Consuming (readValues operands headers) := by
  induction headers generalizing operands with
  | nil => exact consuming_pure operands
  | cons header headers ih => exact (consuming_readValue operands header).bind fun operands => ih operands

theorem consuming_readOperand (record : OperandRecord) : Consuming (readOperand record) :=
  (consuming_times consuming_unsigned _).map _

theorem consuming_readIndices (operandCount length : Nat) : Consuming (readIndices operandCount length) :=
  consuming_times (consuming_unsigned.bind fun _ => consuming_checkIndex _ _) length

theorem consuming_readOperation (operandCount : Nat) (record : OperationRecord) :
    Consuming (readOperation operandCount record) :=
  (consuming_readIndices operandCount _).bind fun _ => (consuming_readIndices operandCount _).map _

/-! ## Whole models -/

theorem ending_fail {α : Type} (e : DecodeError) : Ending (fail e : Read α) := by
  intro c a c' h
  cases h

theorem ending_readEnd {α : Type} (a : α) : Ending (readEnd >>= fun _ => return a) := by
  intro c b c' h
  obtain ⟨u, mid, hend, hreturn⟩ := exists_of_bind h
  obtain rfl : a = b := congrArg Prod.fst (Except.ok.inj hreturn)
  have hrest : c.rest = [] := by
    unfold readEnd at hend
    split_ifs at hend with hempty
    exact List.isEmpty_iff.mp hempty
  rw [hrest]
  refine ⟨fun offset => rfl, fun _ _ hmore hdata => ?_, fun offset extra hextra => ?_⟩
  · exact absurd (List.append_eq_nil_iff.mp hdata.symm).2 hmore
  · change Read.bind readEnd _ _ = _
    rw [Read.bind, readEnd, if_neg (by simpa using hextra)]
    rfl

theorem ending_readModel : Ending readModel := by
  refine consuming_signed.ending fun version => ?_
  split_ifs
  · exact ending_fail _
  refine (consuming_count _).ending fun operandCount => ?_
  refine (consuming_count _).ending fun valueCount => ?_
  refine (consuming_count _).ending fun operationCount => ?_
  refine (consuming_count _).ending fun inputCount => ?_
  refine (consuming_count _).ending fun outputCount => ?_
  refine (consuming_times consuming_readOperandRecord _).ending fun operandRecords => ?_
  refine (consuming_times (consuming_readValueHeader _) _).ending fun headers => ?_
  refine (consuming_times consuming_readOperationRecord _).ending fun operationRecords => ?_
  refine (consuming_each consuming_readOperand _).ending fun bare => ?_
  refine (consuming_readValues bare headers).ending fun operands => ?_
  refine (consuming_each (consuming_readOperation _) _).ending fun operations => ?_
  refine (consuming_readIndices _ _).ending fun inputs => ?_
  refine (consuming_readIndices _ _).ending fun outputs => ?_
  exact ending_readEnd _

/-- A decoded model ends where its bytes end. Any beginning of them that is not the whole of them ends
too early: the error stands at a place inside it and misses no more bytes than were cut off. Bytes that
follow them are trailing bytes, all of them. -/
theorem Model.decode_consumes {data : Bytes} {model : Model} (h : Model.decode data = .ok model) :
    (∀ short more, more ≠ [] → data = short ++ more → ∃ position needed,
      Model.decode short = .error (.unexpectedEnd position needed) ∧
      position ≤ short.length ∧ 0 < needed ∧ needed ≤ more.length) ∧
    ∀ extra, extra ≠ [] → Model.decode (data ++ extra) = .error (.trailingBytes extra.length) := by
  have hends : Ends readModel data model := by
    unfold Model.decode at h
    cases hread : readModel ⟨0, data⟩ with
    | error e =>
        rw [hread] at h
        cases h
    | ok result =>
        rw [hread] at h
        obtain rfl : result.1 = model := Except.ok.inj h
        exact ending_readModel ⟨0, data⟩ result.1 result.2 hread
  constructor
  · intro short more hmore hdata
    obtain ⟨position, needed, hshort, -, hposition, hneeded, hwhole⟩ := hends.cut short more hmore hdata 0
    refine ⟨position, needed, by rw [Model.decode, hshort]; rfl, by omega, hneeded, ?_⟩
    rw [hdata, List.length_append] at hwhole
    omega
  · intro extra hextra
    rw [Model.decode, hends.trailing 0 extra hextra]
    rfl

theorem Model.decode_consumes_sample :
    Model.decode sampleModel.encode = .ok sampleModel ∧
      (∃ position needed,
        Model.decode (sampleModel.encode.take 30) = .error (.unexpectedEnd position needed) ∧
        position ≤ 30 ∧ 0 < needed ∧ needed ≤ 235) ∧
      Model.decode (sampleModel.encode ++ [0, 0]) = .error (.trailingBytes 2) := by
  have hdecode : Model.decode sampleModel.encode = .ok sampleModel := by
    rw [Model.decode, exhausts_readModel wellFormed_sampleModel 0]
    rfl
  obtain ⟨hshort, hextra⟩ := Model.decode_consumes hdecode
  have htake : (sampleModel.encode.take 30).length = 30 := by decide +kernel
  have hdrop : (sampleModel.encode.drop 30).length = 235 := by decide +kernel
  have hcut := hshort (sampleModel.encode.take 30) (sampleModel.encode.drop 30)
    (List.ne_nil_of_length_pos (by omega)) (List.take_append_drop 30 _).symm
  rw [htake, hdrop] at hcut
  exact ⟨hdecode, hcut, hextra [0, 0] (by simp)⟩

end ModelGraph.Nnapi
