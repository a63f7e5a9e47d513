import ModelGraph.Proofs.Tensor.Capacity
import ModelGraph.Proofs.Tensor.Preview
import ModelGraph.Proofs.Tensor.Storage

/-!
# Tensors over shared storages

A tensor over a storage keeps the whole data and the place where it begins. It ends where its own elements
end, not where the storage does: over a view it may read on behind the view. As long as its elements lie
inside the storage, nothing but the storage's own bytes is seen; behind them, what is seen is the data that
other storages share.
-/

namespace ModelGraph

namespace Nested

variable {d : Decoding} {bytes bytes' : Bytes} {total : Nat}

/-! ## Decoding depends on the elements read -/

theorem items_congr {item : Progress → Nested × Progress} {size : Nat}
    (hitem : ∀ k, k < d.limit → k + size ≤ total →
      (item (reached d bytes k)).1 = (item (reached d bytes' k)).1)
    (hnext : ∀ bytes k, k < d.limit →
      (item (reached d bytes k)).2 = reached d bytes (min d.limit (k + size)))
    (n : Nat) {k : Nat} (htotal : k + n * size ≤ total) :
    (items d.limit item n (reached d bytes k)).1 = (items d.limit item n (reached d bytes' k)).1 := by
  induction n generalizing k with
  | zero => rfl
  | succ n ih =>
      rw [Nat.succ_mul] at htotal
      -- both runs have counted the same, so they end together
      rw [items, items, reached_count, reached_count]
      split_ifs with hend
      · rfl
      · have hlt : k < d.limit := Nat.lt_of_not_le hend
        have hrest := ih (k := min d.limit (k + size)) (by omega)
        dsimp only
        rw [hitem k hlt (by omega), hnext bytes k hlt, hnext bytes' k hlt, hrest]

theorem level_congr (h : ∀ i, i < d.limit → i < total → d.elementAt bytes i = d.elementAt bytes' i)
    {dims : List Nat} {k : Nat} (hscalar : dims = [] → k < d.limit) (htotal : k + dims.prod ≤ total) :
    (level d dims (reached d bytes k)).1 = (level d dims (reached d bytes' k)).1 := by
  induction dims generalizing k with
  | nil =>
      rw [level, level, element_reached, element_reached, h k (hscalar rfl) htotal]
  | cons n dims ih =>
      rw [List.prod_cons] at htotal
      exact congrArg Nested.list (items_congr (fun k hk htotal => ih (fun _ => hk) htotal)
        (fun _ _ hk => level_reached dims hk) n htotal)

/-- Bytes with the same elements, as far as they are shown, are decoded to the same value. -/
theorem decode_congr {dims : List Nat}
    (h : ∀ i, i < d.limit → i < dims.prod → d.elementAt bytes i = d.elementAt bytes' i) :
    decode d dims bytes = decode d dims bytes' := by
  -- a scalar at a limit of zero is the one value that is no level of its own
  by_cases hmark : dims = [] ∧ d.limit = 0
  · obtain ⟨rfl, hzero⟩ := hmark
    rw [decode, decode, items, items, hzero, if_pos (Nat.zero_le _), if_pos (Nat.zero_le _)]
  · have hscalar : dims = [] → 0 < d.limit := fun hdims =>
      Nat.pos_of_ne_zero fun hzero => hmark ⟨hdims, hzero⟩
    rw [decode_eq_level hscalar, decode_eq_level hscalar]
    exact level_congr h hscalar (Nat.zero_add _).le

/-- The element behind some others, of bytes that are cut off behind it. -/
theorem Decoding.elementAt_take {n length : Nat}
    (h : (n + 1) * d.layout.width ≤ (bytes.take length).length) :
    d.elementAt (bytes.take length) n = d.elementAt bytes n := by
  rw [List.length_take, Nat.succ_mul] at h
  have hwidth : d.layout.width ≤ length - n * d.layout.width := by omega
  rw [elementAt, elementAt, List.drop_take, List.take_take, Nat.min_eq_left hwidth]

end Nested

namespace Storage

/-- The bytes from the storage's first one to the end of the data, behind its own too. -/
def tail? (s : Storage) : Option Bytes := s.data.map (·.drop s.offset)

/-- What a tensor over the storage can show lies in the storage's own bytes from an element offset on. -/
def Covers (s : Storage) (offset : Nat) (shape : Option Shape) : Prop :=
  ∀ dims bytes, s.elementType.isDecodable = true → shape = some ⟨dims⟩ → s.bytes? = some bytes →
    Shape.Fits s.elementType dims (bytes.length - offset * s.elementType.width)

variable {s : Storage}

theorem Covers.congr {s' : Storage} {offset : Nat} {shape : Option Shape} (h : s.Covers offset shape)
    (htype : s.elementType = s'.elementType) (hbytes : s.bytes? = s'.bytes?) : s'.Covers offset shape := by
  rw [Covers, htype, hbytes] at h
  exact h

theorem bytes?_eq_tail? (hmemory : ∀ {data}, s.data = some data → data.length ≤ maxSize) :
    s.bytes? = s.tail?.map (·.take (s.size * s.elementType.width)) := by
  rw [bytes?_eq hmemory, tail?, Option.map_map]
  rfl

end Storage

namespace Tensor

variable {s : Storage} {name : String} {offset : Nat} {shape : Option Shape} {littleEndian : Bool}

theorem type_ofStorage : (ofStorage name s offset shape littleEndian).type = ⟨some s.elementType, shape⟩ := by
  unfold ofStorage
  cases s.buffer? <;> rfl

theorem littleEndian_ofStorage : (ofStorage name s offset shape littleEndian).littleEndian = littleEndian := by
  unfold ofStorage
  cases s.buffer? <;> rfl

theorem ofStorage_of_no_data (hdata : s.data = none) :
    ofStorage name s offset shape littleEndian = declare name ⟨some s.elementType, shape⟩ littleEndian := by
  rw [ofStorage, Storage.buffer?, hdata]
  rfl

/-- A tensor's bytes begin at its offset in the storage and go on to the end of the data. -/
theorem bytes?_ofStorage (hmemory : ∀ {data}, s.data = some data → data.length ≤ maxSize) :
    (ofStorage name s offset shape littleEndian).bytes? =
      s.tail?.map (·.drop (offset * s.elementType.width)) := by
  cases hdata : s.data with
  | none =>
      rw [ofStorage_of_no_data hdata, Storage.tail?, hdata]
      rfl
  | some data =>
      rw [ofStorage_eq hdata, bytes?, Storage.tail?, hdata]
      simp only [Option.map_some, List.drop_drop]
      congr 1
      cases hsum : checkedSize (s.offset + offset * s.elementType.width) with
      | some start => rw [(checkedSize_eq_some_iff.mp hsum).2, Option.getD_some]
      | none =>
          -- the saturated start is behind the data, and so is the exact one
          have hlength : data.length ≤ s.offset + offset * s.elementType.width :=
            (hmemory hdata).trans (checkedSize_eq_none_iff.mp hsum).le
          rw [Option.getD_none, List.drop_length, List.drop_eq_nil_of_le hlength]

/-! ## What a tensor shows of its storage -/

section

variable (hmemory : ∀ {data}, s.data = some data → data.length < maxSize)

include hmemory

theorem exists_tail {own : Bytes} (hown : s.bytes? = some own) :
    ∃ tail, s.tail? = some tail ∧ own = tail.take (s.size * s.elementType.width) ∧
      tail.length < maxSize := by
  rw [Storage.bytes?_eq_tail? fun h => (hmemory h).le] at hown
  obtain ⟨tail, htail, rfl⟩ := Option.map_eq_some_iff.mp hown
  obtain ⟨data, hdata, rfl⟩ := Option.map_eq_some_iff.mp htail
  refine ⟨_, htail, rfl, ?_⟩
  rw [List.length_drop]
  exact (Nat.sub_le _ _).trans_lt (hmemory hdata)

/-- As long as only elements inside the storage are shown, they are read from its own bytes. -/
theorem preview_of_inside {d : Decodable}
    (hcheck : (ofStorage name s offset shape littleEndian).check = .ok d) {own : Bytes}
    (hown : s.bytes? = some own) {limit : Nat}
    (hinside : ∀ i, i < limit → i < d.dims.prod → (offset + i + 1) * s.elementType.width ≤ own.length) :
    (ofStorage name s offset shape littleEndian).preview limit =
      .ok (Nested.decode ⟨d.layout, littleEndian, limit⟩ d.dims
        (own.drop (offset * s.elementType.width))) := by
  obtain ⟨type, htype, hlayout, -, hbytes, -⟩ := exists_of_check hcheck
  rw [type_ofStorage] at htype
  cases htype
  obtain ⟨tail, htail, rfl, -⟩ := exists_tail hmemory hown
  rw [bytes?_ofStorage fun h => (hmemory h).le, htail] at hbytes
  have hrest : tail.drop (offset * s.elementType.width) = d.bytes := Option.some.inj hbytes
  have hwidth : d.layout.width = s.elementType.width := ElementType.width_layout hlayout
  rw [preview_of_check hcheck, littleEndian_ofStorage, ← hrest, ← hwidth]
  refine congrArg Except.ok (Nested.decode_congr fun i hlimit hi => ?_)
  have hend := hinside i hlimit hi
  rw [← hwidth] at hend
  have hcut (bytes : Bytes) : Nested.Decoding.elementAt ⟨d.layout, littleEndian, limit⟩
      (bytes.drop (offset * d.layout.width)) i =
        Nested.Decoding.elementAt ⟨d.layout, littleEndian, limit⟩ bytes (offset + i) :=
    Nested.Decoding.elementAt_drop bytes offset i
  rw [hcut, hcut, Nested.Decoding.elementAt_take hend]

/-- A storage that covers a tensor lets it pass the check. -/
theorem check_of_covers {layout : ElementLayout} {dims : List Nat} {own : Bytes}
    (hcovers : s.Covers offset (some ⟨dims⟩)) (hlayout : s.elementType.layout? = some layout)
    (hown : s.bytes? = some own) :
    ∃ rest, (ofStorage name s offset (some ⟨dims⟩) littleEndian).check = .ok ⟨layout, dims, rest⟩ := by
  obtain ⟨tail, htail, htake, hlength⟩ := exists_tail hmemory hown
  have hdecodable : s.elementType.isDecodable = true := Option.isSome_of_eq_some hlayout
  have hbytes : (ofStorage name s offset (some ⟨dims⟩) littleEndian).bytes? =
      some (tail.drop (offset * s.elementType.width)) := by
    rw [bytes?_ofStorage fun h => (hmemory h).le, htail]
    rfl
  have hmore : own.length - offset * s.elementType.width ≤
      (tail.drop (offset * s.elementType.width)).length := by
    rw [htake, List.length_take, List.length_drop]
    omega
  have hless : (tail.drop (offset * s.elementType.width)).length < maxSize := by
    rw [List.length_drop]
    omega
  exact ⟨_, check_of_fits type_ofStorage hlayout hbytes hless
    ((hcovers dims own hdecodable rfl hown).mono hmore)⟩

theorem preview_of_covers {layout : ElementLayout} {dims : List Nat} {own : Bytes}
    (hcovers : s.Covers offset (some ⟨dims⟩)) (hlayout : s.elementType.layout? = some layout)
    (hown : s.bytes? = some own) (limit : Nat) :
    (ofStorage name s offset (some ⟨dims⟩) littleEndian).preview limit =
      .ok (Nested.decode ⟨layout, littleEndian, limit⟩ dims
        (own.drop (offset * s.elementType.width))) := by
  obtain ⟨rest, hcheck⟩ := check_of_covers hmemory hcovers hlayout hown
  have hdecodable : s.elementType.isDecodable = true := Option.isSome_of_eq_some hlayout
  exact preview_of_inside hmemory hcheck hown fun i _ hi =>
    (hcovers dims own hdecodable rfl hown).inside hi

end

theorem parts_of_check_ofStorage {d : Decodable}
    (hcheck : (ofStorage name s offset shape littleEndian).check = .ok d) :
    s.elementType.layout? = some d.layout ∧ shape = some ⟨d.dims⟩ ∧ ∃ own, s.bytes? = some own := by
  obtain ⟨type, htype, hlayout, hshape, hbytes, -⟩ := exists_of_check hcheck
  rw [type_ofStorage] at htype hshape
  cases htype
  refine ⟨hlayout, hshape, ?_⟩
  cases hdata : s.data with
  | none =>
      rw [ofStorage_of_no_data hdata] at hbytes
      cases hbytes
  | some data => exact ⟨_, by rw [Storage.bytes?, hdata]; rfl⟩

/-- Without elements to decode, a shape or data, tensors fail in the same way. -/
theorem check_ofStorage_congr {s' : Storage} (htype : s.elementType = s'.elementType)
    (hmissing : s.elementType.layout? = none ∨ shape = none ∨ s.data = none ∧ s'.data = none) :
    (ofStorage name s offset shape littleEndian).check =
      (ofStorage name s' offset shape littleEndian).check := by
  rcases hmissing with hlayout | rfl | ⟨hdata, hdata'⟩
  · rw [check, check, type_ofStorage, type_ofStorage, ← htype]
    simp only [hlayout]
  · rw [check, check, type_ofStorage, type_ofStorage, ← htype]
  · rw [ofStorage_of_no_data hdata, ofStorage_of_no_data hdata', htype]

/-! ## Two storages with the same bytes -/

section

variable {s' : Storage} (htype : s.elementType = s'.elementType) (hbytes : s.bytes? = s'.bytes?)
  (hmemory : ∀ {data}, s.data = some data → data.length < maxSize)
  (hmemory' : ∀ {data}, s'.data = some data → data.length < maxSize)

include htype hbytes hmemory hmemory'

theorem preview_ofStorage_of_covers (hcovers : s.Covers offset shape) (limit : Nat) :
    (ofStorage name s offset shape littleEndian).preview limit =
      (ofStorage name s' offset shape littleEndian).preview limit := by
  have hfails (hmissing : s.elementType.layout? = none ∨ shape = none ∨ s.data = none ∧ s'.data = none) :
      (ofStorage name s offset shape littleEndian).preview limit =
        (ofStorage name s' offset shape littleEndian).preview limit := by
    rw [preview, preview, check_ofStorage_congr htype hmissing, littleEndian_ofStorage,
      littleEndian_ofStorage]
  cases hlayout : s.elementType.layout? with
  | none => exact hfails (.inl hlayout)
  | some layout =>
      rcases shape with _ | ⟨dims⟩
      · exact hfails (.inr (.inl rfl))
      cases hown : s.bytes? with
      | none =>
          have hdata : s.data = none := Option.map_eq_none_iff.mp hown
          have hdata' : s'.data = none := Option.map_eq_none_iff.mp (hbytes.symm.trans hown)
          exact hfails (.inr (.inr ⟨hdata, hdata'⟩))
      | some own =>
          have hlayout' : s'.elementType.layout? = some layout := htype ▸ hlayout
          have hown' : s'.bytes? = some own := hbytes.symm.trans hown
          rw [preview_of_covers hmemory hcovers hlayout hown,
            preview_of_covers hmemory' (hcovers.congr htype hbytes) hlayout' hown', htype]

theorem preview_ofStorage_of_inside {d d' : Decodable}
    (hcheck : (ofStorage name s offset shape littleEndian).check = .ok d)
    (hcheck' : (ofStorage name s' offset shape littleEndian).check = .ok d') {limit : Nat}
    (hinside : ∀ own i, s.bytes? = some own → i < limit → i < d.dims.prod →
      (offset + i + 1) * s.elementType.width ≤ own.length) :
    (ofStorage name s offset shape littleEndian).preview limit =
      (ofStorage name s' offset shape littleEndian).preview limit := by
  obtain ⟨hlayout, hshape, own, hown⟩ := parts_of_check_ofStorage hcheck
  obtain ⟨hlayout', hshape', -⟩ := parts_of_check_ofStorage hcheck'
  have hsame : d'.layout = d.layout := Option.some.inj (hlayout'.symm.trans (htype ▸ hlayout))
  have hdims : d'.dims = d.dims := Shape.mk.inj (Option.some.inj (hshape'.symm.trans hshape))
  have hinside' : ∀ i, i < limit → i < d'.dims.prod →
      (offset + i + 1) * s'.elementType.width ≤ own.length := by
    rw [hdims, ← htype]
    exact fun i => hinside own i hown
  rw [preview_of_inside hmemory hcheck hown fun i => hinside own i hown,
    preview_of_inside hmemory' hcheck' (hbytes.symm.trans hown) hinside', hsame, hdims, htype]

end

/-- Two storages of one type with the same bytes give tensors with the same previews and values, errors
included, as long as these bytes cover the tensor. Where they do not, tensors that both pass the check
still show the same elements inside the storages. -/
theorem preview_ofStorage_congr {s' : Storage} (htype : s.elementType = s'.elementType)
    (hbytes : s.bytes? = s'.bytes?) (hmemory : ∀ {data}, s.data = some data → data.length < maxSize)
    (hmemory' : ∀ {data}, s'.data = some data → data.length < maxSize) (name : String) (offset : Nat)
    (shape : Option Shape) (littleEndian : Bool) :
    (s.Covers offset shape →
      (∀ limit, (ofStorage name s offset shape littleEndian).preview limit =
        (ofStorage name s' offset shape littleEndian).preview limit) ∧
      (ofStorage name s offset shape littleEndian).value =
        (ofStorage name s' offset shape littleEndian).value) ∧
    ∀ limit d d', (ofStorage name s offset shape littleEndian).check = .ok d →
      (ofStorage name s' offset shape littleEndian).check = .ok d' →
      (∀ own i, s.bytes? = some own → i < limit → i < d.dims.prod →
        (offset + i + 1) * s.elementType.width ≤ own.length) →
      (ofStorage name s offset shape littleEndian).preview limit =
        (ofStorage name s' offset shape littleEndian).preview limit := by
  refine ⟨fun hcovers => ?_, fun limit d d' hcheck hcheck' hinside =>
    preview_ofStorage_of_inside htype hbytes hmemory hmemory' hcheck hcheck' hinside⟩
  have hpreview (limit : Nat) : (ofStorage name s offset shape littleEndian).preview limit =
      (ofStorage name s' offset shape littleEndian).preview limit :=
    preview_ofStorage_of_covers htype hbytes hmemory hmemory' hcovers limit
  exact ⟨hpreview, hpreview maxSize⟩

/-- The first two of four bytes, in their place and by themselves. -/
def firstTwo : Storage := ((Storage.declare .uint8 4).fill [1, 2, 3, 4]).view 0 2

def twoAlone : Storage := (Storage.declare .uint8 2).fill [1, 2]

theorem preview_ofStorage_congr_two :
    firstTwo.elementType = twoAlone.elementType ∧ firstTwo.bytes? = twoAlone.bytes? ∧
      firstTwo.Covers 1 (some ⟨[1]⟩) ∧
      (ofStorage "last" firstTwo 1 (some ⟨[1]⟩) true).value =
        (ofStorage "last" twoAlone 1 (some ⟨[1]⟩) true).value ∧
      (ofStorage "last" twoAlone 1 (some ⟨[1]⟩) true).value = .ok (.list [.scalar (.int 2)]) := by
  have hcovers : firstTwo.Covers 1 (some ⟨[1]⟩) := by
    rintro dims bytes - hdims hbytes
    cases hdims
    cases hbytes
    exact ⟨by decide, fun h => absurd h (by decide)⟩
  have htype : firstTwo.elementType = twoAlone.elementType := rfl
  have hbytes : firstTwo.bytes? = twoAlone.bytes? := rfl
  have hsame := (preview_ofStorage_congr htype hbytes (fun h => by cases h; decide)
    (fun h => by cases h; decide) "last" 1 (some ⟨[1]⟩) true).1 hcovers
  exact ⟨htype, hbytes, hcovers, hsame.2, rfl⟩

/-- A tensor of four elements goes past the two of the storages: in place it reads on in the data, by
themselves the bytes are too short. -/
theorem value_past_storage :
    firstTwo.elementType = twoAlone.elementType ∧ firstTwo.size = twoAlone.size ∧
      firstTwo.bytes? = twoAlone.bytes? ∧
      (ofStorage "all" firstTwo 0 (some ⟨[4]⟩) true).value =
        .ok (.list [.scalar (.int 1), .scalar (.int 2), .scalar (.int 3), .scalar (.int 4)]) ∧
      (ofStorage "all" twoAlone 0 (some ⟨[4]⟩) true).value = .error (.tooShort 4 2) ∧
      (ofStorage "all" firstTwo 0 (some ⟨[4]⟩) true).value ≠
        (ofStorage "all" twoAlone 0 (some ⟨[4]⟩) true).value := by
  have hplace : (ofStorage "all" firstTwo 0 (some ⟨[4]⟩) true).value =
      .ok (.list [.scalar (.int 1), .scalar (.int 2), .scalar (.int 3), .scalar (.int 4)]) := rfl
  have halone : (ofStorage "all" twoAlone 0 (some ⟨[4]⟩) true).value = .error (.tooShort 4 2) := rfl
  refine ⟨rfl, rfl, rfl, hplace, halone, ?_⟩
  rw [hplace, halone]
  exact nofun

end Tensor

end ModelGraph
