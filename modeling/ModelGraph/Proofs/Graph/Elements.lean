import Mathlib.Algebra.Order.BigOperators.GroupWithZero.List
import Mathlib.Algebra.Order.Ring.Nat
import Mathlib.Data.List.Forall2
import ModelGraph.Archive.Manifest
import ModelGraph.Graph.Attribute
import ModelGraph.Proofs.Tensor.Storage

/-!
# Elements of tensors

A decoded tensor shows its bytes in row-major order: the element at an index lies as far behind the
first one as the strides of contiguous elements say. The strides in the tensor's own record are not
looked at, so the elements are those of the storage that the record means only if its strides step as
contiguous ones do.
-/

namespace ModelGraph

/-- How many elements lie before the one at an index, given the strides. -/
def distance (strides index : List Nat) : Nat := (List.zipWith (· * ·) index strides).sum

@[simp] theorem distance_nil (strides : List Nat) : distance strides [] = 0 := by
  simp [distance]

@[simp] theorem distance_cons (s i : Nat) (strides index : List Nat) :
    distance (s :: strides) (i :: index) = i * s + distance strides index := by
  simp [distance]

/-- The indices of a tensor of the given dimensions. -/
def Within (dims index : List Nat) : Prop := List.Forall₂ (· < ·) index dims

theorem Within.pos {dims index : List Nat} (h : Within dims index) : ∀ d ∈ dims, 0 < d := by
  induction h with
  | nil => exact fun _ hd => absurd hd List.not_mem_nil
  | cons hi _ ih => exact List.forall_mem_cons.mpr ⟨Nat.zero_lt_of_lt hi, ih⟩

namespace ManifestTensor

theorem contiguous_cons (d : Nat) (dims : List Nat) :
    contiguous (d :: dims) = dims.prod :: contiguous dims := by
  induction dims generalizing d with
  | nil => rfl
  | cons e dims ih =>
      rw [contiguous, ih e, List.headD_cons, List.prod_cons, Nat.mul_comm]

end ManifestTensor

open ManifestTensor (contiguous contiguous_cons)

/-- Strides that lead from one index to the next as those of contiguous elements do. Where a dimension
has only one index, nothing is asked of its stride. -/
def StepsContiguously : (dims strides : List Nat) → Prop
  | d :: dims, s :: strides => (1 < d → s = dims.prod) ∧ StepsContiguously dims strides
  | _, _ => True

theorem distance_zeros (strides : List Nat) (n : Nat) : distance strides (List.replicate n 0) = 0 := by
  induction n generalizing strides with
  | zero => exact distance_nil strides
  | succ n ih =>
      rw [List.replicate_succ]
      cases strides with
      | nil => rfl
      | cons s strides => rw [distance_cons, ih, Nat.zero_mul]

theorem within_zeros {dims : List Nat} (h : ∀ d ∈ dims, 0 < d) :
    Within dims (List.replicate dims.length 0) := by
  induction dims with
  | nil => exact .nil
  | cons d dims ih =>
      obtain ⟨hd, h⟩ := List.forall_mem_cons.mp h
      exact .cons hd (ih h)

theorem distance_eq_iff {dims strides : List Nat} (hlength : strides.length = dims.length)
    (hpos : ∀ d ∈ dims, 0 < d) :
    (∀ index, Within dims index → distance strides index = distance (contiguous dims) index) ↔
      StepsContiguously dims strides := by
  induction dims generalizing strides with
  | nil =>
      rw [List.eq_nil_of_length_eq_zero hlength]
      exact iff_of_true (fun _ _ => rfl) trivial
  | cons d dims ih =>
      obtain ⟨s, strides, rfl⟩ := List.exists_cons_of_length_eq_add_one hlength
      obtain ⟨hd, hpos⟩ := List.forall_mem_cons.mp hpos
      rw [StepsContiguously, ← ih (Nat.succ.inj hlength) hpos, contiguous_cons]
      constructor
      · intro h
        refine ⟨fun hmany => ?_, fun index hindex => ?_⟩
        · have hnext := h _ (.cons hmany (within_zeros hpos))
          simpa only [distance_cons, distance_zeros, Nat.one_mul, Nat.add_zero] using hnext
        · simpa using h (0 :: index) (.cons hd hindex)
      · rintro ⟨hstep, hrest⟩ index hindex
        cases hindex with
        | @cons i _ index _ hi hindex =>
            rw [distance_cons, distance_cons, hrest index hindex]
            rcases Nat.eq_zero_or_pos i with rfl | hi'
            · rw [Nat.zero_mul, Nat.zero_mul]
            · rw [hstep (Nat.lt_of_le_of_lt hi' hi)]

/-! ## Decoding -/

namespace Nested

/-- The element at an index. -/
def at? : (value : Nested) → (index : List Nat) → Option Scalar
  | .scalar x, [] => some x
  | .list items, i :: index => items[i]?.bind fun item => at? item index
  | _, _ => none

namespace Decoding

variable {d : Decoding}

/-- The element with the given number among the elements that bytes hold. -/
def elementAt (d : Decoding) (bytes : Bytes) (n : Nat) : Scalar :=
  let own := (bytes.drop (n * d.layout.width)).take d.layout.width
  d.layout.read (if d.littleEndian then own else own.reverse)

theorem elementAt_drop (bytes : Bytes) (n k : Nat) :
    d.elementAt (bytes.drop (n * d.layout.width)) k = d.elementAt bytes (n + k) := by
  rw [elementAt, elementAt, List.drop_drop, ← Nat.add_mul]

end Decoding

variable {d : Decoding}

/-- Further by a number of elements. -/
def Progress.skip (d : Decoding) (p : Progress) (n : Nat) : Progress :=
  ⟨p.rest.drop (n * d.layout.width), p.count + n⟩

theorem Progress.skip_skip (p : Progress) (n k : Nat) :
    (p.skip d n).skip d k = p.skip d (n + k) := by
  simp only [skip, List.drop_drop, ← Nat.add_mul, Nat.add_assoc]

theorem Progress.skip_zero (p : Progress) : p.skip d 0 = p := by simp [skip]

theorem element_eq (p : Progress) :
    element d p = (.scalar (d.elementAt p.rest 0), p.skip d 1) := by
  simp [element, Decoding.elementAt, Progress.skip]

/-- Items that all take the same number of elements lie at equal distances. -/
theorem items_eq {item : Progress → Nested × Progress} {size : Nat} (hsize : 0 < size)
    (hitem : ∀ p, p.count + size ≤ d.limit → (item p).2 = p.skip d size) (n : Nat) (p : Progress)
    (hp : p.count + n * size ≤ d.limit) :
    items d.limit item n p =
      ((List.range n).map fun i => (item (p.skip d (i * size))).1, p.skip d (n * size)) := by
  induction n generalizing p with
  | zero => simp [items, Progress.skip_zero]
  | succ n ih =>
      rw [Nat.succ_mul] at hp
      have hskip : (item p).2 = p.skip d size := hitem p (by omega)
      have hrest := ih (p.skip d size) (by simp only [Progress.skip]; omega)
      have hfirst : item p = ((item p).1, p.skip d size) := by rw [← hskip]
      rw [items, if_neg (by omega), hfirst]
      dsimp only
      rw [hrest, List.range_succ_eq_map, List.map_cons, List.map_map]
      simp only [Progress.skip_skip, Nat.zero_mul, Progress.skip_zero, Function.comp_def,
        Nat.succ_mul, Nat.add_comm size]

theorem level_eq {dims : List Nat} (hdims : ∀ n ∈ dims, 0 < n) (p : Progress)
    (hp : p.count + dims.prod ≤ d.limit) :
    (level d dims p).2 = p.skip d dims.prod ∧ ∀ index, Within dims index →
      (level d dims p).1.at? index = some (d.elementAt p.rest (distance (contiguous dims) index)) := by
  induction dims generalizing p with
  | nil =>
      rw [level, element_eq]
      refine ⟨rfl, fun index hindex => ?_⟩
      cases hindex
      rfl
  | cons n dims ih =>
      obtain ⟨hn, hdims⟩ := List.forall_mem_cons.mp hdims
      have hsize : 0 < dims.prod := List.prod_pos hdims
      rw [List.prod_cons] at hp ⊢
      have hitems := items_eq hsize (fun p hp => (ih hdims p hp).1) n p hp
      rw [level, hitems]
      refine ⟨rfl, fun index hindex => ?_⟩
      cases hindex with
      | @cons i _ index _ hi hindex =>
          have hcount : p.count + i * dims.prod + dims.prod ≤ d.limit := by
            have := Nat.mul_le_mul_right dims.prod (Nat.succ_le_of_lt hi)
            rw [Nat.succ_mul] at this
            omega
          have hinner := (ih hdims (p.skip d (i * dims.prod)) hcount).2 index hindex
          simp only [at?, List.getElem?_map, List.getElem?_range hi, Option.map_some, Option.bind_some]
          rw [hinner, contiguous_cons, distance_cons, Progress.skip, Decoding.elementAt_drop]

theorem at?_decode {dims index : List Nat} (hindex : Within dims index) {bytes : Bytes}
    (hlimit : dims.prod ≤ d.limit) :
    (decode d dims bytes).at? index =
      some (d.elementAt bytes (distance (contiguous dims) index)) := by
  have hstart : (⟨bytes, 0⟩ : Progress).count + dims.prod ≤ d.limit := by simpa using hlimit
  have hlevel := (level_eq hindex.pos ⟨bytes, 0⟩ hstart).2 index hindex
  cases dims with
  | nil =>
      have hone : ¬ d.limit ≤ 0 := Nat.not_le.mpr hlimit
      rw [← hlevel, decode, items, if_neg hone]
      rfl
  | cons n dims => exact hlevel

end Nested

/-! ## Realized tensors -/

namespace Storage

/-- The element with the given number, of a storage with data. -/
def element? (s : Storage) (littleEndian : Bool) (n : Nat) : Option Scalar :=
  s.elementType.layout?.bind fun layout => s.buffer?.map fun b =>
    Nested.Decoding.elementAt ⟨layout, littleEndian, maxSize⟩ (b.1.drop b.2) n

end Storage

theorem ElementType.width_layout {type : ElementType} {layout : ElementLayout}
    (h : type.layout? = some layout) : layout.width = type.width := by
  cases type <;> cases h <;> rfl

namespace Tensor

variable {t : Tensor} {n : Nested}

theorem exists_of_check {d : Decodable} (h : t.check = .ok d) :
    ∃ type, t.type.elementType = some type ∧ type.layout? = some d.layout ∧
      t.type.shape = some ⟨d.dims⟩ ∧ t.bytes? = some d.bytes ∧
      (Shape.byteLength? ⟨d.dims⟩ type).getD maxSize ≤ d.bytes.length := by
  unfold check at h
  split at h
  · cases h
  rename_i type htype
  split at h
  · cases h
  rename_i layout hlayout
  split at h
  · cases h
  rename_i shape hshape
  split at h
  · cases h
  rename_i bytes hbytes
  dsimp only at h
  split_ifs at h with hlength
  cases h
  exact ⟨type, htype, hlayout, hshape, hbytes, Nat.not_lt.mp hlength⟩

/-- Less memory than the largest size that passes the check holds all elements. -/
theorem fits_of_check {d : Decodable} (h : t.check = .ok d) (hmemory : d.bytes.length < maxSize) :
    d.dims.prod * d.layout.width ≤ d.bytes.length := by
  obtain ⟨type, -, hlayout, -, -, hlength⟩ := exists_of_check h
  cases htotal : Shape.byteLength? ⟨d.dims⟩ type with
  | none =>
      rw [htotal] at hlength
      exact absurd hlength (Nat.not_le.mpr hmemory)
  | some total =>
      rw [htotal] at hlength
      obtain ⟨-, -, rfl⟩ := Shape.byteLength?_eq_some_iff.mp htotal
      rwa [ElementType.width_layout hlayout]

theorem exists_of_value (h : t.value = .ok n) : ∃ d, t.check = .ok d ∧
    n = Nested.decode ⟨d.layout, t.littleEndian, maxSize⟩ d.dims d.bytes := by
  unfold value preview at h
  cases hcheck : t.check with
  | error e =>
      rw [hcheck] at h
      cases h
  | ok d =>
      rw [hcheck] at h
      exact ⟨d, rfl, (Except.ok.inj h).symm⟩

/-- A tensor over less memory than the largest size shows what its bytes hold, in row-major order. -/
theorem at?_of_value (h : t.value = .ok n) {type : ElementType} {layout : ElementLayout} {dims : List Nat}
    {data : Bytes} (htype : t.type.elementType = some type) (hlayout : type.layout? = some layout)
    (hshape : t.type.shape = some ⟨dims⟩) (hdata : t.data = some data) (hbound : data.length < maxSize)
    {index : List Nat} (hindex : Within dims index) :
    dims.prod * type.width ≤ (data.drop t.offset).length ∧
    n.at? index = some (Nested.Decoding.elementAt ⟨layout, t.littleEndian, maxSize⟩
      (data.drop t.offset) (distance (contiguous dims) index)) := by
  obtain ⟨d, hcheck, rfl⟩ := exists_of_value h
  obtain ⟨type', htype', hlayout', hshape', hbytes', -⟩ := exists_of_check hcheck
  cases htype.symm.trans htype'
  cases hshape.symm.trans hshape'
  have hdrop : d.bytes = data.drop t.offset := by
    rw [bytes?, hdata] at hbytes'
    exact (Option.some.inj hbytes').symm
  have hmemory : d.bytes.length < maxSize := by
    rw [hdrop, List.length_drop]
    omega
  have hfits := fits_of_check hcheck hmemory
  rw [← ElementType.width_layout hlayout, ← hdrop]
  obtain rfl : d.layout = layout := Option.some.inj (hlayout'.symm.trans hlayout)
  have hlimit : d.dims.prod ≤ maxSize :=
    calc d.dims.prod ≤ d.dims.prod * d.layout.width :=
          Nat.le_mul_of_pos_right _ (by rw [ElementType.width_layout hlayout]; exact type.width_pos)
      _ ≤ maxSize := hfits.trans hmemory.le
  exact ⟨hfits, Nested.at?_decode hindex hlimit⟩

/-- A tensor over a storage with data begins at its offset, or behind the data if that is past all
sizes. -/
theorem ofStorage_eq {s : Storage} {data : Bytes} (hdata : s.data = some data) (name : String)
    (offset : Nat) (shape : Option Shape) (littleEndian : Bool) :
    ofStorage name s offset shape littleEndian =
      { name, type := ⟨some s.elementType, shape⟩, data := some data
        offset := (checkedSize (s.offset + offset * s.elementType.width)).getD data.length
        littleEndian } := by
  have hbuffer : s.buffer? = some (data, s.offset) := by rw [Storage.buffer?, hdata]; rfl
  have hadd : (checkedAdd · s.offset) = (checkedAdd s.offset ·) := by
    funext a
    rw [checkedAdd, checkedAdd, Nat.add_comm]
  rw [ofStorage, hbuffer]
  dsimp only
  rw [hadd, checkedMul_bind_checkedAdd]
  rfl

/-- What the value of a tensor over a storage shows at an index is the storage's element that contiguous
strides lead to. -/
theorem at?_ofStorage {s : Storage} {data : Bytes} (hdata : s.data = some data)
    (hbound : data.length < maxSize) {name : String} {offset : Nat} {size index : List Nat}
    {littleEndian : Bool}
    (h : (ofStorage name s offset (some ⟨size⟩) littleEndian).value = .ok n)
    (hindex : Within size index) :
    n.at? index = s.element? littleEndian (offset + distance (contiguous size) index) := by
  rw [ofStorage_eq hdata] at h
  obtain ⟨checked, hcheck, -⟩ := exists_of_value h
  obtain ⟨type, htype, hlayout, -⟩ := exists_of_check hcheck
  cases htype
  obtain ⟨hbytes, hvalue⟩ := at?_of_value h rfl hlayout rfl rfl hbound hindex
  have hpos : 0 < size.prod * s.elementType.width :=
    Nat.mul_pos (List.prod_pos hindex.pos) s.elementType.width_pos
  have hstart : (checkedSize (s.offset + offset * s.elementType.width)).getD data.length =
      s.offset + offset * s.elementType.width := by
    cases hsum : checkedSize (s.offset + offset * s.elementType.width) with
    | none =>
        simp only [hsum, Option.getD_none, List.drop_length, List.length_nil] at hbytes
        omega
    | some start => exact (checkedSize_eq_some_iff.mp hsum).2
  have hbuffer : s.buffer? = some (data, s.offset) := by
    rw [Storage.buffer?, hdata]
    rfl
  rw [hvalue, hstart, Storage.element?, hlayout, hbuffer, Option.bind_some, Option.map_some,
    ← ElementType.width_layout hlayout, ← List.drop_drop, Nested.Decoding.elementAt_drop]

end Tensor

namespace Heap

/-- A tensor record over a storage with data, by its offset, dimensions and strides. -/
structure TensorOver (h : Heap) (v : Value) (s : Storage) (offset : Nat) (size stride : List Nat) :
    Prop where
  fields : ∃ record storage o, h.tensor? v = some record ∧
    h.attribute? record "storage" = some storage ∧ h.storage? storage = some o ∧ o.storage = s ∧
    (h.attribute? record "storage_offset").bind Value.size? = some offset ∧
    ((h.attribute? record "size").bind h.items?).bind (·.mapM Value.size?) = some size ∧
    ((h.attribute? record "stride").bind h.items?).bind (·.mapM Value.size?) = some stride
  filled : ∃ data, s.data = some data ∧ data.length < maxSize

variable {h : Heap} {v : Value} {s : Storage} {offset : Nat} {size stride : List Nat} {name : String}
  {littleEndian : Bool} {t : Tensor} {n : Nested}

/-- A realized tensor is over the record's storage, with its offset and dimensions. -/
theorem TensorOver.eq_ofStorage (hv : h.TensorOver v s offset size stride)
    (ht : h.realize? v name littleEndian = some t) :
    t = .ofStorage name s offset (some ⟨size⟩) littleEndian := by
  obtain ⟨record, storage, o, hrecord, hstorage, ho, rfl, hoffset, hsize, -⟩ := hv.fields
  have hdims : h.dims? record = some size := hsize
  rw [realize?, hrecord] at ht
  simp only [Option.bind_eq_bind, Option.bind_some, hstorage, ho, hoffset, hdims] at ht
  exact (Option.some.inj ht).symm

/-- The value of a realized tensor shows, at each index, the storage's element that contiguous strides
lead to from the tensor's offset, whatever strides the record has. -/
theorem TensorOver.at?_value (hv : h.TensorOver v s offset size stride)
    (ht : h.realize? v name littleEndian = some t) (hn : t.value = .ok n) {index : List Nat}
    (hindex : Within size index) :
    n.at? index = s.element? littleEndian (offset + distance (contiguous size) index) := by
  obtain ⟨data, hdata, hbound⟩ := hv.filled
  obtain rfl := hv.eq_ofStorage ht
  exact Tensor.at?_ofStorage hdata hbound hn hindex

/-- Where the strides step as contiguous ones, the elements are those that the strides lead to. -/
theorem TensorOver.at?_value_of_stepsContiguously (hv : h.TensorOver v s offset size stride)
    (ht : h.realize? v name littleEndian = some t) (hn : t.value = .ok n)
    (hlength : stride.length = size.length) (hsteps : StepsContiguously size stride) {index : List Nat}
    (hindex : Within size index) :
    n.at? index = s.element? littleEndian (offset + distance stride index) := by
  obtain ⟨data, hdata, hbound⟩ := hv.filled
  obtain rfl := hv.eq_ofStorage ht
  rw [(distance_eq_iff hlength hindex.pos).mpr hsteps index hindex]
  exact Tensor.at?_ofStorage hdata hbound hn hindex

namespace Transposed

/-- A matrix of four bytes that is stored by columns. -/
def heap : Heap where
  objects := #[.instance { module := "torch", name := "ByteTensor",
                           fields := ⟨[("storage", .ref 1), ("storage_offset", .int 0), ("size", .ref 2),
                             ("stride", .ref 3)]⟩ },
    .storage { module := "torch", name := "ByteStorage",
               storage := (Storage.declare .uint8 4).fill [1, 2, 3, 4] },
    .list [.int 2, .int 2],
    .list [.int 1, .int 2]]

def storage : Storage := (Storage.declare .uint8 4).fill [1, 2, 3, 4]

theorem tensor?_record : heap.tensor? (.ref 0) = some (.ref 0) := by decide +kernel

theorem tensorOver : heap.TensorOver (.ref 0) storage 0 [2, 2] [1, 2] where
  fields := ⟨.ref 0, .ref 1, _, tensor?_record, rfl, rfl, rfl, rfl, rfl, rfl⟩
  filled := ⟨[1, 2, 3, 4], rfl, by decide⟩

def tensor : Tensor := .ofStorage "" storage 0 (some ⟨[2, 2]⟩) true

theorem realize?_record : heap.realize? (.ref 0) "" true = some tensor := by
  rw [realize?, tensor?_record]
  rfl

end Transposed

/-- Where the strides of a matrix stored by columns lead to the third stored element, the second is
shown. -/
theorem at?_value_transposed : ∃ n, Transposed.heap.realize? (.ref 0) "" true = some Transposed.tensor ∧
    Transposed.tensor.value = .ok n ∧ Within [2, 2] [0, 1] ∧
    n.at? [0, 1] = Transposed.storage.element? true (0 + distance (contiguous [2, 2]) [0, 1]) := by
  have hindex : Within [2, 2] [0, 1] := .cons (by decide) (.cons (by decide) .nil)
  exact ⟨_, Transposed.realize?_record, rfl, hindex,
    TensorOver.at?_value Transposed.tensorOver Transposed.realize?_record rfl hindex⟩

end Heap

end ModelGraph
