import ModelGraph.Proofs.Graph.Elements

/-!
# Decoding in row-major order

The decoder keeps one cursor and one count for the whole tensor. Between two elements both are given by
the number of elements read so far, so what a level of nesting reads depends on nothing but the number
that it starts at: the elements of a row lie behind each other, and each row takes as many elements as the
inner dimensions have together. A limit that is not met in between leaves the nested lists that the
dimensions describe; bytes for all elements are never read past their end.
-/

namespace ModelGraph

open ManifestTensor (contiguous contiguous_cons)

theorem distance_contiguous_lt {dims index : List Nat} (h : Within dims index) :
    distance (contiguous dims) index < dims.prod := by
  induction h with
  | nil => exact Nat.one_pos
  | @cons i n index dims hi _ ih =>
      rw [contiguous_cons, distance_cons, List.prod_cons]
      calc i * dims.prod + distance (contiguous dims) index < i * dims.prod + dims.prod := by omega
        _ = (i + 1) * dims.prod := (Nat.succ_mul i _).symm
        _ ≤ n * dims.prod := Nat.mul_le_mul_right _ hi

namespace Nested

variable {d : Decoding} {bytes : Bytes}

/-! ## Parts of a value -/

mutual

/-- The elements and marks of a value in order. -/
def leaves : Nested → List Nested
  | .list items => leavesList items
  | leaf => [leaf]

def leavesList : List Nested → List Nested
  | [] => []
  | item :: rest => leaves item ++ leavesList rest

end

def scalar? : Nested → Option Scalar
  | .scalar x => some x
  | _ => none

/-- The elements of a value in order. -/
def scalars (value : Nested) : List Scalar := value.leaves.filterMap scalar?

theorem leavesList_eq (items : List Nested) : leavesList items = items.flatMap leaves := by
  induction items with
  | nil => rfl
  | cons item items ih => rw [leavesList, ih, List.flatMap_cons]

@[simp] theorem leaves_list (items : List Nested) :
    (Nested.list items).leaves = items.flatMap leaves := by
  rw [leaves, leavesList_eq]

@[simp] theorem scalars_scalar (x : Scalar) : (Nested.scalar x).scalars = [x] := rfl

@[simp] theorem scalars_truncated : truncated.scalars = [] := rfl

@[simp] theorem scalars_list (items : List Nested) :
    (Nested.list items).scalars = items.flatMap scalars := by
  rw [scalars, leaves_list, List.filterMap_flatMap]
  rfl

mutual

theorem elementCount_eq : (value : Nested) → value.elementCount = value.scalars.length
  | .scalar _ => rfl
  | .truncated => rfl
  | .list items => by rw [elementCount, elementCountList_eq items, scalars_list]

theorem elementCountList_eq : (items : List Nested) →
    elementCountList items = (items.flatMap scalars).length
  | [] => rfl
  | item :: items => by
    rw [elementCountList, elementCount_eq item, elementCountList_eq items, List.flatMap_cons,
      List.length_append]

end

/-! ## Values without marks -/

/-- Lists of lists as the dimensions say, down to elements: nothing is left out. -/
inductive Full : (dims : List Nat) → Nested → Prop
  | scalar (x : Scalar) : Full [] (.scalar x)
  | list {dims items} : (∀ item ∈ items, Full dims item) → Full (items.length :: dims) (.list items)

namespace Full

variable {dims : List Nat} {value : Nested}

theorem isTruncation (h : Full dims value) : value.isTruncation = false := by cases h <;> rfl

theorem truncated_not_mem (h : Full dims value) : .truncated ∉ value.leaves := by
  induction h with
  | scalar x => simp [leaves]
  | list _ ih => simpa using ih

theorem isTruncated (h : Full dims value) : value.isTruncated = false := by
  induction h with
  | scalar x => rfl
  | @list dims items _ ih =>
      rw [Nested.isTruncated]
      clear * - ih
      induction items with
      | nil => rfl
      | cons item items ih' =>
          cases items with
          | nil => exact ih item (by simp)
          | cons next items => exact ih' fun item hitem => ih item (List.mem_cons_of_mem _ hitem)

theorem shape (h : Full dims value) (hdims : ∀ n ∈ dims, n ≠ 0) : value.shape = dims := by
  induction h with
  | scalar x => rfl
  | @list dims items hitems ih =>
      obtain ⟨hn, hinner⟩ := List.forall_mem_cons.mp hdims
      cases items with
      | nil => exact absurd rfl hn
      | cons first items =>
          have hfilter : (first :: items).filter (fun item => !item.isTruncation) = first :: items :=
            List.filter_eq_self.mpr fun item hitem => by rw [(hitems item hitem).isTruncation]; rfl
          rw [Nested.shape, hfilter, ih first (by simp) hinner]

end Full

/-! ## The reference -/

/-- The elements from the given number on, as lists of lists of the given dimensions. -/
def rowMajor (d : Decoding) (bytes : Bytes) : (dims : List Nat) → (start : Nat) → Nested
  | [], start => .scalar (d.elementAt bytes start)
  | n :: dims, start => .list ((List.range n).map fun i => rowMajor d bytes dims (start + i * dims.prod))

/-- The rows that begin at the given number, one after another. -/
theorem map_range_succ {α : Type} (value : Nat → α) (size n k : Nat) :
    (List.range (n + 1)).map (fun i => value (k + i * size)) =
      value k :: (List.range n).map fun i => value (k + size + i * size) := by
  rw [List.range_succ_eq_map, List.map_cons, List.map_map]
  simp only [Nat.zero_mul, Nat.add_zero, Function.comp_def, Nat.succ_mul, Nat.add_assoc,
    Nat.add_comm size]

theorem at?_rowMajor {dims index : List Nat} (h : Within dims index) (start : Nat) :
    (rowMajor d bytes dims start).at? index =
      some (d.elementAt bytes (start + distance (contiguous dims) index)) := by
  induction h generalizing start with
  | nil => rfl
  | @cons i n index dims hi _ ih =>
      simp only [rowMajor, at?, List.getElem?_map, List.getElem?_range hi, Option.map_some,
        Option.bind_some]
      rw [ih, contiguous_cons, distance_cons, Nat.add_assoc]

theorem full_rowMajor (dims : List Nat) (start : Nat) : Full dims (rowMajor d bytes dims start) := by
  induction dims generalizing start with
  | nil => exact .scalar _
  | cons n dims ih =>
      have hrows : ∀ item ∈ (List.range n).map (fun i => rowMajor d bytes dims (start + i * dims.prod)),
          Full dims item := by
        intro item hitem
        obtain ⟨i, -, rfl⟩ := List.mem_map.mp hitem
        exact ih _
      simpa [rowMajor] using Full.list hrows

theorem flatMap_range'_range (start size n : Nat) :
    (List.range n).flatMap (fun i => List.range' (start + i * size) size) =
      List.range' start (n * size) := by
  induction n with
  | zero => simp
  | succ n ih =>
      rw [List.range_succ, List.flatMap_append, ih, List.flatMap_singleton, List.range'_append_1,
        Nat.succ_mul]

theorem scalars_rowMajor (dims : List Nat) (start : Nat) :
    (rowMajor d bytes dims start).scalars =
      (List.range' start dims.prod).map (d.elementAt bytes) := by
  induction dims generalizing start with
  | nil => rfl
  | cons n dims ih =>
      rw [rowMajor, scalars_list, List.flatMap_map, List.prod_cons, ← flatMap_range'_range,
        List.map_flatMap]
      simp only [ih]

theorem elementCount_rowMajor (dims : List Nat) (start : Nat) :
    (rowMajor d bytes dims start).elementCount = dims.prod := by
  rw [elementCount_eq, scalars_rowMajor, List.length_map, List.length_range']

/-! ## The decoder -/

/-- After the given number of elements. -/
def reached (d : Decoding) (bytes : Bytes) (n : Nat) : Progress := ⟨bytes.drop (n * d.layout.width), n⟩

theorem reached_zero : reached d bytes 0 = ⟨bytes, 0⟩ := by simp [reached]

@[simp] theorem reached_count (n : Nat) : (reached d bytes n).count = n := rfl

theorem element_reached (n : Nat) :
    element d (reached d bytes n) = (.scalar (d.elementAt bytes n), reached d bytes (n + 1)) := by
  rw [element_eq, reached, Progress.skip, Decoding.elementAt_drop, List.drop_drop, ← Nat.add_mul,
    Nat.add_zero]
  rfl

/-- Items that stop a fixed number of elements further, or at the limit. -/
theorem items_reached {item : Progress → Nested × Progress} {size : Nat}
    (hitem : ∀ k, k < d.limit →
      (item (reached d bytes k)).2 = reached d bytes (min d.limit (k + size)))
    (n : Nat) {k : Nat} (hk : k ≤ d.limit) :
    (items d.limit item n (reached d bytes k)).2 = reached d bytes (min d.limit (k + n * size)) := by
  induction n generalizing k with
  | zero => simp [items, hk]
  | succ n ih =>
      rw [items]
      split_ifs with hend
      · obtain rfl : k = d.limit := Nat.le_antisymm hk hend
        simp
      · dsimp only
        rw [hitem k (Nat.lt_of_not_le hend), ih (Nat.min_le_left _ _), Nat.succ_mul]
        congr 1
        omega

theorem level_reached (dims : List Nat) {k : Nat} (hk : k < d.limit) :
    (level d dims (reached d bytes k)).2 = reached d bytes (min d.limit (k + dims.prod)) := by
  induction dims generalizing k with
  | nil =>
      have hnext : k + 1 ≤ d.limit := hk
      rw [level, element_reached, List.prod_nil, Nat.min_eq_right hnext]
  | cons n dims ih =>
      rw [List.prod_cons]
      exact items_reached (fun _ hk => ih hk) n hk.le

theorem items_whole {item : Progress → Nested × Progress} {value : Nat → Nested} {size : Nat}
    (hitem : ∀ k, k < d.limit → k + size ≤ d.limit →
      item (reached d bytes k) = (value k, reached d bytes (k + size)))
    (n : Nat) {k : Nat} (hk : 0 < n → k < d.limit) (hlimit : k + n * size ≤ d.limit) :
    (items d.limit item n (reached d bytes k)).1 =
      (List.range n).map fun i => value (k + i * size) := by
  induction n generalizing k with
  | zero => rfl
  | succ n ih =>
      have hlt : k < d.limit := hk n.succ_pos
      rw [Nat.succ_mul] at hlimit
      have hnext : 0 < n → k + size < d.limit := by
        intro hn
        rcases Nat.eq_zero_or_pos size with rfl | hsize
        · exact hlt
        · have := Nat.mul_pos hn hsize
          omega
      rw [items, reached_count, if_neg (Nat.not_le.mpr hlt), hitem k hlt (by omega)]
      dsimp only
      rw [ih hnext (by omega), map_range_succ]

/-- Where the limit leaves room for all elements, a level of nesting is the reference's. -/
theorem level_whole (dims : List Nat) {k : Nat} (hk : k < d.limit) (hlimit : k + dims.prod ≤ d.limit) :
    level d dims (reached d bytes k) = (rowMajor d bytes dims k, reached d bytes (k + dims.prod)) := by
  refine Prod.ext ?_ ?_
  · induction dims generalizing k with
    | nil => rw [level, element_reached]; rfl
    | cons n dims ih =>
        rw [List.prod_cons] at hlimit
        refine congrArg Nested.list (items_whole (fun k hk hlimit => ?_) n (fun _ => hk) hlimit)
        refine Prod.ext (ih hk hlimit) ?_
        rw [level_reached dims hk, Nat.min_eq_right hlimit]
  · rw [level_reached dims hk, Nat.min_eq_right hlimit]

theorem decode_eq_level {dims : List Nat} (h : dims = [] → 0 < d.limit) :
    decode d dims bytes = (level d dims (reached d bytes 0)).1 := by
  cases dims with
  | nil =>
      rw [reached_zero, decode, items, if_neg (Nat.not_le.mpr (h rfl))]
      rfl
  | cons n dims =>
      rw [reached_zero]
      rfl

theorem decode_whole {dims : List Nat} (h : 0 < d.limit) (hlimit : dims.prod ≤ d.limit) :
    decode d dims bytes = rowMajor d bytes dims 0 := by
  rw [decode_eq_level fun _ => h, level_whole dims h (by simpa using hlimit)]

/-! ## Reading inside the buffer -/

/-- The next element, nothing if the bytes do not hold it. -/
def element? (d : Decoding) (p : Progress) : Option (Nested × Progress) :=
  if p.rest.length < d.layout.width then none else some (element d p)

/-- As `items`, for items that may have nothing to read. -/
def items? (limit : Nat) (item? : Progress → Option (Nested × Progress)) :
    (n : Nat) → Progress → Option (List Nested × Progress)
  | 0, p => some ([], p)
  | n + 1, p =>
    if limit ≤ p.count then some ([.truncated], p)
    else do
      let (first, p) ← item? p
      let (others, p) ← items? limit item? n p
      return (first :: others, p)

/-- As `level`, where every element is read inside the bytes. -/
def level? (d : Decoding) : (dims : List Nat) → Progress → Option (Nested × Progress)
  | [], p => element? d p
  | n :: dims, p => do
    let (done, p) ← items? d.limit (level? d dims) n p
    return (.list done, p)

/-- As `decode`, nothing if an element is read that the bytes do not hold. -/
def decode? (d : Decoding) (dims : List Nat) (bytes : Bytes) : Option Nested :=
  match dims with
  | [] => (items? d.limit (element? d) 1 ⟨bytes, 0⟩).map fun
    | (value :: _, _) => value
    | ([], _) => .list []
  | dims => (level? d dims ⟨bytes, 0⟩).map (·.1)

theorem element?_reached {k : Nat} (h : (k + 1) * d.layout.width ≤ bytes.length) :
    element? d (reached d bytes k) = some (element d (reached d bytes k)) := by
  rw [Nat.succ_mul] at h
  rw [element?, if_neg]
  rw [reached, List.length_drop]
  omega

theorem items?_reached {item : Progress → Nested × Progress}
    {item? : Progress → Option (Nested × Progress)} {size total : Nat}
    (hitem : ∀ k, k < d.limit → k + size ≤ total → item? (reached d bytes k) =
        some (item (reached d bytes k)) ∧
      (item (reached d bytes k)).2 = reached d bytes (min d.limit (k + size)))
    (n : Nat) {k : Nat} (htotal : k + n * size ≤ total) :
    items? d.limit item? n (reached d bytes k) = some (items d.limit item n (reached d bytes k)) := by
  induction n generalizing k with
  | zero => rfl
  | succ n ih =>
      rw [Nat.succ_mul] at htotal
      rw [items?, items]
      split_ifs with hend
      · rfl
      · obtain ⟨hread, hnext⟩ := hitem k (Nat.lt_of_not_le hend) (by omega)
        have hrest := ih (k := min d.limit (k + size)) (by omega)
        simp only [hread, hnext, hrest, Option.bind_eq_bind, Option.bind_some, Option.pure_def]

theorem level?_reached (dims : List Nat) {total : Nat} (hbytes : total * d.layout.width ≤ bytes.length)
    {k : Nat} (hk : k < d.limit) (htotal : k + dims.prod ≤ total) :
    level? d dims (reached d bytes k) = some (level d dims (reached d bytes k)) := by
  induction dims generalizing k with
  | nil => exact element?_reached ((Nat.mul_le_mul_right _ htotal).trans hbytes)
  | cons n dims ih =>
      rw [List.prod_cons] at htotal
      have hitems := items?_reached (fun k hk htotal => ⟨ih hk htotal, level_reached dims hk⟩) n htotal
      simp only [level?, level, hitems, Option.bind_eq_bind, Option.bind_some, Option.pure_def]

/-- Bytes for all elements are decoded without reading past their end, whatever the limit. -/
theorem decode?_eq {dims : List Nat} (hbytes : dims.prod * d.layout.width ≤ bytes.length) :
    decode? d dims bytes = some (decode d dims bytes) := by
  cases dims with
  | nil =>
      have hitem (k : Nat) (hk : k < d.limit) (hone : k + 1 ≤ 1) :
          element? d (reached d bytes k) = some (element d (reached d bytes k)) ∧
            (element d (reached d bytes k)).2 = reached d bytes (min d.limit (k + 1)) :=
        ⟨element?_reached ((Nat.mul_le_mul_right _ hone).trans hbytes), level_reached [] hk⟩
      have hitems := items?_reached hitem 1 (k := 0) (by omega)
      rw [reached_zero] at hitems
      rw [decode?, decode, hitems, Option.map_some]
      rcases (items d.limit (element d) 1 ⟨bytes, 0⟩) with ⟨_ | ⟨value, values⟩, p⟩ <;> rfl
  | cons n dims =>
      have hitem (k : Nat) (hk : k < d.limit) (htotal : k + dims.prod ≤ (n :: dims).prod) :
          level? d dims (reached d bytes k) = some (level d dims (reached d bytes k)) ∧
            (level d dims (reached d bytes k)).2 = reached d bytes (min d.limit (k + dims.prod)) :=
        ⟨level?_reached dims hbytes hk htotal, level_reached dims hk⟩
      have hitems := items?_reached hitem n (k := 0) (by simp)
      rw [reached_zero] at hitems
      simp only [decode?, decode, level?, level, hitems, Option.bind_eq_bind, Option.bind_some,
        Option.pure_def, Option.map_some]

end Nested

namespace Tensor

variable {t : Tensor} {d : Decodable}

theorem maxSize_pos : 0 < maxSize := by decide

theorem prod_le_maxSize (h : t.check = .ok d) (hmemory : d.bytes.length < maxSize) :
    d.dims.prod ≤ maxSize := by
  obtain ⟨type, -, hlayout, -⟩ := exists_of_check h
  have hwidth : 0 < d.layout.width := by
    rw [ElementType.width_layout hlayout]
    exact type.width_pos
  calc d.dims.prod ≤ d.dims.prod * d.layout.width := Nat.le_mul_of_pos_right _ hwidth
    _ ≤ maxSize := (fits_of_check h hmemory).trans hmemory.le

theorem preview_of_check (h : t.check = .ok d) (limit : Nat) :
    t.preview limit = .ok (Nested.decode ⟨d.layout, t.littleEndian, limit⟩ d.dims d.bytes) := by
  rw [preview, h]
  rfl

/-- The value of a tensor is the reference. -/
theorem value_of_check (h : t.check = .ok d) (hmemory : d.bytes.length < maxSize) :
    t.value = .ok (Nested.rowMajor ⟨d.layout, t.littleEndian, maxSize⟩ d.bytes d.dims 0) := by
  have hlimit : d.dims.prod ≤ maxSize := prod_le_maxSize h hmemory
  rw [value, preview_of_check h, Nested.decode_whole maxSize_pos hlimit]

/-- The value of a tensor that passes the check is a full list of lists of its dimensions. Its entry at
each index is read from the bytes at the row-major number of the index, which lie inside the buffer, and
decoding reads no others. -/
theorem value_rowMajor (h : t.check = .ok d) (hmemory : d.bytes.length < maxSize) :
    ∃ value, t.value = .ok value ∧ Nested.Full d.dims value ∧
      (∀ index, Within d.dims index →
        (distance (contiguous d.dims) index + 1) * d.layout.width ≤ d.bytes.length ∧
        value.at? index = some (Nested.Decoding.elementAt ⟨d.layout, t.littleEndian, maxSize⟩ d.bytes
          (distance (contiguous d.dims) index))) ∧
      .truncated ∉ value.leaves ∧ value.isTruncated = false ∧
      value.elementCount = d.dims.prod ∧
      ((∀ n ∈ d.dims, n ≠ 0) → value.shape = d.dims) ∧
      Nested.decode? ⟨d.layout, t.littleEndian, maxSize⟩ d.dims d.bytes = some value := by
  have hfits : d.dims.prod * d.layout.width ≤ d.bytes.length := fits_of_check h hmemory
  have hfull : Nested.Full d.dims
      (Nested.rowMajor ⟨d.layout, t.littleEndian, maxSize⟩ d.bytes d.dims 0) := Nested.full_rowMajor d.dims 0
  refine ⟨_, value_of_check h hmemory, hfull, fun index hindex => ⟨?_, ?_⟩, hfull.truncated_not_mem,
    hfull.isTruncated, Nested.elementCount_rowMajor _ _, hfull.shape, ?_⟩
  · exact (Nat.mul_le_mul_right _ (distance_contiguous_lt hindex)).trans hfits
  · rw [Nested.at?_rowMajor hindex, Nat.zero_add]
  · rw [Nested.decode?_eq hfits, Nested.decode_whole maxSize_pos (prod_le_maxSize h hmemory)]

/-- A matrix of two-byte integers, highest byte first, behind one byte of other data. -/
def bigEndianMatrix : Tensor :=
  (declare "matrix" ⟨some .int16, some ⟨[2, 3]⟩⟩ false).withData
    [9, 0, 1, 0, 2, 0, 3, 1, 4, 0, 5, 255, 255] 1

theorem value_rowMajor_matrix :
    ∃ d value, bigEndianMatrix.check = .ok d ∧ d.bytes.length < maxSize ∧
      bigEndianMatrix.value = .ok value ∧ value.shape = [2, 3] ∧
      value.at? [1, 0] = some (Nested.Decoding.elementAt ⟨.signed 2, false, maxSize⟩ d.bytes 3) ∧
      Nested.Decoding.elementAt ⟨.signed 2, false, maxSize⟩ d.bytes 3 = .int 260 := by
  have hcheck : bigEndianMatrix.check =
      .ok ⟨.signed 2, [2, 3], [0, 1, 0, 2, 0, 3, 1, 4, 0, 5, 255, 255]⟩ := rfl
  have hmemory : [0, 1, 0, 2, 0, 3, 1, 4, 0, 5, 255, 255].length < maxSize := by decide
  obtain ⟨value, hvalue, -, hentries, -, -, -, hshape, -⟩ := value_rowMajor hcheck hmemory
  have hentry := (hentries [1, 0] (.cons (by decide) (.cons (by decide) .nil))).2
  exact ⟨_, value, hcheck, hmemory, hvalue, hshape (by decide), hentry, by decide +kernel⟩

end Tensor

end ModelGraph
