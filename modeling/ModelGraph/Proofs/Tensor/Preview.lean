import Mathlib.Algebra.BigOperators.Ring.List
import ModelGraph.Proofs.Tensor.RowMajor

/-!
# Previews

A preview stops reading at its limit. Every list that is open there ends in one mark, and the lists
before it are whole: what is shown is a beginning of the value, and nothing looks complete that is not.
-/

namespace ModelGraph.Nested

variable {d : Decoding} {bytes : Bytes}

mutual

/-- The first value shows the second as it is, or with some of its lists cut short. -/
inductive CutOf : Nested → Nested → Prop
  | scalar (x : Scalar) : CutOf (.scalar x) (.scalar x)
  | list {cuts items} : CutItems cuts items → CutOf (.list cuts) (.list items)

/-- The items one by one, up to a mark in place of those that are left out. -/
inductive CutItems : List Nested → List Nested → Prop
  | nil : CutItems [] []
  | cons {cut item cuts items} : CutOf cut item → CutItems cuts items →
      CutItems (cut :: cuts) (item :: items)
  | mark (item : Nested) (items : List Nested) : CutItems [.truncated] (item :: items)

end

theorem rowMajor_limit {layout : ElementLayout} {littleEndian : Bool} {limit limit' : Nat}
    (dims : List Nat) (start : Nat) :
    rowMajor ⟨layout, littleEndian, limit⟩ bytes dims start =
      rowMajor ⟨layout, littleEndian, limit'⟩ bytes dims start := by
  induction dims generalizing start with
  | nil => rfl
  | cons n dims ih =>
      rw [rowMajor, rowMajor]
      exact congrArg Nested.list (List.map_congr_left fun i _ => ih _)

/-! ## The place of the marks -/

/-- From the limit on no items are shown. -/
theorem items_at_limit (item : Progress → Nested × Progress) (n : Nat) :
    (items d.limit item n (reached d bytes d.limit)).1 = if n = 0 then [] else [.truncated] := by
  cases n with
  | zero => rfl
  | succ n => simp [items]

theorem items_cut {item : Progress → Nested × Progress} {value : Nat → Nested} {size : Nat}
    (hitem : ∀ k, k < d.limit → CutOf (item (reached d bytes k)).1 (value k) ∧
      (item (reached d bytes k)).2 = reached d bytes (min d.limit (k + size)))
    (n : Nat) {k : Nat} (hk : k ≤ d.limit) :
    CutItems (items d.limit item n (reached d bytes k)).1
      ((List.range n).map fun i => value (k + i * size)) := by
  induction n generalizing k with
  | zero => exact .nil
  | succ n ih =>
      rw [map_range_succ, items, reached_count]
      split_ifs with hend
      · exact .mark _ _
      obtain ⟨hcut, hnext⟩ := hitem k (Nat.lt_of_not_le hend)
      refine .cons hcut ?_
      rw [hnext]
      rcases Nat.le_total (k + size) d.limit with hroom | hfull
      · rw [Nat.min_eq_right hroom]
        exact ih hroom
      · rw [Nat.min_eq_left hfull, items_at_limit]
        cases n with
        | zero => exact .nil
        | succ n =>
            rw [map_range_succ]
            exact .mark _ _

theorem level_cut {dims : List Nat} {k : Nat} (hk : k ≤ d.limit) (hscalar : dims = [] → k < d.limit) :
    CutOf (level d dims (reached d bytes k)).1 (rowMajor d bytes dims k) := by
  induction dims generalizing k with
  | nil =>
      rw [level, element_reached]
      exact .scalar _
  | cons n dims ih =>
      exact .list (items_cut (fun k hk => ⟨ih hk.le fun _ => hk, level_reached dims hk⟩) n hk)

/-! ## The elements shown -/

theorem items_scalars {item : Progress → Nested × Progress} {size : Nat}
    (hitem : ∀ k, k < d.limit → (item (reached d bytes k)).1.scalars =
        ((List.range' k size).map (d.elementAt bytes)).take (d.limit - k) ∧
      (item (reached d bytes k)).2 = reached d bytes (min d.limit (k + size)))
    (n : Nat) {k : Nat} (hk : k ≤ d.limit) :
    (items d.limit item n (reached d bytes k)).1.flatMap scalars =
      ((List.range' k (n * size)).map (d.elementAt bytes)).take (d.limit - k) := by
  induction n generalizing k with
  | zero => simp [items]
  | succ n ih =>
      rw [items, reached_count]
      split_ifs with hend
      · simp [Nat.sub_eq_zero_of_le hend]
      obtain ⟨hfirst, hnext⟩ := hitem k (Nat.lt_of_not_le hend)
      have hrange : List.range' k ((n + 1) * size) =
          List.range' k size ++ List.range' (k + size) (n * size) := by
        rw [List.range'_append_1, Nat.succ_mul, Nat.add_comm]
      have hsub : d.limit - k - size = d.limit - (k + size) := Nat.sub_sub _ _ _
      dsimp only
      rw [List.flatMap_cons, hfirst, hnext, hrange, List.map_append, List.take_append, List.length_map,
        List.length_range', hsub]
      congr 1
      rcases Nat.le_total (k + size) d.limit with hroom | hfull
      · rw [Nat.min_eq_right hroom, ih hroom]
      · rw [Nat.min_eq_left hfull, items_at_limit, Nat.sub_eq_zero_of_le hfull, List.take_zero]
        split_ifs <;> rfl

theorem level_scalars {dims : List Nat} {k : Nat} (hk : k ≤ d.limit) (hscalar : dims = [] → k < d.limit) :
    (level d dims (reached d bytes k)).1.scalars =
      ((List.range' k dims.prod).map (d.elementAt bytes)).take (d.limit - k) := by
  induction dims generalizing k with
  | nil =>
      have hone : 1 ≤ d.limit - k := Nat.sub_pos_of_lt (hscalar rfl)
      rw [level, element_reached, List.take_of_length_le (by simpa using hone)]
      rfl
  | cons n dims ih =>
      rw [level, List.prod_cons]
      exact (scalars_list _).trans
        (items_scalars (fun k hk => ⟨ih hk.le fun _ => hk, level_reached dims hk⟩) n hk)

/-! ## What is left out is marked -/

theorem endsTruncated_cons {item : Nested} {items : List Nested} (h : endsTruncated items = true) :
    endsTruncated (item :: items) = true := by
  cases items with
  | nil => cases h
  | cons next items => exact h

theorem items_marked {item : Progress → Nested × Progress} {size : Nat}
    (hitem : ∀ k, k < d.limit → d.limit < k + size →
      (item (reached d bytes k)).1.isTruncated = true)
    (hnext : ∀ k, k < d.limit →
      (item (reached d bytes k)).2 = reached d bytes (min d.limit (k + size)))
    (n : Nat) {k : Nat} (hk : k ≤ d.limit) (hlimit : d.limit < k + n * size) :
    endsTruncated (items d.limit item n (reached d bytes k)).1 = true := by
  induction n generalizing k with
  | zero => omega
  | succ n ih =>
      rw [items, reached_count]
      split_ifs with hend
      · rfl
      have hlt : k < d.limit := Nat.lt_of_not_le hend
      dsimp only
      rw [hnext k hlt]
      rw [Nat.succ_mul] at hlimit
      rcases Nat.lt_or_ge d.limit (k + size) with hfull | hroom
      · rw [Nat.min_eq_left hfull.le, items_at_limit]
        split_ifs
        · exact hitem k hlt hfull
        · rfl
      · rw [Nat.min_eq_right hroom]
        exact endsTruncated_cons (ih hroom (by omega))

theorem level_marked {dims : List Nat} {k : Nat} (hk : k ≤ d.limit) (hlimit : d.limit < k + dims.prod)
    (hscalar : dims = [] → k < d.limit) : (level d dims (reached d bytes k)).1.isTruncated = true := by
  induction dims generalizing k with
  | nil =>
      have := hscalar rfl
      rw [List.prod_nil] at hlimit
      omega
  | cons n dims ih =>
      rw [List.prod_cons] at hlimit
      rw [level]
      exact items_marked (fun k hk hlimit => ih hk.le hlimit fun _ => hk)
        (fun k hk => level_reached dims hk) n hk hlimit

/-- Where no mark shows at the end, the value is whole. -/
theorem decode_eq_of_not_isTruncated {dims : List Nat} (hscalar : dims = [] → 0 < d.limit)
    (h : (decode d dims bytes).isTruncated = false) : decode d dims bytes = rowMajor d bytes dims 0 := by
  have hroom : dims.prod ≤ d.limit := by
    by_contra hlimit
    rw [decode_eq_level hscalar, level_marked (Nat.zero_le _) (by omega) hscalar] at h
    cases h
  rcases Nat.eq_zero_or_pos d.limit with hzero | hpos
  · cases dims with
    | nil => exact absurd (hscalar rfl) (by omega)
    | cons n dims =>
        have hitems : (items d.limit (level d dims) n (reached d bytes d.limit)).1 =
            if n = 0 then [] else [.truncated] := items_at_limit (level d dims) n
        rw [hzero, reached_zero] at hitems
        rw [decode_eq_level hscalar, reached_zero, level, hzero] at h ⊢
        dsimp only at h ⊢
        rw [hitems] at h ⊢
        split_ifs at h ⊢ with hn
        · subst hn
          rfl
        · cases h
  · exact decode_whole hpos hroom

/-- Decoding up to a limit shows the reference with some lists cut short, in place of a single element
the mark alone. -/
theorem decode_cutOf (d : Decoding) (dims : List Nat) (bytes : Bytes) :
    (if dims = [] ∧ d.limit = 0 then decode d dims bytes = .truncated
      else (decode d dims bytes).CutOf (rowMajor d bytes dims 0)) ∧
    (decode d dims bytes).scalars = ((rowMajor d bytes dims 0).scalars).take (min d.limit dims.prod) ∧
    ((decode d dims bytes).isTruncated = false → decode d dims bytes = rowMajor d bytes dims 0) := by
  by_cases hmark : dims = [] ∧ d.limit = 0
  · rw [if_pos hmark]
    obtain ⟨rfl, hzero⟩ := hmark
    have hdecode : decode d [] bytes = .truncated := by rw [decode, items, hzero, if_pos (Nat.zero_le _)]
    rw [hdecode, hzero]
    exact ⟨rfl, by simp, fun hshown => by cases hshown⟩
  · rw [if_neg hmark]
    have hscalar : dims = [] → 0 < d.limit := fun hdims =>
      Nat.pos_of_ne_zero fun hzero => hmark ⟨hdims, hzero⟩
    refine ⟨?_, ?_, decode_eq_of_not_isTruncated hscalar⟩
    · rw [decode_eq_level hscalar]
      exact level_cut (Nat.zero_le _) hscalar
    · rw [decode_eq_level hscalar, level_scalars (Nat.zero_le _) hscalar, scalars_rowMajor,
        Nat.sub_zero, List.take_eq_take_min, List.length_map, List.length_range']

end ModelGraph.Nested

namespace ModelGraph.Tensor

variable {t : Tensor} {d : Decodable}

/-- A preview shows the value with some lists cut short, in place of a single element the mark alone. Its
elements are the first ones of the value, as many as the limit allows; without a mark at its end it is
the value. -/
theorem preview_cutOf_value (h : t.check = .ok d) (hmemory : d.bytes.length < maxSize) (limit : Nat) :
    ∃ value cut, t.value = .ok value ∧ t.preview limit = .ok cut ∧
      (if d.dims = [] ∧ limit = 0 then cut = .truncated else cut.CutOf value) ∧
      cut.scalars = value.scalars.take (min limit value.elementCount) ∧
      (cut.isTruncated = false → cut = value) := by
  have hvalue : t.value = .ok (Nested.rowMajor ⟨d.layout, t.littleEndian, limit⟩ d.bytes d.dims 0) :=
    (value_of_check h hmemory).trans (congrArg Except.ok (Nested.rowMajor_limit d.dims 0))
  refine ⟨_, _, hvalue, preview_of_check h limit, ?_⟩
  rw [Nested.elementCount_rowMajor]
  exact Nested.decode_cutOf ⟨d.layout, t.littleEndian, limit⟩ d.dims d.bytes

/-- Two of the three elements in the first row; the second row is not begun. -/
theorem preview_cutOf_value_matrix : ∃ d value cut, bigEndianMatrix.check = .ok d ∧
    d.bytes.length < maxSize ∧ bigEndianMatrix.value = .ok value ∧
    bigEndianMatrix.preview 2 = .ok cut ∧ cut.CutOf value ∧
    cut = .list [.list [.scalar (.int 1), .scalar (.int 2), .truncated], .truncated] := by
  have hcheck : bigEndianMatrix.check =
      .ok ⟨.signed 2, [2, 3], [0, 1, 0, 2, 0, 3, 1, 4, 0, 5, 255, 255]⟩ := rfl
  have hmemory : [0, 1, 0, 2, 0, 3, 1, 4, 0, 5, 255, 255].length < maxSize := by decide
  obtain ⟨value, cut, hvalue, hcut, hcutOf, -⟩ := preview_cutOf_value hcheck hmemory 2
  have hshown : bigEndianMatrix.preview 2 =
      .ok (.list [.list [.scalar (.int 1), .scalar (.int 2), .truncated], .truncated]) := rfl
  exact ⟨_, value, cut, hcheck, hmemory, hvalue, hcut, hcutOf,
    Except.ok.inj (hcut.symm.trans hshown)⟩

end ModelGraph.Tensor

/-! ## When a preview ends in a mark

A mark is set as soon as an item is due and the limit is reached, whether or not the item holds elements.
With a limit of one or more this comes to the same: a preview ends in a mark just where the limit is less
than the number of elements. A limit of zero is reached before the first item, and then rows without
elements are marked as if they had some. -/

namespace ModelGraph.Nested

variable {d : Decoding} {dims : List Nat} {bytes : Bytes}

/-- At a limit of zero only the outermost level is seen: whether it has an item. -/
theorem isTruncated_decode_zero (hzero : d.limit = 0) :
    (decode d dims bytes).isTruncated = true ↔ dims.head? ≠ some 0 := by
  cases dims with
  | nil =>
      have hdecode : decode d [] bytes = .truncated := by
        rw [decode, items, hzero, if_pos (Nat.zero_le _)]
      rw [hdecode]
      exact iff_of_true rfl (by simp)
  | cons n dims =>
      have hitems : (items d.limit (level d dims) n (reached d bytes d.limit)).1 =
          if n = 0 then [] else [.truncated] := items_at_limit (level d dims) n
      rw [hzero] at hitems
      rw [decode_eq_level (by simp), level, hzero]
      dsimp only
      rw [hitems, List.head?_cons]
      split_ifs with hn
      · exact iff_of_false (by simp [isTruncated, endsTruncated]) (by simp [hn])
      · exact iff_of_true rfl (by simpa using hn)

theorem isTruncated_decode_pos (hpos : 0 < d.limit) :
    (decode d dims bytes).isTruncated = true ↔ d.limit < dims.prod := by
  rcases Nat.lt_or_ge d.limit dims.prod with hless | hroom
  · have hmarked : (decode d dims bytes).isTruncated = true := by
      rw [decode_eq_level fun _ => hpos]
      exact level_marked (Nat.zero_le _) (by omega) fun _ => hpos
    exact iff_of_true hmarked hless
  · have hwhole : (decode d dims bytes).isTruncated = false := by
      rw [decode_whole hpos hroom]
      exact (full_rowMajor dims 0).isTruncated
    rw [hwhole]
    exact iff_of_false nofun (Nat.not_lt.mpr hroom)

theorem isTruncated_decode :
    (decode d dims bytes).isTruncated = true ↔
      d.limit < dims.prod ∨ d.limit = 0 ∧ 0 ∈ dims ∧ dims.head? ≠ some 0 := by
  rcases Nat.eq_zero_or_pos d.limit with hzero | hpos
  · have hprod : 0 < dims.prod ↔ 0 ∉ dims := Nat.pos_iff_ne_zero.trans List.prod_eq_zero_iff.not
    rw [isTruncated_decode_zero hzero, hzero, hprod]
    by_cases hmem : 0 ∈ dims
    · simp [hmem]
    · have hhead : dims.head? ≠ some 0 := fun h => hmem (List.mem_of_head? h)
      simp [hmem, hhead]
  · rw [isTruncated_decode_pos hpos]
    exact (or_iff_left fun h => Nat.ne_of_gt hpos h.1).symm

theorem elementCount_decode : (decode d dims bytes).elementCount = min d.limit dims.prod := by
  have hscalars := (decode_cutOf d dims bytes).2.1
  rw [elementCount_eq, hscalars, List.length_take, ← elementCount_eq, elementCount_rowMajor]
  omega

end ModelGraph.Nested

namespace ModelGraph.Tensor

variable {t : Tensor} {d : Decodable}

/-- A preview of a tensor that passes the check leaves elements out just where the limit is less than
their number. It ends in a mark just there, and besides where the limit is zero and the items of the
outermost level hold no elements. -/
theorem isTruncated_preview (h : t.check = .ok d) (limit : Nat) :
    ∃ cut, t.preview limit = .ok cut ∧
      (cut.isTruncated = true ↔
        limit < d.dims.prod ∨ limit = 0 ∧ 0 ∈ d.dims ∧ d.dims.head? ≠ some 0) ∧
      (cut.elementCount < d.dims.prod ↔ limit < d.dims.prod) := by
  refine ⟨_, preview_of_check h limit, Nested.isTruncated_decode, ?_⟩
  rw [Nested.elementCount_decode]
  exact min_lt_iff.trans (or_iff_left (Nat.lt_irrefl _))

/-- Two rows without elements. -/
def emptyRows : Tensor := (declare "rows" ⟨some .uint8, some ⟨[2, 0]⟩⟩ true).withData [] 0

/-- The rows are marked at a limit of zero, though no element is left out. -/
theorem isTruncated_preview_emptyRows :
    ∃ d cut, emptyRows.check = .ok d ∧ emptyRows.preview 0 = .ok cut ∧ d.dims.prod = 0 ∧
      cut.isTruncated = true ∧ ¬ cut.elementCount < d.dims.prod := by
  have hcheck : emptyRows.check = .ok ⟨.unsigned 1, [2, 0], []⟩ := rfl
  obtain ⟨cut, hcut, hmark, hcount⟩ := isTruncated_preview hcheck 0
  exact ⟨_, cut, hcheck, hcut, rfl, hmark.mpr (.inr (by decide)), mt hcount.mp (by decide)⟩

end ModelGraph.Tensor
