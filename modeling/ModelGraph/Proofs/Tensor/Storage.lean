import Mathlib.Algebra.Order.BigOperators.GroupWithZero.List
import Mathlib.Algebra.Order.Ring.Nat
import Mathlib.Data.List.Induction
import Mathlib.Tactic.SplitIfs
import ModelGraph.Proofs.Number.Word
import ModelGraph.Tensor.Storage

/-!
# Storages and shapes

A storage that holds all its bytes shows them, and a view of it shows some of them. A shape tells how many
elements are shown.
-/

namespace ModelGraph.Storage

/-- The storage with these bytes; with none, as it is. -/
def refill (s : Storage) : Option Bytes → Storage
  | some data => s.fill data
  | none => s

theorem refill_refill (s : Storage) (first second : Option Bytes) :
    (s.refill first).refill second = s.refill (second.or first) := by
  cases second with
  | some data => cases first <;> rfl
  | none => rfl

@[simp] theorem size_refill (s : Storage) (data : Option Bytes) : (s.refill data).size = s.size := by
  cases data <;> rfl

@[simp] theorem elementType_refill (s : Storage) (data : Option Bytes) :
    (s.refill data).elementType = s.elementType := by
  cases data <;> rfl

theorem eq_of_byteLength? {s : Storage} {n : Nat} (h : s.byteLength? = some n) :
    n = s.size * s.elementType.width ∧ n ≤ maxSize := by
  obtain ⟨hle, rfl⟩ := checkedSize_eq_some_iff.mp h
  exact ⟨rfl, hle⟩

theorem bytes?_eq {s : Storage} (h : ∀ {data}, s.data = some data → data.length ≤ maxSize) :
    s.bytes? = s.data.map fun data => (data.drop s.offset).take (s.size * s.elementType.width) := by
  unfold bytes? byteLength?
  rw [checkedMul_bind_checkedAdd]
  cases hdata : s.data with
  | none => rfl
  | some data =>
      have hlimit : data.length < sizeLimit := Nat.lt_of_le_of_lt (h hdata) (by decide)
      rw [Option.map_some, Option.map_some, Option.some.injEq]
      rcases Nat.le_total s.offset data.length with hle | hle
      · rw [Nat.min_eq_left hle]
        refine List.take_eq_take_iff.mpr ?_
        unfold checkedSize
        split_ifs <;> simp only [List.length_drop] <;> omega
      · simp only [Nat.min_eq_right hle, List.drop_length, List.drop_eq_nil_of_le hle, List.take_nil]

/-- The offset of a view is exact up to the largest size. -/
theorem offset_view (s : Storage) (offset size : Nat) :
    (s.view offset size).offset = min (offset * s.elementType.width + s.offset) maxSize := by
  simp only [view, saturatingAdd, saturatingMul]
  omega

/-- An offset that saturates lies past the data anyway. -/
theorem drop_min_maxSize {data : Bytes} (h : data.length ≤ maxSize) (n : Nat) :
    data.drop (min n maxSize) = data.drop n := by
  rcases Nat.le_total n maxSize with hle | hle
  · rw [Nat.min_eq_left hle]
  · rw [Nat.min_eq_right hle, List.drop_eq_nil_of_le h, List.drop_eq_nil_of_le (Nat.le_trans h hle)]

/-- A storage that holds none or all of its bytes, from the first one on. -/
structure Whole (s : Storage) : Prop where
  offset_eq : s.offset = 0
  bounded : ∀ {data}, s.data = some data → data.length ≤ maxSize
  length_eq : ∀ {data}, s.data = some data → data.length = s.size * s.elementType.width

/-- A storage is whole once it has got bytes of the declared length. -/
theorem whole_refill {s : Storage} (hs : s = declare s.elementType s.size) {given : Option Bytes}
    (hgiven : ∀ {data}, given = some data →
      data.length = s.size * s.elementType.width ∧ data.length ≤ maxSize) : (s.refill given).Whole := by
  cases given with
  | some data =>
      obtain ⟨hlength, hbound⟩ := hgiven rfl
      refine ⟨rfl, fun heq => ?_, fun heq => ?_⟩ <;> cases heq <;> assumption
  | none =>
      rw [hs]
      refine ⟨rfl, fun heq => ?_, fun heq => ?_⟩ <;> cases heq

namespace Whole

variable {s : Storage}

theorem bytes?_eq (h : s.Whole) : s.bytes? = s.data := by
  rw [Storage.bytes?_eq h.bounded, h.offset_eq]
  cases hdata : s.data with
  | none => rfl
  | some data =>
      rw [Option.map_some, List.drop_zero, ← h.length_eq hdata, List.take_length]

theorem bytes?_view (h : s.Whole) (offset size : Nat) :
    (s.view offset size).bytes? = s.bytes?.map fun bytes =>
      (bytes.drop (offset * s.elementType.width)).take (size * s.elementType.width) := by
  have hview : (s.view offset size).bytes? = s.data.map fun data =>
      (data.drop (s.view offset size).offset).take (size * s.elementType.width) :=
    Storage.bytes?_eq h.bounded
  rw [hview, h.bytes?_eq, offset_view, h.offset_eq, Nat.add_zero]
  cases hdata : s.data with
  | none => rfl
  | some data => rw [Option.map_some, Option.map_some, drop_min_maxSize (h.bounded hdata)]

end Whole

end ModelGraph.Storage

/-!
## Counting the elements of a shape

The elements are counted from the left, and the count is given up once it passes the largest size. So it
depends on the beginnings of the dimensions, not only on their product: a zero that comes too late does
not bring the count back.
-/

namespace ModelGraph

namespace Shape

/-- Every beginning of the dimensions has a product that is a size. -/
def Countable (dims : List Nat) : Prop := ∀ front, front <+: dims → front.prod ≤ maxSize

variable {dims : List Nat} {n : Nat}

theorem countable_nil : Countable [] := by
  intro front hfront
  rw [List.prefix_nil.mp hfront]
  decide

theorem countable_concat {d : Nat} :
    Countable (dims ++ [d]) ↔ Countable dims ∧ dims.prod * d ≤ maxSize := by
  have hwhole : (dims ++ [d]).prod = dims.prod * d := by rw [List.prod_append, List.prod_singleton]
  constructor
  · intro h
    refine ⟨fun front hfront => h front (hfront.trans (List.prefix_append _ _)), ?_⟩
    rw [← hwhole]
    exact h _ List.prefix_rfl
  · rintro ⟨hfronts, hproduct⟩ front hfront
    rcases List.prefix_concat_iff.mp hfront with rfl | hfront
    · rwa [hwhole]
    · exact hfronts front hfront

/-- Without a zero no beginning has a larger product than the whole. -/
theorem countable_of_prod_le (hzero : 0 ∉ dims) (h : dims.prod ≤ maxSize) : Countable dims := by
  rintro front ⟨rest, rfl⟩
  have hrest : 0 < rest.prod :=
    List.prod_pos fun d hd => Nat.pos_of_ne_zero fun hd0 =>
      hzero (List.mem_append_right _ (hd0 ▸ hd))
  rw [List.prod_append] at h
  exact (Nat.le_mul_of_pos_right _ hrest).trans h

theorem elementCount?_concat (d : Nat) :
    elementCount? ⟨dims ++ [d]⟩ = (elementCount? ⟨dims⟩).bind (checkedMul · d) :=
  List.foldl_append

theorem elementCount?_eq_some_iff :
    elementCount? ⟨dims⟩ = some n ↔ Countable dims ∧ n = dims.prod := by
  induction dims using List.reverseRecOn generalizing n with
  | nil => simp [elementCount?, countable_nil, eq_comm]
  | append_singleton dims d ih =>
      rw [elementCount?_concat, Option.bind_eq_some_iff, countable_concat, List.prod_append,
        List.prod_singleton]
      simp only [ih, checkedMul, checkedSize_eq_some_iff]
      constructor
      · rintro ⟨_, ⟨hcount, rfl⟩, hle, rfl⟩
        exact ⟨⟨hcount, hle⟩, rfl⟩
      · rintro ⟨⟨hcount, hle⟩, rfl⟩
        exact ⟨_, ⟨hcount, rfl⟩, hle, rfl⟩

theorem byteLength?_eq_some_iff {type : ElementType} :
    byteLength? ⟨dims⟩ type = some n ↔
      Countable dims ∧ dims.prod * type.width ≤ maxSize ∧ n = dims.prod * type.width := by
  rw [byteLength?, Option.bind_eq_some_iff]
  simp only [elementCount?_eq_some_iff, checkedMul, checkedSize_eq_some_iff]
  constructor
  · rintro ⟨_, ⟨hcount, rfl⟩, hlength⟩
    exact ⟨hcount, hlength⟩
  · rintro ⟨hcount, hlength⟩
    exact ⟨_, ⟨hcount, rfl⟩, hlength⟩

end Shape

end ModelGraph
