import Mathlib.Algebra.GroupWithZero.Nat
import ModelGraph.Proofs.Tensor.Storage

/-!
# Views of views

A storage is filled, viewed, and its views are filled and viewed again. Filling starts anew; after it the
offsets of the views add up, however many there are and however large: where the sum passes the largest
size, the storage begins behind its data.
-/

namespace ModelGraph.Storage

/-- What makes one storage out of another. -/
inductive Change where
  | fill (data : Bytes)
  | view (offset size : Nat)

def Change.offset? : Change → Option Nat
  | .fill _ => none
  | .view offset _ => some offset

/-- By how many elements the views among the changes move a storage. -/
def shift (changes : List Change) : Nat := (changes.filterMap Change.offset?).sum

def apply (s : Storage) : Change → Storage
  | .fill data => s.fill data
  | .view offset size => s.view offset size

def after (s : Storage) (changes : List Change) : Storage := changes.foldl apply s

/-- The storage that changes make of a declared one, one after another. -/
def made (type : ElementType) (size : Nat) (changes : List Change) : Storage :=
  (declare type size).after changes

variable {s : Storage} {data : Bytes} {changes views : List Change}

@[simp] theorem shift_nil : shift [] = 0 := rfl

@[simp] theorem shift_view (offset size : Nat) :
    shift (.view offset size :: changes) = offset + shift changes := rfl

theorem after_append (before : List Change) :
    s.after (before ++ changes) = (s.after before).after changes :=
  List.foldl_append

theorem elementType_after (s : Storage) (changes : List Change) :
    (s.after changes).elementType = s.elementType := by
  induction changes generalizing s with
  | nil => rfl
  | cons change changes ih => exact (ih (s.apply change)).trans (by cases change <;> rfl)

/-- Views share the data, and their offsets add up as far as sizes go. -/
theorem after_views (hviews : ∀ data, .fill data ∉ views) (hoffset : s.offset ≤ maxSize) :
    (s.after views).data = s.data ∧
      (s.after views).offset = min (s.offset + shift views * s.elementType.width) maxSize := by
  induction views generalizing s with
  | nil =>
      rw [shift_nil, Nat.zero_mul, Nat.add_zero, Nat.min_eq_left hoffset]
      exact ⟨rfl, rfl⟩
  | cons change views ih =>
      cases change with
      | fill data => exact absurd List.mem_cons_self (hviews data)
      | view offset size =>
          have hview : (s.view offset size).offset =
              min (offset * s.elementType.width + s.offset) maxSize := offset_view s offset size
          have hrest : ∀ data, .fill data ∉ views := fun data h => hviews data (List.mem_cons_of_mem _ h)
          obtain ⟨hdata, hmoved⟩ := ih hrest (hview ▸ Nat.min_le_right _ _)
          refine ⟨hdata, hmoved.trans ?_⟩
          -- a sum cut off at the largest size stays there, whatever is added to it
          rw [hview, shift_view, Nat.add_mul]
          change min (min _ _ + shift views * s.elementType.width) _ = _
          omega

/-- Nothing of what was done before the last filling is left but the type. -/
theorem made_fill (type : ElementType) (size : Nat) (before : List Change)
    (hviews : ∀ data, .fill data ∉ views) :
    (made type size (before ++ .fill data :: views)).data = some data ∧
      (made type size (before ++ .fill data :: views)).offset =
        min (shift views * type.width) maxSize := by
  have hmade : made type size (before ++ .fill data :: views) =
      (((declare type size).after before).fill data).after views := after_append before
  have htype : (((declare type size).after before).fill data).elementType = type :=
    elementType_after _ before
  obtain ⟨hdata, hoffset⟩ :=
    after_views (s := ((declare type size).after before).fill data) hviews (Nat.zero_le _)
  rw [hmade, hdata, hoffset, htype]
  refine ⟨rfl, ?_⟩
  change min (0 + _) _ = _
  rw [Nat.zero_add]

/-! ## Cutting the data -/

/-- As `bytes?`, nothing if the bounds are not places in the data, in order. -/
def bytesInside? (s : Storage) : Option Bytes :=
  s.data.bind fun data =>
    let start := min s.offset data.length
    let stop :=
      match s.byteLength?.bind (checkedAdd s.offset ·) with
      | some stop => min stop data.length
      | none => data.length
    if start ≤ stop ∧ stop ≤ data.length then some ((data.drop start).take (stop - start)) else none

theorem bytesInside?_eq (s : Storage) : s.bytesInside? = s.bytes? := by
  rw [bytesInside?, bytes?]
  cases s.data with
  | none => rfl
  | some data =>
      refine if_pos ?_
      cases hstop : s.byteLength?.bind (checkedAdd s.offset ·) with
      | none => exact ⟨Nat.min_le_right _ _, Nat.le_refl _⟩
      | some stop =>
          obtain ⟨length, -, hsum⟩ := Option.bind_eq_some_iff.mp hstop
          obtain ⟨-, rfl⟩ := checkedSize_eq_some_iff.mp hsum
          have hle : min s.offset data.length ≤ s.offset + length :=
            Nat.le_trans (Nat.min_le_left _ _) (Nat.le_add_right _ _)
          exact ⟨Nat.le_min.mpr ⟨hle, Nat.min_le_right _ _⟩, Nat.min_le_right _ _⟩

/-- The bounds are exact, though they are reckoned in sizes. -/
theorem bytes?_eq_extract (hdata : s.data = some data) (hmemory : data.length ≤ maxSize) :
    s.bytes? = some (data.extract (min s.offset data.length)
      (min (s.offset + s.size * s.elementType.width) data.length)) := by
  rw [bytes?, hdata, Option.map_some, byteLength?, checkedMul_bind_checkedAdd]
  cases hstop : checkedSize (s.offset + s.size * s.elementType.width) with
  | some stop =>
      obtain ⟨-, rfl⟩ := checkedSize_eq_some_iff.mp hstop
      rfl
  | none =>
      have hpast : maxSize < s.offset + s.size * s.elementType.width := checkedSize_eq_none_iff.mp hstop
      rw [Nat.min_eq_right (Nat.le_trans hmemory (Nat.le_of_lt hpast))]

/-- A storage that was never filled has no bytes. The bytes of any other are those of its last filling
from the sum of the view offsets since, over its own size, in exact numbers and as far as the data goes.
No bound is out of place. -/
theorem bytes?_made (type : ElementType) (size : Nat) (changes : List Change) :
    ((∀ data, .fill data ∉ changes) → (made type size changes).bytes? = none) ∧
    (∀ before data views, changes = before ++ .fill data :: views → (∀ data, .fill data ∉ views) →
      data.length ≤ maxSize →
      (made type size changes).bytes? =
        some (data.extract (min (shift views * type.width) data.length)
          (min ((shift views + (made type size changes).size) * type.width) data.length))) ∧
    (made type size changes).bytesInside? = (made type size changes).bytes? := by
  refine ⟨fun hviews => ?_, fun before data views hchanges hviews hmemory => ?_, bytesInside?_eq _⟩
  · obtain ⟨hdata, -⟩ := after_views (s := declare type size) hviews (Nat.zero_le _)
    rw [bytes?, made, hdata]
    rfl
  · have htype : (made type size changes).elementType = type := elementType_after _ changes
    obtain ⟨hdata, hoffset⟩ := hchanges ▸ made_fill type size before hviews
    have hlow : min (min (shift views * type.width) maxSize) data.length =
        min (shift views * type.width) data.length := by omega
    have hhigh : min (min (shift views * type.width) maxSize +
          (made type size changes).size * type.width) data.length =
        min ((shift views + (made type size changes).size) * type.width) data.length := by
      rw [Nat.add_mul]
      omega
    have hbytes := bytes?_eq_extract hdata hmemory
    rwa [htype, hoffset, hlow, hhigh] at hbytes

/-- A view of a view of two-byte integers, taken after views of other data. -/
def nestedViews : List Change :=
  [.fill [9, 9], .view 3 9, .fill [1, 0, 2, 0, 3, 0, 4, 0], .view 1 3, .view 1 9]

theorem bytes?_made_nestedViews :
    (made .int16 4 nestedViews).bytes? = some [3, 0, 4, 0] ∧
      (made .int16 4 (nestedViews ++ [.view 0x8000000000000000 1])).bytes? = some [] ∧
      (made .int16 4 [.view 3 9]).bytes? = none := by
  have hnested := (bytes?_made .int16 4 nestedViews).2.1 [.fill [9, 9], .view 3 9]
    [1, 0, 2, 0, 3, 0, 4, 0] [.view 1 3, .view 1 9] rfl (by simp) (by decide)
  have hfar := (bytes?_made .int16 4 (nestedViews ++ [.view 0x8000000000000000 1])).2.1
    [.fill [9, 9], .view 3 9] [1, 0, 2, 0, 3, 0, 4, 0]
    [.view 1 3, .view 1 9, .view 0x8000000000000000 1] rfl (by simp) (by decide)
  exact ⟨hnested, hfar, (bytes?_made .int16 4 [.view 3 9]).1 (by simp)⟩

end ModelGraph.Storage
