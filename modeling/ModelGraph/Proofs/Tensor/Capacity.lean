import Mathlib.Algebra.BigOperators.Group.List.Basic
import Mathlib.Algebra.BigOperators.Ring.List
import ModelGraph.Proofs.Tensor.Storage
import ModelGraph.Tensor.Basic

/-!
# Which bytes hold a tensor

The check asks for as many bytes as the elements occupy, and for the largest size where their count is
given up. In memory that is never there, so without a dimension of zero the check is exact, in whatever
order the dimensions stand. A tensor without elements needs no bytes, but it passes only if no beginning
of its dimensions passes the largest size.
-/

namespace ModelGraph

namespace Shape

variable {type : ElementType} {dims : List Nat} {n : Nat}

/-- The elements fit into a number of bytes, and where there are none, the count gets as far as to see
it. -/
def Fits (type : ElementType) (dims : List Nat) (n : Nat) : Prop :=
  dims.prod * type.width ≤ n ∧ (0 ∈ dims → Countable dims)

theorem fits_of_zero_not_mem (hzero : 0 ∉ dims) : Fits type dims n ↔ dims.prod * type.width ≤ n :=
  and_iff_left fun h => absurd h hzero

theorem prod_mul_width_of_zero_mem (hzero : 0 ∈ dims) : dims.prod * type.width = 0 := by
  rw [List.prod_eq_zero_iff.mpr hzero, Nat.zero_mul]

theorem fits_of_zero_mem (hzero : 0 ∈ dims) : Fits type dims n ↔ Countable dims := by
  rw [Fits, prod_mul_width_of_zero_mem hzero, forall_prop_of_true hzero]
  exact and_iff_right (Nat.zero_le n)

theorem Fits.mono {m : Nat} (h : Fits type dims m) (hle : m ≤ n) : Fits type dims n :=
  ⟨h.1.trans hle, h.2⟩

/-- Elements that fit behind others end inside the bytes. -/
theorem Fits.inside {offset i : Nat} (h : Fits type dims (n - offset * type.width)) (hi : i < dims.prod) :
    (offset + i + 1) * type.width ≤ n := by
  have hend : (i + 1) * type.width ≤ n - offset * type.width := (Nat.mul_le_mul_right _ hi).trans h.1
  have hpos : 0 < (i + 1) * type.width := Nat.mul_pos i.succ_pos type.width_pos
  rw [Nat.add_assoc, Nat.add_mul]
  omega

/-! ## The bytes that the check asks for -/

theorem byteLength?_of_not_countable (h : ¬ Countable dims) : byteLength? ⟨dims⟩ type = none :=
  Option.eq_none_iff_forall_ne_some.mpr fun _ hlength => h (byteLength?_eq_some_iff.mp hlength).1

theorem byteLength?_of_zero_mem (hzero : 0 ∈ dims) (hcount : Countable dims) :
    byteLength? ⟨dims⟩ type = some 0 := by
  have hprod : dims.prod * type.width = 0 := prod_mul_width_of_zero_mem hzero
  exact byteLength?_eq_some_iff.mpr ⟨hcount, hprod ▸ Nat.zero_le _, hprod.symm⟩

theorem byteLength?_of_zero_not_mem (hzero : 0 ∉ dims) :
    (byteLength? ⟨dims⟩ type).getD maxSize = min (dims.prod * type.width) maxSize := by
  cases hlength : byteLength? ⟨dims⟩ type with
  | some length =>
      obtain ⟨-, hle, rfl⟩ := byteLength?_eq_some_iff.mp hlength
      exact (Nat.min_eq_left hle).symm
  | none =>
      -- no element is narrower than a byte, so the count is given up no earlier than the bytes
      refine (Nat.min_eq_right (Nat.le_of_not_le fun hle => ?_)).symm
      have hprod : dims.prod ≤ dims.prod * type.width := Nat.le_mul_of_pos_right _ type.width_pos
      have hcount : Countable dims := countable_of_prod_le hzero (hprod.trans hle)
      rw [byteLength?_eq_some_iff.mpr ⟨hcount, hle, rfl⟩] at hlength
      cases hlength

/-- Less than the largest size is enough just where the elements fit. -/
theorem byteLength?_le_iff (h : n < maxSize) :
    (byteLength? ⟨dims⟩ type).getD maxSize ≤ n ↔ Fits type dims n := by
  by_cases hzero : 0 ∈ dims
  · rw [fits_of_zero_mem hzero]
    by_cases hcount : Countable dims
    · rw [byteLength?_of_zero_mem hzero hcount]
      exact iff_of_true (Nat.zero_le n) hcount
    · rw [byteLength?_of_not_countable hcount]
      exact iff_of_false (Nat.not_le.mpr h) hcount
  · rw [fits_of_zero_not_mem hzero, byteLength?_of_zero_not_mem hzero, min_le_iff]
    exact or_iff_left (Nat.not_le.mpr h)

theorem byteLength?_of_not_fits (h : ¬ Fits type dims n) :
    (byteLength? ⟨dims⟩ type).getD maxSize =
      if 0 ∈ dims then maxSize else min (dims.prod * type.width) maxSize := by
  split_ifs with hzero
  · rw [byteLength?_of_not_countable (mt (fits_of_zero_mem hzero).mpr h)]
    rfl
  · exact byteLength?_of_zero_not_mem hzero

end Shape

namespace Tensor

variable {t : Tensor} {type : ElementType} {layout : ElementLayout} {dims : List Nat} {data bytes : Bytes}

theorem check_eq (htype : t.type = ⟨some type, some ⟨dims⟩⟩) (hlayout : type.layout? = some layout)
    (hbytes : t.bytes? = some bytes) :
    t.check =
      if bytes.length < (Shape.byteLength? ⟨dims⟩ type).getD maxSize then
        .error (.tooShort ((Shape.byteLength? ⟨dims⟩ type).getD maxSize) bytes.length)
      else .ok ⟨layout, dims, bytes⟩ := by
  rw [check, htype]
  dsimp only
  rw [hlayout]
  dsimp only
  rw [hbytes]

theorem check_of_fits (htype : t.type = ⟨some type, some ⟨dims⟩⟩) (hlayout : type.layout? = some layout)
    (hbytes : t.bytes? = some bytes) (hmemory : bytes.length < maxSize)
    (h : Shape.Fits type dims bytes.length) : t.check = .ok ⟨layout, dims, bytes⟩ := by
  rw [check_eq htype hlayout hbytes, if_neg (Nat.not_lt.mpr ((Shape.byteLength?_le_iff hmemory).mpr h))]

theorem check_of_not_fits (htype : t.type = ⟨some type, some ⟨dims⟩⟩)
    (hlayout : type.layout? = some layout) (hbytes : t.bytes? = some bytes)
    (hmemory : bytes.length < maxSize) (h : ¬ Shape.Fits type dims bytes.length) :
    t.check = .error (.tooShort (if 0 ∈ dims then maxSize else min (dims.prod * type.width) maxSize)
      bytes.length) := by
  have hless := Nat.lt_of_not_le (mt (Shape.byteLength?_le_iff hmemory).mp h)
  rw [check_eq htype hlayout hbytes, if_pos hless, Shape.byteLength?_of_not_fits h]

theorem exists_check_iff (htype : t.type = ⟨some type, some ⟨dims⟩⟩) (hlayout : type.layout? = some layout)
    (hbytes : t.bytes? = some bytes) (hmemory : bytes.length < maxSize) :
    (∃ d, t.check = .ok d) ↔ Shape.Fits type dims bytes.length := by
  constructor
  · rintro ⟨d, hcheck⟩
    by_contra hshort
    rw [check_of_not_fits htype hlayout hbytes hmemory hshort] at hcheck
    cases hcheck
  · exact fun hfits => ⟨_, check_of_fits htype hlayout hbytes hmemory hfits⟩

/-- A tensor with decodable elements, a shape and data passes the check just where its elements fit into
the bytes from its offset on; otherwise these are too short. Where no dimension is zero, the product of
the dimensions decides, whatever their order. -/
theorem check_iff_fits (htype : t.type = ⟨some type, some ⟨dims⟩⟩) (hlayout : type.layout? = some layout)
    (hdata : t.data = some data) (hmemory : data.length < maxSize) :
    (Shape.Fits type dims (data.length - t.offset) →
      t.check = .ok ⟨layout, dims, data.drop t.offset⟩) ∧
    (¬ Shape.Fits type dims (data.length - t.offset) →
      t.check = .error (.tooShort (if 0 ∈ dims then maxSize else min (dims.prod * type.width) maxSize)
        (data.length - t.offset))) ∧
    ∀ order, order.Perm dims → 0 ∉ dims →
      ((∃ d, ({ t with type := ⟨some type, some ⟨order⟩⟩ } : Tensor).check = .ok d) ↔
        dims.prod * type.width ≤ data.length - t.offset) := by
  have hbytes : t.bytes? = some (data.drop t.offset) := by rw [bytes?, hdata]; rfl
  have hlength : (data.drop t.offset).length = data.length - t.offset := List.length_drop
  have hdrop : (data.drop t.offset).length < maxSize := by omega
  rw [← hlength]
  refine ⟨check_of_fits htype hlayout hbytes hdrop, check_of_not_fits htype hlayout hbytes hdrop, ?_⟩
  intro order hperm hzero
  have hzero' : 0 ∉ order := mt hperm.mem_iff.mp hzero
  rw [← hperm.prod_eq, ← Shape.fits_of_zero_not_mem hzero']
  exact exists_check_iff (t := { t with type := ⟨some type, some ⟨order⟩⟩ }) rfl hlayout hbytes hdrop

/-- A tensor of single bytes without elements, whose count passes the largest size before the zero. -/
def lateZero : Tensor :=
  (declare "late" ⟨some .uint8, some ⟨[0x8000000000000000, 4, 0]⟩⟩ true).withData [] 0

/-- It needs no bytes and is refused as too short; with the zero in front it passes. -/
theorem check_iff_fits_lateZero :
    lateZero.data = some [] ∧ [0x8000000000000000, 4, 0].prod * ElementType.uint8.width ≤ 0 ∧
      lateZero.check = .error (.tooShort maxSize 0) ∧
      ({ lateZero with type := ⟨some .uint8, some ⟨[0, 0x8000000000000000, 4]⟩⟩ } : Tensor).check =
        .ok ⟨.unsigned 1, [0, 0x8000000000000000, 4], []⟩ := by
  have hcount : ¬ Shape.Countable [0x8000000000000000, 4, 0] := fun h =>
    absurd (h [0x8000000000000000, 4] (by simp)) (by decide)
  have hshort : ¬ Shape.Fits .uint8 [0x8000000000000000, 4, 0] 0 := fun h => hcount (h.2 (by simp))
  have hdata : lateZero.data = some [] := rfl
  exact ⟨hdata, by decide, (check_iff_fits rfl rfl hdata (by decide)).2.1 hshort, rfl⟩

end Tensor

end ModelGraph
