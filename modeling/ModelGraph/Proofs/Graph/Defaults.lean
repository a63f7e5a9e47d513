import ModelGraph.Graph.Attribute
import ModelGraph.Proofs.Number.Double

/-!
# Attributes that say nothing new

An attribute is hidden where it equals the default of its schema. Numbers are compared as the doubles
nearest to them, and a float that is not finite counts as null. So neighbours past 2⁵³ are taken for
each other, and an infinity for a default of null. Everywhere else the comparison is exact.
-/

namespace ModelGraph

open Float.Model

/-! ## The numbers of doubles -/

/-- The number that a finite double stands for. -/
noncomputable def rationalOfFloat? (x : Float) : Option ℚ :=
  match binaryOfFloat x with
  | .finite negative s e => some (if negative then -(s * 2 ^ e) else s * 2 ^ e)
  | _ => none

variable {x y : Float} {i : Int}

theorem isFinite_iff : x.isFinite = true ↔ x.toBits.toNat % 0x8000000000000000 < 0x7ff0000000000000 := by
  have hfinite : x.isFinite = (UnpackedFloat.unpack .binary64 x.toBits.toBitVec).isFinite := rfl
  rw [hfinite]
  fun_cases UnpackedFloat.unpack .binary64 x.toBits.toBitVec with
  | case1 mantissa exponent sign' sign hones hzero =>
      have hexponent : exponent.toNat = _ := Unpacked.toNat_unpackExponent x.toBits
      have hones : exponent.toNat = 0x7ff := congrArg BitVec.toNat hones
      refine iff_of_false Bool.false_ne_true ?_
      omega
  | case2 mantissa exponent hones hzero =>
      have hexponent : exponent.toNat = _ := Unpacked.toNat_unpackExponent x.toBits
      have hones : exponent.toNat = 0x7ff := congrArg BitVec.toNat hones
      refine iff_of_false Bool.false_ne_true ?_
      omega
  | case3 mantissa exponent sign' sign hones hzero hzero' =>
      have hexponent : exponent.toNat = _ := Unpacked.toNat_unpackExponent x.toBits
      have hzero : exponent.toNat = 0 := congrArg BitVec.toNat hzero
      refine iff_of_true rfl ?_
      omega
  | case4 mantissa exponent e sign' sign hones hzero =>
      have hexponent : exponent.toNat = _ := Unpacked.toNat_unpackExponent x.toBits
      have hzero : exponent.toNat = 0 := congrArg BitVec.toNat hzero
      refine iff_of_true rfl ?_
      omega
  | case5 mantissa exponent e sign' sign hones hzero =>
      have hexponent : exponent.toNat = _ := Unpacked.toNat_unpackExponent x.toBits
      have hones : exponent.toNat ≠ 0x7ff := fun h => hones (BitVec.eq_of_toNat_eq h)
      refine iff_of_true rfl ?_
      omega

theorem exists_rationalOfFloat? (hx : x.isFinite) : ∃ q, rationalOfFloat? x = some q := by
  obtain ⟨negative, s, e, hbits⟩ := exists_binaryOfFloat (isFinite_iff.mp hx)
  rw [rationalOfFloat?, hbits]
  exact ⟨_, rfl⟩

theorem isFinite_of_rational {q : ℚ} (h : rationalOfFloat? x = some q) : x.isFinite := by
  have hbits := UInt64.toNat_lt x.toBits
  rw [rationalOfFloat?, binaryOfFloat, decode_double hbits] at h
  dsimp only at h
  rw [isFinite_iff]
  split_ifs at h with hones hzero hzero <;> cases h
  · omega
  · omega

theorem FitsDouble.bits_eq_iff {s s' : Nat} {e e' : Int} (h : FitsDouble s e) (h' : FitsDouble s' e') :
    (s : ℚ) * 2 ^ e = s' * 2 ^ e' ↔ magnitudeBits s e = magnitudeBits s' e' := by
  constructor
  · intro hvalue
    obtain ⟨rfl, rfl⟩ := h.eq_of_value_eq h' hvalue
    rfl
  · intro hbits
    obtain ⟨rfl, rfl⟩ := h.eq_of_magnitudeBits_eq h' hbits
    rfl

theorem FitsDouble.zero : FitsDouble 0 (-1074) := ⟨by decide, by decide, by decide, .inl rfl⟩

/-- Finite doubles stand for one number exactly if they have one rank. -/
theorem rationalOfFloat?_eq_iff (hx : x.isFinite) (hy : y.isFinite) :
    rationalOfFloat? x = rationalOfFloat? y ↔ floatRank x = floatRank y := by
  obtain ⟨negative, s, e, hbits⟩ := exists_binaryOfFloat (isFinite_iff.mp hx)
  obtain ⟨negative', s', e', hbits'⟩ := exists_binaryOfFloat (isFinite_iff.mp hy)
  obtain ⟨hfits, hrank⟩ := floatRank_of_finite hbits
  obtain ⟨hfits', hrank'⟩ := floatRank_of_finite hbits'
  have hsame := hfits.bits_eq_iff hfits'
  have hzero := hfits.bits_eq_iff .zero
  have hzero' := hfits'.bits_eq_iff .zero
  have hvalue : (0 : ℚ) ≤ s * 2 ^ e := by positivity
  have hvalue' : (0 : ℚ) ≤ s' * 2 ^ e' := by positivity
  have hmagnitude := hfits.magnitudeBits_nonneg
  have hmagnitude' := hfits'.magnitudeBits_nonneg
  rw [Nat.cast_zero, zero_mul, show magnitudeBits 0 (-1074) = 0 from rfl] at hzero hzero'
  rw [rationalOfFloat?, rationalOfFloat?, hbits, hbits', hrank, hrank', Option.some.injEq]
  cases negative <;> cases negative'
  · exact hsame
  · simp only [Bool.false_eq_true, if_false, if_true]
    constructor
    · intro h
      have := hzero.mp (by linarith)
      have := hzero'.mp (by linarith)
      omega
    · intro h
      rw [hzero.mpr (by omega), hzero'.mpr (by omega), neg_zero]
  · simp only [Bool.false_eq_true, if_false, if_true]
    constructor
    · intro h
      have := hzero.mp (by linarith)
      have := hzero'.mp (by linarith)
      omega
    · intro h
      rw [hzero.mpr (by omega), hzero'.mpr (by omega), neg_zero]
  · simp only [if_true, neg_inj]
    exact hsame

/-- Finite doubles are equal exactly if they stand for one number. -/
theorem float_beq_iff_rational (hx : x.isFinite) (hy : y.isFinite) :
    (x == y) = true ↔ rationalOfFloat? x = rationalOfFloat? y := by
  rw [rationalOfFloat?_eq_iff hx hy]
  exact float_beq_iff (isNaN_of_bits (isFinite_iff.mp hx).le) (isNaN_of_bits (isFinite_iff.mp hy).le)

theorem isFinite_floatOfInt (hi : i.natAbs < 0x10000000000000000) : (floatOfInt i).isFinite := by
  have hlt := nearestBits_lt hi
  rw [isFinite_iff, floatOfInt_eq hi, toBits_signedDouble hlt.le]
  split_ifs <;> omega

theorem rationalOfFloat?_of_integer (hx : integerOfFloat? x = some i) :
    rationalOfFloat? x = some (i : ℚ) := by
  obtain ⟨negative, s, e, hbits, hvalue, hi⟩ := integerOfFloat?_eq_some_iff.mp hx
  have hcast := congrArg (fun k : Int => (k : ℚ)) hi
  rw [rationalOfFloat?, hbits]
  dsimp only
  rw [← hvalue]
  refine congrArg some (Eq.trans ?_ hcast.symm)
  split_ifs
  · rw [Int.cast_neg, Int.cast_natCast]
  · rw [Int.cast_natCast]

/-- The double nearest to an integer is the integer itself, or both are at least 2⁵³ in magnitude. -/
theorem exists_nearest (hi : i.natAbs < 0x10000000000000000) :
    ∃ q, rationalOfFloat? (floatOfInt i) = some q ∧
      (q = i ∨ 2 ^ 53 ≤ |q| ∧ (2 : ℚ) ^ 53 ≤ |(i : ℚ)|) := by
  obtain ⟨j, hj, hsmall, hlarge⟩ := exists_integer_floatOfInt hi
  refine ⟨j, rationalOfFloat?_of_integer hj, ?_⟩
  by_cases h : i.natAbs < 0x20000000000000
  · rw [hsmall h]
    exact .inl rfl
  · have hmagnitude {k : Int} (hk : 0x20000000000000 ≤ k.natAbs) : (2 : ℚ) ^ 53 ≤ |(k : ℚ)| := by
      rw [← Int.cast_abs, Int.abs_eq_natAbs]
      exact_mod_cast hk
    exact .inr ⟨hmagnitude (hlarge (by omega)), hmagnitude (by omega)⟩

/-! ## What counts as equal -/

/-- A value that is no list, or that is a list of values that are so, item by item. -/
inductive Elementwise (related : AttributeValue → Json → Prop) : AttributeValue → Json → Prop
  | leaf {v : AttributeValue} {d : Json} (h : related v d) : Elementwise related v d
  | list {items : List AttributeValue} {defaults : List Json}
      (h : List.Forall₂ (Elementwise related) items defaults) :
      Elementwise related (.list items) (.array defaults)

namespace AttributeValue

/-- The number that a value is. -/
noncomputable def rational? : AttributeValue → Option ℚ
  | .int i => some i.toInt
  | .float x => rationalOfFloat? x
  | _ => Option.none

/-- The number of the double nearest to a value. -/
noncomputable def nearest? : AttributeValue → Option ℚ
  | .int i => rationalOfFloat? (floatOfInt i.toInt)
  | .float x => rationalOfFloat? x
  | _ => Option.none

/-- Whether a value is a default, or is a list of items that each are the default, which is no list. -/
def HasDefault (related : AttributeValue → Json → Prop) (v : AttributeValue) (d : Json) : Prop :=
  Elementwise related v d ∨
    d.isArray = false ∧ ∃ items, v = .list items ∧ ∀ item ∈ items, Elementwise related item d

mutual

/-- The values in a value that are no lists. -/
def leaves : AttributeValue → List AttributeValue
  | .list items => leavesAll items
  | v => [v]

def leavesAll : List AttributeValue → List AttributeValue
  | [] => []
  | v :: rest => leaves v ++ leavesAll rest

end

end AttributeValue

namespace Json

noncomputable def rational? : Json → Option ℚ
  | .int i => some i
  | .float x => rationalOfFloat? x
  | _ => none

noncomputable def nearest? : Json → Option ℚ
  | .int i => rationalOfFloat? (floatOfInt i)
  | .float x => rationalOfFloat? x
  | _ => none

mutual

def leaves : Json → List Json
  | .array items => leavesAll items
  | d => [d]

def leavesAll : List Json → List Json
  | [] => []
  | d :: rest => leaves d ++ leavesAll rest

end

/-- The numbers of documents are integers of 64 bits, signed or not, and finite doubles. -/
def FitsWord : Json → Prop
  | .int i => i.natAbs < 0x10000000000000000
  | .float x => x.isFinite
  | _ => True

/-- A value as documents hold it. -/
def Written (d : Json) : Prop := ∀ b ∈ d.leaves, b.FitsWord

end Json

/-- Equality of values that are no lists: numbers are compared exactly. -/
inductive AttributeValue.Equals : AttributeValue → Json → Prop
  | none : Equals .none .null
  | bool (b : Bool) : Equals (.bool b) (.bool b)
  | string (s : String) : Equals (.string s) (.string s)
  | number {v : AttributeValue} {d : Json} {q : ℚ} (hv : v.rational? = some q) (hd : d.rational? = some q) :
      v.Equals d

/-- The comparison that hides attributes: numbers are compared as doubles, and what is no number as a
float is null. -/
inductive AttributeValue.Agrees : AttributeValue → Json → Prop
  | none : Agrees .none .null
  | bool (b : Bool) : Agrees (.bool b) (.bool b)
  | string (s : String) : Agrees (.string s) (.string s)
  | number {v : AttributeValue} {d : Json} {q : ℚ} (hv : v.nearest? = some q)
      (hd : d.nearest? = some q) : v.Agrees d
  | lost {x : Float} (hx : x.isFinite = false) : Agrees (.float x) .null

/-- A value and a default that are compared exactly: next to null the value is a number, and of two
numbers one is below 2⁵³, or both are held by doubles. -/
structure AttributeValue.Comparable (v : AttributeValue) (d : Json) : Prop where
  finite : ∀ {x}, v = .float x → d = .null → x.isFinite
  near : ∀ {p q}, v.rational? = some p → d.rational? = some q →
    |p| < 2 ^ 53 ∨ |q| < 2 ^ 53 ∨ v.nearest? = some p ∧ d.nearest? = some q

variable {v : AttributeValue} {d : Json} {related related' : AttributeValue → Json → Prop}

/-! ## Numbers -/

/-- Two numbers that are one another's nearest doubles, or both large. -/
def Near (p q : ℚ) : Prop := q = p ∨ 2 ^ 53 ≤ |q| ∧ 2 ^ 53 ≤ |p|

theorem Near.eq_of_small {p q : ℚ} (h : Near p q) (hsmall : |p| < 2 ^ 53 ∨ |q| < 2 ^ 53) : q = p := by
  obtain heq | ⟨hq, hp⟩ := h
  · exact heq
  · obtain hsmall | hsmall := hsmall <;> linarith

theorem Near.eq_iff_of_small {p q r : ℚ} (h : Near p q) (hsmall : |r| < 2 ^ 53) : r = q ↔ r = p := by
  constructor
  · rintro rfl
    exact h.eq_of_small (.inr hsmall)
  · rintro rfl
    exact (h.eq_of_small (.inl hsmall)).symm

theorem AttributeValue.exists_nearest? {p : ℚ} (h : v.rational? = some p) :
    ∃ q, v.nearest? = some q ∧ Near p q := by
  cases v with
  | int i =>
      cases h
      exact exists_nearest (natAbs_toInt_lt i)
  | float x => exact ⟨p, h, .inl rfl⟩
  | _ => cases h

theorem AttributeValue.exists_rational? {q : ℚ} (h : v.nearest? = some q) : ∃ p, v.rational? = some p := by
  cases v with
  | int i => exact ⟨_, rfl⟩
  | float x => exact ⟨q, h⟩
  | _ => cases h

theorem Json.FitsWord.exists_nearest? (hd : d.FitsWord) {p : ℚ} (h : d.rational? = some p) :
    ∃ q, d.nearest? = some q ∧ Near p q := by
  cases d with
  | int i =>
      cases h
      exact exists_nearest hd
  | float x => exact ⟨p, h, .inl rfl⟩
  | _ => cases h

theorem Json.exists_rational? {q : ℚ} (h : d.nearest? = some q) : ∃ p, d.rational? = some p := by
  cases d with
  | int i => exact ⟨_, rfl⟩
  | float x => exact ⟨q, h⟩
  | _ => cases h

/-- Where values are comparable, comparing the nearest doubles is exact. -/
theorem AttributeValue.Comparable.exact_eq_iff (h : v.Comparable d) (hd : d.FitsWord) {p p' q q' : ℚ}
    (hv : v.rational? = some p) (hd' : d.rational? = some p') (hvq : v.nearest? = some q)
    (hdq : d.nearest? = some q') : q = q' ↔ p = p' := by
  obtain ⟨r, hr, hnear⟩ := AttributeValue.exists_nearest? hv
  obtain ⟨r', hr', hnear'⟩ := hd.exists_nearest? hd'
  rw [hvq] at hr
  rw [hdq] at hr'
  cases hr
  cases hr'
  obtain hsmall | hsmall | ⟨hp, hp'⟩ := h.near hv hd'
  · rw [hnear.eq_of_small (.inl hsmall)]
    exact hnear'.eq_iff_of_small hsmall
  · rw [hnear'.eq_of_small (.inl hsmall), eq_comm, hnear.eq_iff_of_small hsmall, eq_comm]
  · rw [hvq] at hp
    rw [hdq] at hp'
    cases hp
    cases hp'
    rfl

theorem AttributeValue.Comparable.agrees_iff (h : v.Comparable d) (hd : d.FitsWord) :
    v.Agrees d ↔ v.Equals d := by
  constructor
  · intro hagrees
    cases hagrees with
    | none => exact .none
    | bool b => exact .bool b
    | string s => exact .string s
    | number hv hd' =>
        obtain ⟨p, hp⟩ := AttributeValue.exists_rational? hv
        obtain ⟨p', hp'⟩ := Json.exists_rational? hd'
        obtain rfl := (h.exact_eq_iff hd hp hp' hv hd').mp rfl
        exact .number hp hp'
    | lost hx =>
        rw [h.finite rfl rfl] at hx
        cases hx
  · intro hequals
    cases hequals with
    | none => exact .none
    | bool b => exact .bool b
    | string s => exact .string s
    | number hp hp' =>
        obtain ⟨q, hq, -⟩ := AttributeValue.exists_nearest? hp
        obtain ⟨q', hq', -⟩ := hd.exists_nearest? hp'
        obtain rfl := (h.exact_eq_iff hd hp hp' hq hq').mpr rfl
        exact .number hq hq'

/-! ## Lists -/

/-- A relation of values that are no lists. -/
def RelatesLeaves (related : AttributeValue → Json → Prop) : Prop :=
  ∀ {v d}, related v d → (∀ items, v ≠ .list items) ∧ ∀ items, d ≠ .array items

theorem relatesLeaves_equals : RelatesLeaves AttributeValue.Equals := by
  intro v d h
  constructor
  · rintro items rfl
    cases h with
    | number hv => cases hv
  · rintro items rfl
    cases h with
    | number _ hd => cases hd

theorem relatesLeaves_agrees : RelatesLeaves AttributeValue.Agrees := by
  intro v d h
  constructor
  · rintro items rfl
    cases h with
    | number hv => cases hv
  · rintro items rfl
    cases h with
    | number _ hd => cases hd

theorem AttributeValue.mem_leaves_self (hv : ∀ items, v ≠ .list items) : v ∈ v.leaves := by
  cases v with
  | list items => exact absurd rfl (hv items)
  | _ => exact List.mem_cons_self

theorem Json.mem_leaves_self (hd : ∀ items, d ≠ .array items) : d ∈ d.leaves := by
  cases d with
  | array items => exact absurd rfl (hd items)
  | _ => exact List.mem_cons_self

theorem elementwise_iff_of_leaf (hv : ∀ items, v ≠ .list items) :
    Elementwise related v d ↔ related v d := by
  constructor
  · intro h
    cases h with
    | leaf h => exact h
    | list => exact absurd rfl (hv _)
  · exact .leaf

theorem elementwise_list_iff (hrelated : RelatesLeaves related) {items : List AttributeValue} :
    Elementwise related (.list items) d ↔
      ∃ defaults, d = .array defaults ∧ List.Forall₂ (Elementwise related) items defaults := by
  constructor
  · intro h
    cases h with
    | leaf h => exact absurd rfl ((hrelated h).1 items)
    | list h => exact ⟨_, rfl, h⟩
  · rintro ⟨defaults, rfl, h⟩
    exact .list h

mutual

/-- Related leaves make related values. -/
theorem elementwise_mono (hrelated : RelatesLeaves related) :
    (v : AttributeValue) → (d : Json) →
      (∀ a ∈ v.leaves, ∀ b ∈ d.leaves, related a b → related' a b) →
      Elementwise related v d → Elementwise related' v d
  | v, d, himp, .leaf h =>
      have ⟨hv, hd⟩ := hrelated h
      .leaf (himp v (AttributeValue.mem_leaves_self hv) d (Json.mem_leaves_self hd) h)
  | .list items, .array defaults, himp, .list h =>
      .list (elementwise_mono_items hrelated items defaults himp h)

theorem elementwise_mono_items (hrelated : RelatesLeaves related) :
    (items : List AttributeValue) → (defaults : List Json) →
      (∀ a ∈ AttributeValue.leavesAll items, ∀ b ∈ Json.leavesAll defaults,
        related a b → related' a b) →
      List.Forall₂ (Elementwise related) items defaults →
      List.Forall₂ (Elementwise related') items defaults
  | [], [], _, .nil => .nil
  | v :: items, d :: defaults, himp, .cons h hrest =>
      .cons
        (elementwise_mono hrelated v d
          (fun a ha b hb => himp a (List.mem_append_left _ ha) b (List.mem_append_left _ hb)) h)
        (elementwise_mono_items hrelated items defaults
          (fun a ha b hb => himp a (List.mem_append_right _ ha) b (List.mem_append_right _ hb)) hrest)

end

/-! ## The comparison -/

theorem Json.nearest?_eq (d : Json) : d.nearest? = d.float?.bind rationalOfFloat? := by
  cases d <;> rfl

theorem Json.Written.fitsWord (hd : d.Written) : d.FitsWord := by
  cases d with
  | array => exact trivial
  | _ => exact hd _ List.mem_cons_self

theorem Json.FitsWord.isFinite (hd : d.FitsWord) (hx : d.float? = some x) : x.isFinite := by
  cases d with
  | int i =>
      cases hx
      exact isFinite_floatOfInt hd
  | float y =>
      cases hx
      exact hd
  | _ => cases hx

theorem Json.same_iff_of_float? {j : Json} (hj : j.float? = some x) :
    j.same d = true ↔ ∃ y, d.float? = some y ∧ (x == y) = true := by
  cases j with
  | int i =>
      cases hj
      cases d <;> simp [Json.same, Json.float?]
  | float y =>
      cases hj
      cases d <;> simp [Json.same, Json.float?]
  | _ => cases hj

theorem Json.same_number_iff {j : Json} (hj : j.float? = some x) {q : ℚ}
    (hq : rationalOfFloat? x = some q) (hd : d.FitsWord) :
    j.same d = true ↔ d.nearest? = some q := by
  have hx := isFinite_of_rational hq
  rw [Json.same_iff_of_float? hj, Json.nearest?_eq, Option.bind_eq_some_iff, ← hq]
  apply exists_congr
  intro y
  apply and_congr_right
  intro hy
  rw [float_beq_iff_rational hx (hd.isFinite hy)]
  exact eq_comm

theorem Json.same_null_iff : Json.null.same d = true ↔ d = .null := by
  cases d <;> simp [Json.same, Json.float?]

theorem Json.same_bool_iff {b : Bool} : (Json.bool b).same d = true ↔ d = .bool b := by
  cases d <;> simp [Json.same, Json.float?, eq_comm (a := b)]

theorem Json.same_string_iff {s : String} : (Json.string s).same d = true ↔ d = .string s := by
  cases d <;> simp [Json.same, Json.float?, eq_comm (a := s)]

theorem AttributeValue.agrees_number_iff {q : ℚ} (hq : v.nearest? = some q) :
    v.Agrees d ↔ d.nearest? = some q := by
  constructor
  · intro h
    cases h with
    | number hv hd => rw [hd, ← hv, hq]
    | lost hx =>
        rw [isFinite_of_rational hq] at hx
        cases hx
    | _ => cases hq
  · exact .number hq

theorem AttributeValue.agrees_null_iff (hv : v = .none ∨ ∃ x, v = .float x ∧ x.isFinite = false) :
    v.Agrees d ↔ d = .null := by
  constructor
  · intro h
    cases h with
    | none => rfl
    | lost => rfl
    | number hv' hd =>
        obtain rfl | ⟨x, rfl, hx⟩ := hv
        · cases hv'
        · rw [isFinite_of_rational hv'] at hx
          cases hx
    | _ => simp at hv
  · rintro rfl
    obtain rfl | ⟨x, rfl, hx⟩ := hv
    · exact .none
    · exact .lost hx

theorem AttributeValue.agrees_bool_iff {b : Bool} : Agrees (.bool b) d ↔ d = .bool b := by
  constructor
  · intro h
    cases h with
    | bool => rfl
    | number hv => cases hv
  · rintro rfl
    exact .bool b

theorem AttributeValue.agrees_string_iff {s : String} : Agrees (.string s) d ↔ d = .string s := by
  constructor
  · intro h
    cases h with
    | string => rfl
    | number hv => cases hv
  · rintro rfl
    exact .string s

/-- A value that is no list is the same as a default exactly if they agree. -/
theorem AttributeValue.same_leaf_iff {j : Json} (hv : ∀ items, v ≠ .list items)
    (hj : v.json? = some j) (hd : d.Written) : j.same d = true ↔ v.Agrees d := by
  cases v with
  | none =>
      cases hj
      rw [Json.same_null_iff, agrees_null_iff (.inl rfl)]
  | bool b =>
      cases hj
      rw [Json.same_bool_iff, agrees_bool_iff]
  | string s =>
      cases hj
      rw [Json.same_string_iff, agrees_string_iff]
  | int i =>
      cases hj
      obtain ⟨q, hq⟩ := exists_rationalOfFloat? (isFinite_floatOfInt (natAbs_toInt_lt i))
      rw [Json.same_number_iff rfl hq hd.fitsWord, agrees_number_iff (v := .int i) hq]
  | float x =>
      by_cases hx : x.isFinite
      · rw [json?, if_pos hx] at hj
        cases hj
        obtain ⟨q, hq⟩ := exists_rationalOfFloat? hx
        rw [Json.same_number_iff rfl hq hd.fitsWord, agrees_number_iff (v := .float x) hq]
      · rw [json?, if_neg hx] at hj
        cases hj
        rw [Json.same_null_iff, agrees_null_iff (.inr ⟨x, rfl, Bool.eq_false_iff.mpr hx⟩)]
  | list items => exact absurd rfl (hv items)
  | tensor => cases hj
  | object => cases hj

theorem AttributeValue.isSome_json?_of_agrees (h : v.Agrees d) : v.json?.isSome := by
  cases h with
  | number hv hd =>
      cases v with
      | int => rfl
      | float => rfl
      | _ => cases hv
  | _ => rfl

/-- A value that is no list has a form that is the same as a default exactly if they agree. -/
theorem AttributeValue.exists_same_leaf_iff (hv : ∀ items, v ≠ .list items) (hd : d.Written) :
    (∃ j, v.json? = some j ∧ j.same d = true) ↔ Elementwise Agrees v d := by
  rw [elementwise_iff_of_leaf hv]
  constructor
  · rintro ⟨j, hj, hsame⟩
    exact (same_leaf_iff hv hj hd).mp hsame
  · intro h
    obtain ⟨j, hj⟩ := Option.isSome_iff_exists.mp (isSome_json?_of_agrees h)
    exact ⟨j, hj, (same_leaf_iff hv hj hd).mpr h⟩

theorem Json.same_array_iff {items : List Json} : (Json.array items).same d = true ↔
    ∃ defaults, d = .array defaults ∧ Json.sameItems items defaults = true := by
  cases d <;> simp [Json.same, Json.float?]

theorem Json.Written.head {rest : List Json} (h : (Json.array (d :: rest)).Written) : d.Written :=
  fun b hb => h b (List.mem_append_left _ hb)

theorem Json.Written.tail {rest : List Json} (h : (Json.array (d :: rest)).Written) :
    (Json.array rest).Written :=
  fun b hb => h b (List.mem_append_right _ hb)

theorem AttributeValue.jsonItems?_cons_iff {items : List AttributeValue} {js : List Json} :
    jsonItems? (v :: items) = some js ↔
      ∃ j rest, v.json? = some j ∧ jsonItems? items = some rest ∧ j :: rest = js := by
  simp [jsonItems?, Option.bind_eq_some_iff]

mutual

/-- A value has a form that is the same as a default exactly if it agrees with it, item by item. -/
theorem AttributeValue.exists_same_iff (v : AttributeValue) (d : Json) (hd : d.Written) :
    (∃ j, v.json? = some j ∧ j.same d = true) ↔ Elementwise Agrees v d := by
  cases v with
  | list items =>
      rw [elementwise_list_iff relatesLeaves_agrees]
      constructor
      · rintro ⟨j, hj, hsame⟩
        obtain ⟨js, hjs, rfl⟩ := Option.map_eq_some_iff.mp hj
        obtain ⟨defaults, rfl, hitems⟩ := Json.same_array_iff.mp hsame
        exact ⟨defaults, rfl, (exists_sameItems_iff items defaults hd).mp ⟨js, hjs, hitems⟩⟩
      · rintro ⟨defaults, rfl, hitems⟩
        obtain ⟨js, hjs, hsame⟩ := (exists_sameItems_iff items defaults hd).mpr hitems
        exact ⟨.array js, by rw [json?, hjs, Option.map_some],
          Json.same_array_iff.mpr ⟨defaults, rfl, hsame⟩⟩
  | _ => exact exists_same_leaf_iff nofun hd

theorem AttributeValue.exists_sameItems_iff (items : List AttributeValue) (defaults : List Json)
    (hd : (Json.array defaults).Written) :
    (∃ js, jsonItems? items = some js ∧ Json.sameItems js defaults = true) ↔
      List.Forall₂ (Elementwise Agrees) items defaults := by
  cases items with
  | nil =>
      cases defaults with
      | nil => exact iff_of_true ⟨[], rfl, rfl⟩ .nil
      | cons d rest =>
          refine iff_of_false ?_ nofun
          rintro ⟨js, hjs, hsame⟩
          cases hjs
          cases hsame
  | cons v items =>
      cases defaults with
      | nil =>
          refine iff_of_false ?_ nofun
          rintro ⟨js, hjs, hsame⟩
          obtain ⟨j, js, -, -, rfl⟩ := jsonItems?_cons_iff.mp hjs
          cases hsame
      | cons d rest =>
          rw [List.forall₂_cons, ← exists_same_iff v d hd.head, ← exists_sameItems_iff items rest hd.tail]
          constructor
          · rintro ⟨_, hall, hsame⟩
            obtain ⟨j, js, hj, hjs, rfl⟩ := jsonItems?_cons_iff.mp hall
            rw [Json.sameItems, Bool.and_eq_true] at hsame
            exact ⟨⟨j, hj, hsame.1⟩, ⟨js, hjs, hsame.2⟩⟩
          · rintro ⟨⟨j, hj, hsame⟩, ⟨js, hjs, hrest⟩⟩
            refine ⟨j :: js, jsonItems?_cons_iff.mpr ⟨j, js, hj, hjs, rfl⟩, ?_⟩
            rw [Json.sameItems, Bool.and_eq_true]
            exact ⟨hsame, hrest⟩

end

theorem AttributeValue.exists_all_same_iff (items : List AttributeValue) (hd : d.Written) :
    (∃ js, jsonItems? items = some js ∧ js.all (·.same d) = true) ↔
      ∀ item ∈ items, Elementwise Agrees item d := by
  induction items with
  | nil => exact iff_of_true ⟨[], rfl, rfl⟩ (by simp)
  | cons v items ih =>
      rw [List.forall_mem_cons, ← exists_same_iff v d hd, ← ih]
      constructor
      · rintro ⟨_, hall, hsame⟩
        obtain ⟨j, js, hj, hjs, rfl⟩ := jsonItems?_cons_iff.mp hall
        rw [List.all_cons, Bool.and_eq_true] at hsame
        exact ⟨⟨j, hj, hsame.1⟩, ⟨js, hjs, hsame.2⟩⟩
      · rintro ⟨⟨j, hj, hsame⟩, ⟨js, hjs, hrest⟩⟩
        refine ⟨j :: js, jsonItems?_cons_iff.mpr ⟨j, js, hj, hjs, rfl⟩, ?_⟩
        rw [List.all_cons, Bool.and_eq_true]
        exact ⟨hsame, hrest⟩

theorem Json.isDefault_iff {j : Json} : j.isDefault d = true ↔ j.same d = true ∨
    d.isArray = false ∧ ∃ js, j = .array js ∧ js.all (·.same d) = true := by
  cases j <;> simp [Json.isDefault]

theorem AttributeValue.json?_eq_array_iff {js : List Json} : v.json? = some (.array js) ↔
    ∃ items, v = .list items ∧ jsonItems? items = some js := by
  constructor
  · intro h
    cases v with
    | list items =>
        obtain ⟨js', hjs, heq⟩ := Option.map_eq_some_iff.mp h
        cases heq
        exact ⟨items, rfl, hjs⟩
    | float x =>
        rw [json?] at h
        split_ifs at h <;> cases h
    | _ => cases h
  · rintro ⟨items, rfl, hjs⟩
    rw [json?, hjs, Option.map_some]

/-- The code's test for defaults. -/
theorem AttributeValue.exists_isDefault_iff (hd : d.Written) :
    (∃ j, v.json? = some j ∧ j.isDefault d = true) ↔ v.HasDefault Agrees d := by
  rw [HasDefault, ← exists_same_iff v d hd]
  constructor
  · rintro ⟨j, hj, hdefault⟩
    obtain hsame | ⟨harray, js, rfl, hall⟩ := Json.isDefault_iff.mp hdefault
    · exact .inl ⟨j, hj, hsame⟩
    · obtain ⟨items, rfl, hjs⟩ := json?_eq_array_iff.mp hj
      exact .inr ⟨harray, items, rfl, (exists_all_same_iff items hd).mp ⟨js, hjs, hall⟩⟩
  · rintro (⟨j, hj, hsame⟩ | ⟨harray, items, rfl, hitems⟩)
    · exact ⟨j, hj, Json.isDefault_iff.mpr (.inl hsame)⟩
    · obtain ⟨js, hjs, hall⟩ := (exists_all_same_iff items hd).mpr hitems
      exact ⟨.array js, json?_eq_array_iff.mpr ⟨items, rfl, hjs⟩,
        Json.isDefault_iff.mpr (.inr ⟨harray, js, rfl, hall⟩)⟩

theorem AttributeValue.mem_leavesAll {a : AttributeValue} {items : List AttributeValue}
    (hv : v ∈ items) (ha : a ∈ v.leaves) : a ∈ leavesAll items := by
  induction items with
  | nil => cases hv
  | cons first rest ih =>
      obtain rfl | hv := List.mem_cons.mp hv
      · exact List.mem_append_left _ ha
      · exact List.mem_append_right _ (ih hv)

theorem AttributeValue.HasDefault.mono (hrelated : RelatesLeaves related)
    (himp : ∀ a ∈ v.leaves, ∀ b ∈ d.leaves, related a b → related' a b)
    (h : v.HasDefault related d) : v.HasDefault related' d := by
  obtain h | ⟨harray, items, rfl, hitems⟩ := h
  · exact .inl (elementwise_mono hrelated v d himp h)
  · refine .inr ⟨harray, items, rfl, fun item hitem => ?_⟩
    exact elementwise_mono hrelated item d (fun a ha => himp a (mem_leavesAll hitem ha))
      (hitems item hitem)

/-- Where the leaves are comparable, a value has a default exactly if it equals it. -/
theorem AttributeValue.hasDefault_iff (hd : d.Written)
    (hcomparable : ∀ a ∈ v.leaves, ∀ b ∈ d.leaves, a.Comparable b) :
    v.HasDefault Agrees d ↔ v.HasDefault Equals d := by
  constructor
  · exact .mono relatesLeaves_agrees fun a ha b hb =>
      ((hcomparable a ha b hb).agrees_iff (hd b hb)).mp
  · exact .mono relatesLeaves_equals fun a ha b hb =>
      ((hcomparable a ha b hb).agrees_iff (hd b hb)).mpr

/-- An attribute is hidden where its name, its schema or its default says so. The comparison with the
default takes numbers for the doubles nearest to them and infinities for null, and is exact wherever
these are the same. -/
theorem visible_make (schema : Option Operator.Parameter) (name : String) (v : AttributeValue)
    (hschema : ∀ p d, schema = some p → p.default = some d → d.Written) :
    ((Attribute.make schema name v).visible = false ↔ name = "training" ∨
      ∃ p, schema = some p ∧
        (p.visible = false ∨ ∃ d, p.default = some d ∧ v.HasDefault AttributeValue.Agrees d)) ∧
    ∀ p d, schema = some p → p.default = some d →
      (∀ a ∈ v.leaves, ∀ b ∈ d.leaves, a.Comparable b) →
      (v.HasDefault AttributeValue.Agrees d ↔ v.HasDefault AttributeValue.Equals d) := by
  constructor
  · unfold Attribute.make
    by_cases hname : name = "training"
    · rw [if_pos hname]
      exact iff_of_true rfl (.inl hname)
    · rw [if_neg hname, or_iff_right hname]
      cases schema with
      | none => exact iff_of_false Bool.noConfusion nofun
      | some p =>
          have hdefault : (∃ d, p.default = some d ∧ ∃ j, v.json? = some j ∧ j.isDefault d = true) ↔
              ∃ d, p.default = some d ∧ v.HasDefault AttributeValue.Agrees d :=
            exists_congr fun d => and_congr_right fun hd =>
              AttributeValue.exists_isDefault_iff (hschema p d rfl hd)
          simp only [Option.some.injEq, exists_eq_left', ← hdefault]
          cases p.visible <;> cases p.default <;> cases v.json? <;> simp
  · intro p d hp hd
    exact AttributeValue.hasDefault_iff (hschema p d hp hd)

namespace Neighbours

def size : Operator.Parameter := { name := "size", default := some (.int 0x20000000000000) }

theorem written : ∀ p d, some size = some p → p.default = some d → d.Written := by
  intro p d hp hd
  cases hp
  cases hd
  intro b hb
  obtain rfl := List.mem_singleton.mp hb
  rw [Json.FitsWord]
  decide

end Neighbours

/-- A number past 2⁵³ is hidden next to a default that is its neighbour. -/
theorem visible_make_neighbours :
    (∀ p d, some Neighbours.size = some p → p.default = some d → d.Written) ∧
    (Attribute.make (some Neighbours.size) "size" (.int 0x20000000000001)).visible = false ∧
    AttributeValue.HasDefault AttributeValue.Agrees (.int 0x20000000000001) (.int 0x20000000000000) ∧
    ¬ AttributeValue.HasDefault AttributeValue.Equals (.int 0x20000000000001)
      (.int 0x20000000000000) := by
  have hhidden : (Attribute.make (some Neighbours.size) "size" (.int 0x20000000000001)).visible =
      false := by decide +kernel
  refine ⟨Neighbours.written, hhidden, ?_, ?_⟩
  · obtain hname | ⟨p, hp, hvisible | ⟨d, hd, hagrees⟩⟩ :=
      (visible_make _ _ _ Neighbours.written).1.mp hhidden
    · exact absurd hname (by decide)
    · cases hp
      cases hvisible
    · cases hp
      cases hd
      exact hagrees
  · rintro (h | ⟨-, items, hitems, -⟩)
    · cases h with
      | leaf h =>
          cases h with
          | number hv hd =>
              have heq := Int.cast_injective (Option.some.inj (hv.trans hd.symm))
              exact absurd heq (by decide +kernel)
    · cases hitems

end ModelGraph
