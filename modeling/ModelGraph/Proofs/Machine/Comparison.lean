import ModelGraph.Machine.Standard
import ModelGraph.Proofs.Machine.Outcome
import ModelGraph.Proofs.Number.Double
import ModelGraph.Proofs.Number.Word
import ModelGraph.Proofs.Object.Heap
import ModelGraph.Proofs.OrderedMap

/-!
# Comparing numbers and finding keys

Two integers are compared as the doubles nearest to them: neighbours past 2⁵³ can count as equal,
and numbers that do not are in their order. The keys of dictionaries keep integers as words; they
agree with equality wherever words and doubles hold the same integers.
-/

namespace ModelGraph

theorem orderFloats?_eq {x y : Float} (hx : x.isNaN = false) (hy : y.isNaN = false) :
    orderFloats? x y = some (compare (floatRank x) (floatRank y)) := by
  simp only [orderFloats?, float_lt_iff hx hy, float_lt_iff hy hx, float_beq_iff hx hy]
  rcases lt_trichotomy (floatRank x) (floatRank y) with h | h | h
  · rw [if_pos h, Int.compare_eq_lt.mpr h]
  · rw [if_neg h.not_lt, if_pos h, Int.compare_eq_eq.mpr h]
  · rw [if_neg h.not_gt, if_neg h.ne', if_pos h, Int.compare_eq_gt.mpr h]

/-! ## Integers -/

/-- The order of two words: equal if one double is nearest to both. -/
def wordOrder (a b : Int64) : Ordering :=
  if floatOfWord a = floatOfWord b then .eq else compare a.toInt b.toInt

theorem floatOfWord_eq_iff {a b : Int64} :
    floatOfWord a = floatOfWord b ↔ nearestRank a.toInt = nearestRank b.toInt := by
  have hrank := floatRank_floatOfInt (natAbs_toInt_lt a)
  have hrank' := floatRank_floatOfInt (natAbs_toInt_lt b)
  constructor
  · intro heq
    rw [← hrank, ← hrank']
    exact congrArg floatRank heq
  · intro heq
    by_cases hzero : nearestRank a.toInt = 0
    · have ha := nearestRank_eq_zero_iff.mp hzero
      have hb := nearestRank_eq_zero_iff.mp (heq ▸ hzero)
      rw [floatOfWord, floatOfWord, ha, hb]
    · exact eq_of_floatRank (hrank.trans (heq.trans hrank'.symm)) (hrank ▸ hzero)

theorem compare_nearestRank (a b : Int64) :
    compare (nearestRank a.toInt) (nearestRank b.toInt) = wordOrder a b := by
  unfold wordOrder
  split_ifs with heq
  · exact Int.compare_eq_eq.mpr (floatOfWord_eq_iff.mp heq)
  · rw [floatOfWord_eq_iff] at heq
    rcases lt_trichotomy a.toInt b.toInt with h | h | h
    · rw [Int.compare_eq_lt.mpr h, Int.compare_eq_lt]
      exact (nearestRank_mono h.le).lt_of_ne heq
    · exact absurd (congrArg nearestRank h) heq
    · rw [Int.compare_eq_gt.mpr h, Int.compare_eq_gt]
      exact (nearestRank_mono h.le).lt_of_ne' heq

/-- The order is that of the integers where one of them is below 2⁵³. -/
theorem wordOrder_of_lt {a b : Int64}
    (h : a.toInt.natAbs < 0x20000000000000 ∨ b.toInt.natAbs < 0x20000000000000) :
    wordOrder a b = compare a.toInt b.toInt := by
  rw [← compare_nearestRank]
  rcases lt_trichotomy a.toInt b.toInt with hlt | heq | hlt
  · rw [Int.compare_eq_lt.mpr hlt, Int.compare_eq_lt]
    exact nearestRank_lt hlt h
  · rw [heq, Int.compare_eq_eq.mpr rfl, Int.compare_eq_eq.mpr rfl]
  · rw [Int.compare_eq_gt.mpr hlt, Int.compare_eq_gt]
    exact nearestRank_lt hlt h.symm

namespace Heap

variable (h : Heap) (a b : Int64)

theorem equal_int : h.equal (.int a) (.int b) = (wordOrder a b == .eq) := by
  have hbeq : h.equal (.int a) (.int b) = (floatOfWord a == floatOfWord b) := rfl
  have hfloats := float_beq_iff (isNaN_floatOfInt (natAbs_toInt_lt a))
    (isNaN_floatOfInt (natAbs_toInt_lt b))
  rw [floatRank_floatOfInt (natAbs_toInt_lt a), floatRank_floatOfInt (natAbs_toInt_lt b),
    ← Int.compare_eq_eq, compare_nearestRank] at hfloats
  rw [hbeq, Bool.eq_iff_iff, beq_iff_eq (a := wordOrder a b)]
  exact hfloats

theorem compare_int : h.compare (.int a) (.int b) = .ok (wordOrder a b) := by
  have horder := orderFloats?_eq (isNaN_floatOfInt (natAbs_toInt_lt a))
    (isNaN_floatOfInt (natAbs_toInt_lt b))
  rw [floatRank_floatOfInt (natAbs_toInt_lt a), floatRank_floatOfInt (natAbs_toInt_lt b),
    compare_nearestRank] at horder
  have hfloats : ((Value.int a).number?.bind fun x => (Value.int b).number?.bind (orderFloats? x)) =
      some (wordOrder a b) := horder
  unfold compare
  simp only [hfloats]

end Heap

/-- The comparisons by name, with the orders in which they hold. -/
def comparisons : List (String × Primitive × (Ordering → Bool)) :=
  [("torch.eq", .eq, (· == .eq)), ("torch.ne", .ne, (· != .eq)), ("torch.lt", .lt, (· == .lt)),
    ("torch.le", .le, (· != .gt)), ("torch.gt", .gt, (· == .gt)), ("torch.ge", .ge, (· != .lt))]

theorem outcome_comparison_int (a b : Int64) (holds : Ordering → Bool) (m : Machine) :
    (Builtin.comparison (.int a) (.int b) holds).outcome m =
      (.ok (.bool (holds (wordOrder a b))), m) := by
  have hcompare : (ofExcept (m.heap.compare (.int a) (.int b)) : Exec Ordering).outcome m =
      (.ok (wordOrder a b), m) := by
    rw [m.heap.compare_int a b, Exec.outcome_ofExcept]
  exact Exec.outcome_bind_ok hcompare fun order => (pure (.bool (holds order)) : Exec Value)

/-- The comparisons of two integers agree on their order, which is exact where one of the integers
is below 2⁵³. -/
theorem outcome_comparison (a b : Int64) :
    (∀ c ∈ comparisons, (c.1, c.2.1) ∈ builtinFunctions ∧ ∀ (host : Host) (m : Machine),
      (host.primitive c.2.1 [.int a, .int b]).outcome m =
        (.ok (.bool (c.2.2 (wordOrder a b))), m)) ∧
    (a.toInt.natAbs < 0x20000000000000 ∨ b.toInt.natAbs < 0x20000000000000 →
      wordOrder a b = compare a.toInt b.toInt) := by
  have hregistered : ∀ c ∈ comparisons, (c.1, c.2.1) ∈ builtinFunctions := by decide +kernel
  refine ⟨fun c hc => ⟨hregistered c hc, fun host m => ?_⟩, wordOrder_of_lt⟩
  have hequal := m.heap.equal_int a b
  simp only [comparisons, List.mem_cons, List.not_mem_nil, or_false] at hc
  rcases hc with rfl | rfl | rfl | rfl | rfl | rfl
  · exact congrArg (fun equal => (Except.ok (Value.bool equal), m)) hequal
  · exact congrArg (fun equal => (Except.ok (Value.bool !equal), m)) hequal
  · exact outcome_comparison_int a b _ m
  · exact outcome_comparison_int a b _ m
  · exact outcome_comparison_int a b _ m
  · exact outcome_comparison_int a b _ m

/-- Two neighbours past 2⁵³ count as equal. -/
theorem outcome_comparison_neighbours :
    ("torch.eq", Primitive.eq, (· == Ordering.eq)) ∈ comparisons ∧
    (Host.standard.primitive .eq [.int 0x20000000000000, .int 0x20000000000001]).outcome .standard =
      (.ok (.bool true), .standard) ∧
    (0x1fffffffffffff : Int64).toInt.natAbs < 0x20000000000000 ∧
    wordOrder 0x1fffffffffffff 0x20000000000000 = .lt := by
  have hmem : ("torch.eq", Primitive.eq, (· == Ordering.eq)) ∈ comparisons := List.mem_cons_self
  have hsmall : (0x1fffffffffffff : Int64).toInt.natAbs < 0x20000000000000 := by decide +kernel
  have horder : wordOrder 0x20000000000000 0x20000000000001 = .eq := by decide +kernel
  have hequal := ((outcome_comparison 0x20000000000000 0x20000000000001).1 _ hmem).2 .standard
    .standard
  rw [horder] at hequal
  refine ⟨hmem, hequal, hsmall, ?_⟩
  rw [(outcome_comparison 0x1fffffffffffff 0x20000000000000).2 (.inl hsmall)]
  decide +kernel

/-! ## Keys -/

theorem toInt_clampInt64 (i : Int) :
    (clampInt64 i).toInt = max (-0x8000000000000000) (min 0x7fffffffffffffff i) := by
  rw [clampInt64, Int64.toInt_ofInt_of_le] <;> omega

theorem clampInt64_toInt (i : Int64) : clampInt64 i.toInt = i := by
  have hlow := Int64.le_toInt i
  have hhigh := Int64.toInt_lt i
  rw [← Int64.toInt_inj, toInt_clampInt64]
  omega

namespace Value

/-- The integer that a number is, of any size. -/
def integer? : Value → Option Int
  | .int i => some i.toInt
  | .float x => integerOfFloat? x
  | _ => Option.none

/-- A number that is the same as a word and as a double, if it is an integer. -/
def Exact : Value → Prop
  | .int i => integerOfFloat? (floatOfWord i) = some i.toInt
  | .float x => ∀ i, integerOfFloat? x = some i → inInt64 i = true
  | _ => True

/-- At most one of two values is an object, and a truth value does not stand with a number. Of two
integers one is below 2⁵³, or both are exact. -/
structure Comparable (a b : Value) : Prop where
  scalar : a.ref? = Option.none ∨ b.ref? = Option.none
  notNaN_left : a.isNaN = false
  notNaN_right : b.isNaN = false
  number_left : a.isNumber → b.bool? = Option.none
  number_right : b.isNumber → a.bool? = Option.none
  exact : ∀ i j, a.integer? = some i → b.integer? = some j →
    (a.Exact ∧ b.Exact) ∨ i.natAbs < 0x20000000000000 ∨ j.natAbs < 0x20000000000000

variable {v : Value} {x : Float} {i : Int} (hx : v.float? = some x)
include hx

theorem isNaN_of_float? (hv : v.isNaN = false) : x.isNaN = false := by
  cases v with
  | int i =>
      cases hx
      exact isNaN_floatOfInt (natAbs_toInt_lt i)
  | float y =>
      cases hx
      exact hv
  | _ => cases hx

/-- The double of an integer is an integer, that one if it is below 2⁵³. -/
theorem exists_integer_of_integer? (hi : v.integer? = some i) :
    ∃ j, integerOfFloat? x = some j ∧ (i.natAbs < 0x20000000000000 → j = i) ∧
      (0x20000000000000 ≤ i.natAbs → 0x20000000000000 ≤ j.natAbs) := by
  cases v with
  | int k =>
      cases hx
      cases hi
      exact exists_integer_floatOfInt (natAbs_toInt_lt k)
  | float y =>
      cases hx
      exact ⟨i, hi, fun _ => rfl, id⟩
  | _ => cases hx

theorem Exact.integer_and_word (hv : v.Exact) (hi : v.integer? = some i) :
    integerOfFloat? x = some i ∧ inInt64 i = true := by
  cases v with
  | int k =>
      cases hx
      cases hi
      exact ⟨hv, inInt64_toInt k⟩
  | float y =>
      cases hx
      exact ⟨hi, hv i hi⟩
  | _ => cases hx

end Value

namespace Key

theorem ofValue_of_integer? {v : Value} {i : Int} (h : v.integer? = some i) :
    ofValue v = .int (clampInt64 i) := by
  cases v with
  | int k =>
      cases h
      exact congrArg Key.int (clampInt64_toInt k).symm
  | float x =>
      have hx : integerOfFloat? x = some i := h
      have hint : (Value.float x).int? = some (clampInt64 i) := by
        rw [Value.int?, hx, Option.map_some]
      simp only [ofValue, hint]
  | _ => cases h

theorem ofValue_of_no_integer {v : Value} {x : Float} (hx : v.float? = some x)
    (h : v.integer? = Option.none) : ofValue v = .float x ∧ integerOfFloat? x = Option.none := by
  cases v with
  | int k => cases h
  | float y =>
      cases hx
      have hint : (Value.float x).int? = Option.none := by
        rw [Value.int?, show integerOfFloat? x = Option.none from h, Option.map_none]
      exact ⟨by simp only [ofValue, hint], h⟩
  | _ => cases hx

/-- The keys of numbers are equal where their doubles are. -/
theorem ofValue_eq_iff_of_float? {a b : Value} {x y : Float} (hx : a.float? = some x)
    (hy : b.float? = some y) (hab : a.Comparable b) :
    ofValue a = ofValue b ↔ (x == y) = true := by
  rw [float_beq_iff (Value.isNaN_of_float? hx hab.notNaN_left)
    (Value.isNaN_of_float? hy hab.notNaN_right)]
  cases hi : a.integer? with
  | none =>
      obtain ⟨hkey, hnone⟩ := ofValue_of_no_integer hx hi
      rw [hkey]
      cases hj : b.integer? with
      | none =>
          rw [(ofValue_of_no_integer hy hj).1, Key.float.injEq]
          refine ⟨congrArg floatRank, fun heq => eq_of_floatRank heq fun hzero => ?_⟩
          rw [integerOfFloat?_of_rank_zero hzero] at hnone
          cases hnone
      | some j =>
          obtain ⟨j', hj', -⟩ := Value.exists_integer_of_integer? hy hj
          rw [ofValue_of_integer? hj]
          refine iff_of_false nofun fun heq => ?_
          rw [integerOfFloat?_congr heq, hj'] at hnone
          cases hnone
  | some i =>
      obtain ⟨i', hi', hsmall, hlarge⟩ := Value.exists_integer_of_integer? hx hi
      rw [ofValue_of_integer? hi]
      cases hj : b.integer? with
      | none =>
          obtain ⟨hkey, hnone⟩ := ofValue_of_no_integer hy hj
          rw [hkey]
          refine iff_of_false nofun fun heq => ?_
          rw [← integerOfFloat?_congr heq, hi'] at hnone
          cases hnone
      | some j =>
          obtain ⟨j', hj', hsmall', hlarge'⟩ := Value.exists_integer_of_integer? hy hj
          rw [ofValue_of_integer? hj, Key.int.injEq, ← Int64.toInt_inj, toInt_clampInt64,
            toInt_clampInt64, floatRank_eq_iff_of_integer hi' hj']
          rcases hab.exact i j hi hj with ⟨ha, hb⟩ | hbelow
          · obtain ⟨hsame, hword⟩ := ha.integer_and_word hx hi
            obtain ⟨hsame', hword'⟩ := hb.integer_and_word hy hj
            cases hi'.symm.trans hsame
            cases hj'.symm.trans hsame'
            simp only [inInt64, Bool.and_eq_true, decide_eq_true_eq] at hword hword'
            omega
          · omega

theorem ofValue_ne_float {v : Value} {x : Float} (hv : v.isNumber = false) :
    ofValue v ≠ ofValue (.float x) := by
  have hnumber : (∃ k, ofValue (.float x) = .int k) ∨ ofValue (.float x) = .float x := by
    cases h : (Value.float x).integer? with
    | some i => exact .inl ⟨_, ofValue_of_integer? h⟩
    | none => exact .inr (ofValue_of_no_integer rfl h).1
  rcases hnumber with ⟨k, hkey⟩ | hkey <;> rw [hkey]
  · cases v with
    | int j => cases hv
    | float y => cases hv
    | _ => nofun
  · cases v with
    | int j => cases hv
    | float y => cases hv
    | _ => nofun

end Key

/-- Keys are equal where values are. -/
theorem ofValue_eq_iff_equal {a b : Value} (hab : a.Comparable b) (h : Heap) :
    Key.ofValue a = Key.ofValue b ↔ h.equal a b = true := by
  have hnumbers {x y : Float} (hx : a.float? = some x) (hy : b.float? = some y)
      (hequal : h.equal a b = (x == y)) :
      Key.ofValue a = Key.ofValue b ↔ h.equal a b = true := by
    rw [hequal]
    exact Key.ofValue_eq_iff_of_float? hx hy hab
  cases a with
  | none =>
      cases b with
      | none => exact iff_of_true rfl rfl
      | float y => exact iff_of_false (Key.ofValue_ne_float rfl) Bool.false_ne_true
      | _ => exact iff_of_false nofun Bool.false_ne_true
  | bool c =>
      cases b with
      | bool d =>
          have hequal : h.equal (.bool c) (.bool d) =
              ((if c then (1 : Float) else 0) == if d then 1 else 0) := rfl
          rw [hequal]
          cases c <;> cases d <;> decide +kernel
      | int j => cases hab.number_right rfl
      | float y => cases hab.number_right rfl
      | _ => exact iff_of_false nofun Bool.false_ne_true
  | int i =>
      cases b with
      | bool d => cases hab.number_left rfl
      | int j => exact hnumbers rfl rfl rfl
      | float y => exact hnumbers rfl rfl rfl
      | _ => exact iff_of_false nofun Bool.false_ne_true
  | float x =>
      cases b with
      | bool d => cases hab.number_left rfl
      | int j => exact hnumbers rfl rfl rfl
      | float y => exact hnumbers rfl rfl rfl
      | _ => exact iff_of_false (Key.ofValue_ne_float rfl).symm Bool.false_ne_true
  | str s =>
      cases b with
      | str t =>
          have hequal : h.equal (.str s) (.str t) = (s == t) := rfl
          rw [hequal, beq_iff_eq]
          exact Key.str.injEq s t ▸ Iff.rfl
      | float y => exact iff_of_false (Key.ofValue_ne_float rfl) Bool.false_ne_true
      | _ => exact iff_of_false nofun Bool.false_ne_true
  | ref id =>
      cases b with
      | ref id' => rcases hab.scalar with hscalar | hscalar <;> cases hscalar
      | float y => exact iff_of_false (Key.ofValue_ne_float rfl) Bool.false_ne_true
      | _ => exact iff_of_false nofun Bool.false_ne_true

theorem ofValue_bool_eq_iff {c : Bool} {v : Value} :
    Key.ofValue (.bool c) = Key.ofValue v ↔ v = .bool c := by
  constructor
  · intro heq
    cases v with
    | bool d =>
        cases heq
        rfl
    | float x => exact absurd heq (Key.ofValue_ne_float rfl)
    | _ => cases heq
  · rintro rfl
    rfl

/-- What is stored under a value is found under the values that equal it. -/
theorem Heap.item?_setItem {h : Heap} {id : Nat} {d : Dict} (hid : h.get? id = some (.dict d))
    {a b : Value} (hab : a.Comparable b) (v : Value) :
    (h.setItem (.ref id) a v).item? (.ref id) b =
      if h.equal a b then some v else h.item? (.ref id) b := by
  have hset : (h.setItem (.ref id) a v).object? (.ref id) =
      some (.dict (d.insert (.ofValue a) v)) := (updates_setItem hid a v).get?_self
  have hold : h.object? (.ref id) = some (.dict d) := hid
  rw [item?, item?, hset, hold]
  simp only [OrderedMap.get?_insert, ← ofValue_eq_iff_equal hab h]
  exact if_congr eq_comm rfl rfl

theorem contains_iff_mem_keys {d : Dict} {key : Key} : d.contains key = true ↔ key ∈ d.keys := by
  rw [OrderedMap.contains, Option.isSome_iff_exists]
  constructor
  · rintro ⟨v, hv⟩
    exact List.mem_map.mpr ⟨_, OrderedMap.mem_entries_of_get? hv, rfl⟩
  · intro hmem
    by_contra! hnone
    exact OrderedMap.notMem_keys_of_get? (Option.eq_none_iff_forall_ne_some.mpr hnone) hmem

theorem ofValue_toValue (v : Value) : Key.ofValue (Key.ofValue v).toValue = Key.ofValue v := by
  cases v with
  | float x =>
      cases h : integerOfFloat? x with
      | some i =>
          rw [Key.ofValue_of_integer? (v := .float x) h]
          rfl
      | none =>
          have hkey := (Key.ofValue_of_no_integer (v := .float x) rfl h).1
          rw [hkey]
          exact hkey
  | _ => rfl

theorem any_equal_iff {h : Heap} {keys : List Key} {b : Value}
    (hkeys : ∀ k ∈ keys, (∃ v, k = Key.ofValue v) ∧ k.toValue.Comparable b) :
    (keys.map Key.toValue).any (fun v => h.equal v b) = true ↔ Key.ofValue b ∈ keys := by
  have hkey (k : Key) (hk : k ∈ keys) : h.equal k.toValue b = true ↔ k = Key.ofValue b := by
    obtain ⟨⟨v, rfl⟩, hcomparable⟩ := hkeys k hk
    rw [← ofValue_eq_iff_equal hcomparable, ofValue_toValue]
  rw [List.any_map, List.any_eq_true]
  constructor
  · rintro ⟨k, hk, hequal⟩
    exact (hkey k hk).mp hequal ▸ hk
  · intro hmem
    exact ⟨_, hmem, (hkey _ hmem).mpr rfl⟩

/-- The dictionary has the keys that its list of keys has. -/
theorem outcome_contains {m : Machine} {id list : Nat} {d : Dict} {b : Value}
    (hid : m.heap.get? id = some (.dict d))
    (hlist : m.heap.get? list = some (.list (d.keys.map Key.toValue)))
    (hkeys : ∀ k ∈ d.keys, (∃ v, k = Key.ofValue v) ∧ k.toValue.Comparable b) :
    (Builtin.contains (.ref id) b).outcome m = (.ok (.bool (d.contains (.ofValue b))), m) ∧
      (Builtin.contains (.ref list) b).outcome m = (.ok (.bool (d.contains (.ofValue b))), m) := by
  have hdict : m.heap.dict? (.ref id) = some d := by
    rw [Heap.dict?, Heap.object?, Value.ref?, Option.bind_some, hid]
  have hnone : m.heap.dict? (.ref list) = none := by
    rw [Heap.dict?, Heap.object?, Value.ref?, Option.bind_some, hlist]
  have hitems : m.heap.items? (.ref list) = some (d.keys.map Key.toValue) := by
    rw [Heap.items?, Heap.object?, Value.ref?, Option.bind_some, hlist]
  have hany : (d.keys.map Key.toValue).any (fun v => m.heap.equal v b) =
      d.contains (.ofValue b) := by
    rw [Bool.eq_iff_iff, contains_iff_mem_keys, any_equal_iff hkeys]
  constructor
  · rw [Builtin.contains, Exec.outcome_bind_ok (Exec.outcome_heap m)]
    simp only [hdict]
    rfl
  · rw [Builtin.contains, Exec.outcome_bind_ok (Exec.outcome_heap m)]
    simp only [hnone, hitems, hany]
    rfl

/-- A truth value equals the integer of its name and has another key. -/
theorem not_keys_agree_with_truth_values :
    ¬∀ (a b : Value) (h : Heap), a.ref? = none → b.ref? = none → a.isNaN = false →
      b.isNaN = false → (Key.ofValue a = Key.ofValue b ↔ h.equal a b = true) := by
  intro hagree
  have hequal : Heap.equal {} (.bool true) (.int 1) = true := by decide +kernel
  have hkeys := (hagree (.bool true) (.int 1) {} rfl rfl rfl rfl).mpr hequal
  cases hkeys

/-- The keys of dictionaries agree with equality: a value is found where an equal one was stored,
and a dictionary has the keys that the list of its keys has. A truth value is only found where it
was stored itself. -/
theorem keys_agree_with_equality :
    (∀ (a b : Value) (h : Heap), a.Comparable b →
      (Key.ofValue a = Key.ofValue b ↔ h.equal a b = true) ∧
      ∀ id d v, h.get? id = some (.dict d) → (h.setItem (.ref id) a v).item? (.ref id) b =
        if h.equal a b then some v else h.item? (.ref id) b) ∧
    (∀ (c : Bool) (v : Value), Key.ofValue (.bool c) = Key.ofValue v ↔ v = .bool c) ∧
    ∀ (m : Machine) (id list : Nat) (d : Dict) (b : Value), m.heap.get? id = some (.dict d) →
      m.heap.get? list = some (.list (d.keys.map Key.toValue)) →
      (∀ k ∈ d.keys, (∃ v, k = Key.ofValue v) ∧ k.toValue.Comparable b) → ∃ found,
        (Builtin.contains (.ref id) b).outcome m = (.ok (.bool found), m) ∧
        (Builtin.contains (.ref list) b).outcome m = (.ok (.bool found), m) := by
  refine ⟨fun a b h hab => ⟨ofValue_eq_iff_equal hab h, fun id d v hid => ?_⟩,
    fun c v => ofValue_bool_eq_iff, fun m id list d b hid hlist hkeys => ?_⟩
  · exact Heap.item?_setItem hid hab v
  · exact ⟨_, outcome_contains hid hlist hkeys⟩

namespace Ones

/-- A dictionary with the key 1, and the list of its keys. -/
def machine : Machine where
  heap := ⟨#[.dict ⟨[(.int 1, .str "one")]⟩, .list [.int 1]]⟩

theorem comparable : (Value.int 1).Comparable (.float 1) where
  scalar := .inl rfl
  notNaN_left := rfl
  notNaN_right := by decide +kernel
  number_left _ := rfl
  number_right _ := rfl
  exact i _ hi _ := by
    cases hi
    exact .inr (.inl (by decide +kernel))

end Ones

theorem keys_agree_with_equality_of_ones :
    (Value.int 1).Comparable (.float 1) ∧ Key.ofValue (.int 1) = Key.ofValue (.float 1) ∧
    Ones.machine.heap.item? (.ref 0) (.float 1) = some (.str "one") ∧
    (Ones.machine.heap.setItem (.ref 0) (.int 1) (.str "two")).item? (.ref 0) (.float 1) =
      some (.str "two") ∧
    ∃ found, (Builtin.contains (.ref 0) (.float 1)).outcome Ones.machine =
        (.ok (.bool found), Ones.machine) ∧
      (Builtin.contains (.ref 1) (.float 1)).outcome Ones.machine =
        (.ok (.bool found), Ones.machine) := by
  obtain ⟨hvalues, -, hcontains⟩ := keys_agree_with_equality
  obtain ⟨hkeys, hitem⟩ := hvalues _ _ Ones.machine.heap Ones.comparable
  have hequal : Ones.machine.heap.equal (.int 1) (.float 1) = true := by decide +kernel
  refine ⟨Ones.comparable, hkeys.mpr hequal, by decide +kernel, ?_, ?_⟩
  · rw [hitem 0 _ _ rfl, hequal]
    rfl
  · refine hcontains _ 0 1 _ _ rfl rfl fun k hk => ?_
    cases List.mem_singleton.mp hk
    exact ⟨⟨.int 1, rfl⟩, Ones.comparable⟩

end ModelGraph
