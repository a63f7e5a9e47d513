import ModelGraph.Machine.Standard
import ModelGraph.Proofs.Machine.Outcome

/-!
# Items and slices of lists

An item of a list can be set where it can be read, and right behind the end, but not by an index
that counts from the end. What is set is read again, and the other items stay. Where no item can be
set, an assignment fails, while the function for it passes the failure over.

A slice has the items at the places between two bounds, of which negative ones count from the end. It
is a new list, or a part of a text by its characters.
-/

namespace ModelGraph

namespace Value

theorem size?_eq_some_iff {v : Value} {n : Nat} :
    v.size? = some n ↔ ∃ i, v.int? = some i ∧ i.toInt = n := by
  unfold size? sizeOfInt64?
  rw [Option.bind_eq_some_iff]
  refine exists_congr fun i => and_congr_right fun _ => ?_
  split_ifs with hi
  · rw [Option.some.injEq]
    omega
  · exact iff_of_false nofun (by omega)

end Value

namespace Heap

variable {h : Heap} {id : Nat} {items : List Value}

theorem modify_of_fixed {o : Object} {change : Object → Object} (hid : h.get? id = some o)
    (hchange : change o = o) : h.modify id change = h := by
  refine congrArg Heap.mk (Array.ext_getElem? fun other => ?_)
  have hget := h.get?_modify id other change
  rw [hid, Option.map_some, hchange, ← hid] at hget
  split_ifs at hget with heq
  · rw [← heq] at hget ⊢
    exact hget
  · exact hget

theorem place?_of_nonneg {i : Int64} (hi : 0 ≤ i.toInt) (length : Nat) :
    place? length i = some i.toInt.toNat :=
  if_pos hi

theorem item?_list (hid : h.get? id = some (.list items)) (index : Value) :
    h.item? (.ref id) index = (index.int?.bind (place? items.length)).bind (items[·]?) := by
  have hobject : h.object? (.ref id) = some (.list items) := hid
  rw [item?, hobject]

/-- The item at a size that an index gives. -/
theorem item?_list_of_size? (hid : h.get? id = some (.list items)) {index : Value} {n : Nat}
    (hn : index.size? = some n) : h.item? (.ref id) index = items[n]? := by
  obtain ⟨i, hi, heq⟩ := Value.size?_eq_some_iff.mp hn
  rw [item?_list hid, hi, Option.bind_some, place?_of_nonneg (by omega), Option.bind_some, heq]
  rfl

theorem takesItem_list_iff (hid : h.get? id = some (.list items)) (index : Value) :
    h.takesItem (.ref id) index = true ↔ ∃ n, index.size? = some n ∧ n ≤ items.length := by
  have hobject : h.object? (.ref id) = some (.list items) := hid
  rw [takesItem, hobject]
  simp [Option.any_eq_true]

/-- A list with an item set at a place, or added at its end. -/
def placed (items : List Value) (n : Nat) (v : Value) : List Value :=
  if n = items.length then items ++ [v] else items.set n v

theorem getElem?_placed {n : Nat} (hn : n ≤ items.length) (v : Value) (p : Nat) :
    (placed items n v)[p]? = if p = n then some v else items[p]? := by
  unfold placed
  split_ifs with hend hp hp
  · simp [hp, hend]
  · rw [List.getElem?_append]
    split_ifs with hlt
    · rfl
    · have hbeyond : items.length < p := by omega
      simp [List.getElem?_eq_none (Nat.le_of_lt hbeyond)]
      omega
  · rw [hp, List.getElem?_set_self (by omega)]
  · rw [List.getElem?_set_ne (Ne.symm hp)]

theorem updates_setItem_list (hid : h.get? id = some (.list items)) {index : Value} {n : Nat}
    (hn : index.size? = some n) (v : Value) :
    h.Updates id (.list (placed items n v)) (h.setItem (.ref id) index v) := by
  refine updates_modify hid ?_
  simp only [hn]
  rfl

theorem setItem_list_of_not_takes (hid : h.get? id = some (.list items)) {index : Value}
    (hindex : h.takesItem (.ref id) index = false) (v : Value) :
    h.setItem (.ref id) index v = h := by
  refine modify_of_fixed hid ?_
  cases hn : index.size? with
  | none => rfl
  | some n =>
      have hlarge : items.length < n := Nat.lt_of_not_le fun hle => by
        rw [(takesItem_list_iff hid index).mpr ⟨n, hn, hle⟩] at hindex
        cases hindex
      simp [Nat.ne_of_gt hlarge, List.set_eq_of_length_le (Nat.le_of_lt hlarge)]

theorem describe_list (hid : h.get? id = some (.list items)) :
    h.describe (.ref id) = "list[" ++ toString items.length ++ "]" := by
  simp only [describe, hid]

/-- An item can be set where it can be read by an index that is not negative, and at the end. -/
theorem takesItem_list_iff_item? (hid : h.get? id = some (.list items)) (index : Value) :
    h.takesItem (.ref id) index = true ↔ ∃ i, index.int? = some i ∧ 0 ≤ i.toInt ∧
      (i.toInt = items.length ∨ (h.item? (.ref id) index).isSome) := by
  rw [takesItem_list_iff hid]
  constructor
  · rintro ⟨n, hn, hle⟩
    obtain ⟨i, hi, heq⟩ := Value.size?_eq_some_iff.mp hn
    refine ⟨i, hi, by omega, ?_⟩
    rcases Nat.eq_or_lt_of_le hle with hend | hlt
    · exact .inl (by omega)
    · right
      rw [item?_list_of_size? hid hn, List.getElem?_eq_getElem hlt]
      rfl
  · rintro ⟨i, hi, hpos, hplace⟩
    have hn : index.size? = some i.toInt.toNat := Value.size?_eq_some_iff.mpr ⟨i, hi, by omega⟩
    refine ⟨_, hn, ?_⟩
    rcases hplace with hend | hread
    · omega
    · obtain ⟨u, hu⟩ := Option.isSome_iff_exists.mp hread
      rw [item?_list_of_size? hid hn] at hu
      obtain ⟨hlt, -⟩ := List.getElem?_eq_some_iff.mp hu
      omega

end Heap

/-! ## Assignments -/

open Exec

/-- An assignment to an item fails where none can be set. -/
theorem Host.outcome_assignTo_subscript {host : Host} {scope : Scope} {target key : Script.Expr}
    {m₀ m₁ m : Machine} {container index : Value}
    (hcontainer : (host.assignedContainer target scope).outcome m₀ = (.ok container, m₁))
    (hindex : (host.evaluate key scope).outcome m₁ = (.ok index, m)) (v : Value) :
    (host.assignTo scope (.subscript target [key]) v).outcome m₀ =
      if m.heap.takesItem container index then
        (.ok (), m.withHeap (m.heap.setItem container index v))
      else (.error (.type (.itemAssignment (m.heap.describe container))), m) := by
  unfold Host.assignTo
  rw [outcome_bind_ok hcontainer, outcome_bind_ok hindex, outcome_bind_ok (outcome_heap m)]
  split_ifs <;> rfl

/-- How the items of a list are set: where, what is read afterwards, and what becomes of a failure in
an assignment and in the function that sets an item. -/
theorem outcome_assign_listItem {m : Machine} {id : Nat} {items : List Value}
    (hid : m.heap.get? id = some (.list items)) (index v : Value) :
    (m.heap.takesItem (.ref id) index = true ↔ ∃ i, index.int? = some i ∧ 0 ≤ i.toInt ∧
      (i.toInt = items.length ∨ (m.heap.item? (.ref id) index).isSome)) ∧
    (m.heap.takesItem (.ref id) index = true → ∃ n items', index.size? = some n ∧
      m.heap.Updates id (.list items') (m.heap.setItem (.ref id) index v) ∧
      (m.heap.setItem (.ref id) index v).item? (.ref id) index = some v ∧
      ∀ p, p ≠ n → items'[p]? = items[p]?) ∧
    (m.heap.takesItem (.ref id) index = false → m.heap.setItem (.ref id) index v = m.heap) ∧
    (∀ (host : Host) (scope : Scope) (target key : Script.Expr) (m₀ m₁ : Machine),
      (host.assignedContainer target scope).outcome m₀ = (.ok (.ref id), m₁) →
      (host.evaluate key scope).outcome m₁ = (.ok index, m) →
      (host.assignTo scope (.subscript target [key]) v).outcome m₀ =
        if m.heap.takesItem (.ref id) index then
          (.ok (), m.withHeap (m.heap.setItem (.ref id) index v))
        else (.error (.type (.itemAssignment ("list[" ++ toString items.length ++ "]"))), m)) ∧
    ("torch._set_item", .setItem) ∈ builtinFunctions ∧
    ∀ host : Host, (host.primitive .setItem [.ref id, index, v]).outcome m =
      (.ok .none, m.withHeap (m.heap.setItem (.ref id) index v)) := by
  refine ⟨Heap.takesItem_list_iff_item? hid index, fun htakes => ?_,
    fun htakes => Heap.setItem_list_of_not_takes hid htakes v,
    fun host scope target key m₀ m₁ hcontainer hindex => ?_, by simp [builtinFunctions],
    fun host => rfl⟩
  · obtain ⟨n, hn, hle⟩ := (Heap.takesItem_list_iff hid index).mp htakes
    have hset := Heap.updates_setItem_list hid hn v
    refine ⟨n, _, hn, hset, ?_, fun p hp => by rw [Heap.getElem?_placed hle, if_neg hp]⟩
    rw [Heap.item?_list_of_size? hset.get?_self hn, Heap.getElem?_placed hle, if_pos rfl]
  · rw [Host.outcome_assignTo_subscript hcontainer hindex, Heap.describe_list hid]

namespace Listed

/-- A scope with a list of two items. -/
def machine : Machine where
  heap := ⟨#[.namespace { fields := ⟨[("x", .ref 1)]⟩ }, .list [.int 1, .int 2]]⟩

end Listed

/-- The last item is read by the index -1 and not set by it. -/
theorem outcome_assign_listItem_fromEnd :
    Listed.machine.heap.get? 1 = some (.list [.int 1, .int 2]) ∧
    Listed.machine.heap.item? (.ref 1) (.int (-1)) = some (.int 2) ∧
    ((Host.ofDepth 1).assignTo [0] (.subscript (.id "x") [.int (-1)]) (.int 3)).outcome
      Listed.machine = (.error (.type (.itemAssignment "list[2]")), Listed.machine) ∧
    (Host.standard.primitive .setItem [.ref 1, .int (-1), .int 3]).outcome Listed.machine =
      (.ok .none, Listed.machine) := by
  have hid : Listed.machine.heap.get? 1 = some (.list [.int 1, .int 2]) := rfl
  have htakes : Listed.machine.heap.takesItem (.ref 1) (.int (-1)) = false := rfl
  obtain ⟨-, -, hkeeps, hassign, -, hfunction⟩ := outcome_assign_listItem hid (.int (-1)) (.int 3)
  refine ⟨hid, rfl, ?_, ?_⟩
  · rw [hassign (Host.ofDepth 1) [0] (.id "x") (.int (-1)) Listed.machine Listed.machine rfl rfl,
      htakes]
    rfl
  · rw [hfunction, hkeeps htakes]
    rfl

/-! ## Slices -/

section Slices

variable {α : Type}

/-- Where a bound of a slice lies: a negative one counts from the end, and none lies outside. -/
def sliceBound (length : Nat) (bound : Int64) : Int :=
  max 0 (min length (if bound < 0 then bound.toInt + length else bound.toInt))

/-- The items at the places between two bounds. -/
def sliced (items : List α) (start stop : Int64) : List α :=
  (items.zipIdx.filter fun p =>
    sliceBound items.length start ≤ p.2 ∧ p.2 < sliceBound items.length stop).map (·.1)

theorem clampBound_eq (length : Nat) (bound : Int64) :
    (Builtin.clampBound length bound.toInt : Int) = sliceBound length bound := by
  simp only [Builtin.clampBound, sliceBound, Int64.lt_iff_toInt_lt, Int64.toInt_zero]
  split_ifs <;> omega

/-- The items at the places from the first to before the last, where places count from `start`. -/
theorem map_filter_zipIdx (items : List α) (start first last : Nat) :
    ((items.zipIdx start).filter fun p => start + first ≤ p.2 ∧ p.2 < start + last).map (·.1) =
      (items.drop first).take (last - first) := by
  induction items generalizing start first last with
  | nil => simp
  | cons item items ih =>
      have hbeyond : ∀ p ∈ items.zipIdx (start + 1), start + 1 ≤ p.2 := fun _ =>
        List.le_snd_of_mem_zipIdx
      have hrest (first' last' : Nat) (h : ∀ n, start + 1 ≤ n →
          (start + first ≤ n ∧ n < start + last ↔ start + 1 + first' ≤ n ∧ n < start + 1 + last')) :
          ((items.zipIdx (start + 1)).filter
            fun p => start + first ≤ p.2 ∧ p.2 < start + last).map (·.1) =
          (items.drop first').take (last' - first') := by
        rw [← ih (start + 1) first' last']
        congr 1
        exact List.filter_congr fun p hp => decide_eq_decide.mpr (h p.2 (hbeyond p hp))
      rw [List.zipIdx_cons]
      cases first with
      | zero =>
          cases last with
          | zero =>
              rw [List.filter_cons_of_neg (by simp), hrest 0 0 (by omega)]
              simp
          | succ last =>
              rw [List.filter_cons_of_pos (by simp), List.map_cons, hrest 0 last (by omega)]
              simp
      | succ first =>
          have hbefore : ¬ (start + (first + 1) ≤ start ∧ start < start + last) := by omega
          rw [List.filter_cons_of_neg (by rw [decide_eq_true_eq]; exact hbefore),
            hrest first (last - 1) (by omega), List.drop_succ_cons]
          congr 1
          omega

theorem between_eq_sliced (items : List α) (start stop : Int64) :
    Builtin.between items (some start.toInt) (some stop.toInt) = sliced items start stop := by
  have hplaces := map_filter_zipIdx items 0 (Builtin.clampBound items.length start.toInt)
    (Builtin.clampBound items.length stop.toInt)
  simp only [Nat.zero_add] at hplaces
  rw [sliced, ← clampBound_eq, ← clampBound_eq]
  simp only [Int.ofNat_le, Int.ofNat_lt]
  exact hplaces.symm

/-- Two slices that meet at a bound are the whole, if the largest word is past the end. -/
theorem sliced_append_sliced (items : List α) (hlength : items.length ≤ Int64.maxValue.toInt)
    (bound : Int64) :
    sliced items 0 bound ++ sliced items bound Int64.maxValue = items := by
  have hfirst : Builtin.clampBound items.length (0 : Int64).toInt = 0 := by
    simp [Builtin.clampBound]
  have hlast : Builtin.clampBound items.length Int64.maxValue.toInt = items.length := by
    rw [Builtin.clampBound, if_neg (by decide)]
    omega
  have hrest : (items.drop (Builtin.clampBound items.length bound.toInt)).take
      (items.length - Builtin.clampBound items.length bound.toInt) =
        items.drop (Builtin.clampBound items.length bound.toInt) :=
    List.take_of_length_le (Nat.le_of_eq List.length_drop)
  simp only [← between_eq_sliced, Builtin.between, Option.getD_some, hfirst, hlast]
  rw [hrest, List.drop_zero, Nat.sub_zero, List.take_append_drop]

end Slices

theorem outcome_slice_str (s : String) (start stop : Int64) (m : Machine) :
    (Builtin.slice (.str s) (.int start) (.int stop) (.int 1)).outcome m =
      (.ok (.str (String.ofList (sliced s.toList start stop))), m) := by
  rw [← between_eq_sliced]
  rfl

theorem outcome_slice_list {id : Nat} {items : List Value} {m : Machine}
    (hid : m.heap.get? id = some (.list items)) (start stop : Int64) :
    (Builtin.slice (.ref id) (.int start) (.int stop) (.int 1)).outcome m =
      (.ok (.ref m.heap.size), m.withHeap (m.heap.push (.list (sliced items start stop)))) := by
  have hobject : m.heap.object? (.ref id) = some (.list items) := hid
  have hitems : m.heap.items? (.ref id) = some items := by rw [Heap.items?, hobject]
  rw [← between_eq_sliced, Builtin.slice, outcome_bind_ok (outcome_heap m)]
  simp only [hitems]
  rfl

/-- Slices of texts and lists: the items at the places between two bounds, in a new list. No place is
outside, bounds that are left out are the first and the largest word, and two slices that meet are the
whole. -/
theorem outcome_slice (start stop : Int64) :
    ("torch.slice", .tensorSlice) ∈ builtinFunctions ∧
    (∀ (target : Script.Expr) (start? stop? : Option Int64),
      Script.subscriptOf? target [.slice (start?.map .int) (stop?.map .int) none] =
        .ok (.callOf "torch.slice"
          [target, .int (start?.getD 0), .int (stop?.getD Int64.maxValue), .int 1])) ∧
    (∀ (length : Nat) (bound : Int64), Builtin.clampBound length bound.toInt ≤ length ∧
      (Builtin.clampBound length bound.toInt : Int) = sliceBound length bound) ∧
    (∀ (host : Host) (m : Machine) (s : String),
      (host.primitive .tensorSlice [.str s, .int start, .int stop, .int 1]).outcome m =
        (.ok (.str (String.ofList (sliced s.toList start stop))), m)) ∧
    (∀ (host : Host) (m : Machine) (id : Nat) (items : List Value),
      m.heap.get? id = some (.list items) →
      (host.primitive .tensorSlice [.ref id, .int start, .int stop, .int 1]).outcome m =
        (.ok (.ref m.heap.size), m.withHeap (m.heap.push (.list (sliced items start stop)))) ∧
      m.heap.get? m.heap.size = none ∧
      (m.heap.push (.list (sliced items start stop))).get? id = some (.list items)) ∧
    ∀ (α : Type) (items : List α), items.length ≤ Int64.maxValue.toInt → ∀ bound : Int64,
      sliced items 0 bound ++ sliced items bound Int64.maxValue = items := by
  refine ⟨by simp [builtinFunctions], fun target start? stop? => ?_,
    fun length bound => ⟨Nat.min_le_left _ _, clampBound_eq length bound⟩,
    fun host m s => outcome_slice_str s start stop m,
    fun host m id items hid => ⟨outcome_slice_list hid start stop, Array.getElem?_size,
      Heap.extends_push _ _ hid⟩,
    fun α items hlength bound => sliced_append_sliced items hlength bound⟩
  cases start? <;> cases stop? <;> rfl

/-- The last two characters of a text, and the last item of a list. -/
theorem outcome_slice_fromEnd :
    (Host.standard.primitive .tensorSlice [.str "aéb", .int (-2), .int 7, .int 1]).outcome
      Listed.machine = (.ok (.str "éb"), Listed.machine) ∧
    Listed.machine.heap.get? 1 = some (.list [.int 1, .int 2]) ∧
    (Host.standard.primitive .tensorSlice [.ref 1, .int (-1), .int Int64.maxValue, .int 1]).outcome
      Listed.machine = (.ok (.ref 2), Listed.machine.withHeap
        (Listed.machine.heap.push (.list [.int 2]))) ∧
    ["a", "b", "c"].length ≤ Int64.maxValue.toInt ∧
    sliced ["a", "b", "c"] 0 (-1) ++ sliced ["a", "b", "c"] (-1) Int64.maxValue =
      ["a", "b", "c"] := by
  have hid : Listed.machine.heap.get? 1 = some (.list [.int 1, .int 2]) := rfl
  obtain ⟨-, -, -, htext, -, hjoined⟩ := outcome_slice (-2) 7
  obtain ⟨-, -, -, -, hlist, -⟩ := outcome_slice (-1) Int64.maxValue
  exact ⟨htext Host.standard Listed.machine "aéb", hid,
    (hlist Host.standard Listed.machine 1 _ hid).1, by decide,
    hjoined String ["a", "b", "c"] (by decide) (-1)⟩

end ModelGraph
