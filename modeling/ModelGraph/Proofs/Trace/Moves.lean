import ModelGraph.Proofs.Machine.Outcome
import ModelGraph.Proofs.Number.Numeral
import ModelGraph.Trace.Match

/-!
# What happens under a trace

Under a trace a machine does two things beside what a script does without it. It names values: names
of objects stay, and new ones are given names, or numbers that count on. And it records calls: the
uses of their inputs are counted, and their outputs have the numbers that were given in between.
`Machine.Records` says so of two machines; whatever holds of a trace is derived from it.
-/

namespace ModelGraph

namespace Heap

/-- The name of an instance in the graph. -/
def nameOf? (h : Heap) (id : Nat) : Option String := (h.tag? id).bind (·.name?)

/-- How many uses of an instance have been counted. -/
def countOf (h : Heap) (id : Nat) : Nat := ((h.tag? id).map (·.count)).getD 0

theorem nameOf?_eq_none_of_tag? {h : Heap} {id : Nat} (hid : h.tag? id = none) :
    h.nameOf? id = none := by
  rw [nameOf?, hid]
  rfl

theorem Grows.nameOf?_eq {h h' : Heap} (hgrows : h.Grows True h') (id : Nat) :
    h'.nameOf? id = h.nameOf? id := by
  rcases Nat.lt_or_ge id h.size with hold | hnew
  · rw [nameOf?, hgrows.tag?_of_lt hold, nameOf?]
  · rw [nameOf?_eq_none_of_tag? (tag?_eq_none_of_le hnew), nameOf?]
    rcases htag : h'.tag? id with _ | tag
    · rfl
    · rw [hgrows.tag?_new hnew htag]
      rfl

theorem Grows.countOf_eq {h h' : Heap} (hgrows : h.Grows True h') (id : Nat) :
    h'.countOf id = h.countOf id := by
  rcases Nat.lt_or_ge id h.size with hold | hnew
  · rw [countOf, hgrows.tag?_of_lt hold, countOf]
  · rw [countOf, countOf, tag?_eq_none_of_le hnew]
    rcases htag : h'.tag? id with _ | tag
    · rfl
    · rw [hgrows.tag?_new hnew htag]
      rfl

theorem tag?_modifyTag (h : Heap) (id other : Nat) (change : Tag → Tag) :
    (h.modifyTag id change).tag? other =
      if id = other then (h.tag? other).map change else h.tag? other := by
  rw [modifyTag, tag?_modify]
  split_ifs with heq
  · rw [← heq, tag?_eq]
    rcases h.get? id with _ | o
    · rfl
    · cases o <;> rfl
  · rfl

theorem nameOf?_push (h : Heap) (o : Object) (id : Nat) :
    (h.push o).nameOf? id = if id = h.size then o.tag?.bind (·.name?) else h.nameOf? id := by
  rw [nameOf?, tag?_push]
  split_ifs <;> rfl

theorem countOf_push {h : Heap} {o : Object} (ho : ∀ t, o.tag? = some t → t.count = 0) (id : Nat) :
    (h.push o).countOf id = h.countOf id := by
  rw [countOf, tag?_push]
  split_ifs with heq
  · rw [countOf, heq, tag?_eq_none_of_le (Nat.le_refl _)]
    rcases htag : o.tag? with _ | t
    · rfl
    · exact ho t htag
  · rfl

theorem nameOf?_modifyTag_of_ne {h : Heap} {id other : Nat} (hne : other ≠ id)
    (change : Tag → Tag) : (h.modifyTag id change).nameOf? other = h.nameOf? other := by
  rw [nameOf?, tag?_modifyTag, if_neg (Ne.symm hne), nameOf?]

@[simp] theorem size_modifyTag (h : Heap) (id : Nat) (change : Tag → Tag) :
    (h.modifyTag id change).size = h.size :=
  h.size_modify id _

end Heap

/-! ## Numbers -/

/-- The names are the numbers after the first bound up to the second, some left out, in order. -/
def Numbered (low high : Nat) (names : List String) : Prop :=
  ∃ ks : List Nat, names = ks.map toString ∧ ks.Pairwise (· < ·) ∧ ∀ k ∈ ks, low < k ∧ k ≤ high

namespace Numbered

theorem nil (low high : Nat) : Numbered low high [] := ⟨[], rfl, .nil, by simp⟩

theorem singleton (low : Nat) : Numbered low (low + 1) [toString (low + 1)] :=
  ⟨[low + 1], rfl, List.pairwise_singleton _ _, by simp⟩

theorem append {low middle high : Nat} {first second : List String}
    (hfirst : Numbered low middle first) (hsecond : Numbered middle high second)
    (hlow : low ≤ middle) (hhigh : middle ≤ high) : Numbered low high (first ++ second) := by
  obtain ⟨ks, rfl, hks, hbound⟩ := hfirst
  obtain ⟨ls, rfl, hls, hbound'⟩ := hsecond
  refine ⟨ks ++ ls, List.map_append.symm, List.pairwise_append.mpr ⟨hks, hls, fun k hk l hl => ?_⟩,
    fun k hk => ?_⟩
  · exact Nat.lt_of_le_of_lt (hbound k hk).2 (hbound' l hl).1
  · rcases List.mem_append.mp hk with hk | hk
    · exact ⟨(hbound k hk).1, Nat.le_trans (hbound k hk).2 hhigh⟩
    · exact ⟨Nat.lt_of_le_of_lt hlow (hbound' k hk).1, (hbound' k hk).2⟩

end Numbered

/-- The values that a call consumes and those it gives. -/
def TracedCall.values (call : TracedCall) : List TracedValue :=
  call.consumed ++ call.outputs.flatten

theorem TracedCall.mem_values_of_consumed {call : TracedCall} {v : TracedValue}
    (hv : v ∈ call.consumed) : v ∈ call.values :=
  List.mem_append_left _ hv

namespace Machine

/-- The calls of the trace under way. -/
def calls (m : Machine) : List TracedCall := (m.tracer?.map (·.calls)).getD []

/-- How many numbers the trace under way has given. -/
def minted (m : Machine) : Nat := (m.tracer?.map (·.minted)).getD 0

/-- The machine with a number more given. -/
def mint (m : Machine) : Machine :=
  { m with tracer? := m.tracer?.map fun t => { t with minted := t.minted + 1 } }

/-- The machine after a call is recorded: each use of an input is counted. -/
def record (m : Machine) (call : TracedCall) : Machine :=
  { m with
    heap := call.consumed.foldl
      (fun h v => h.modifyTag v.object fun t => { t with count := t.count + 1 }) m.heap
    tracer? := m.tracer?.map fun t => { t with calls := t.calls ++ [call] } }

/-- Between the machines values are named: those without a name get a number given in between, or one
of the given names. -/
structure Names (given : String → Prop) (m m' : Machine) : Prop where
  traced : m'.tracer?.isSome = m.tracer?.isSome
  calls_eq : m'.calls = m.calls
  minted_le : m.minted ≤ m'.minted
  size_le : m.heap.size ≤ m'.heap.size
  tag_isSome : ∀ {id}, id < m.heap.size → (m'.heap.tag? id).isSome = (m.heap.tag? id).isSome
  count_eq : ∀ id, m'.heap.countOf id = m.heap.countOf id
  name_kept : ∀ {id name}, m.heap.nameOf? id = some name → m'.heap.nameOf? id = some name
  name_new : ∀ {id name}, m.heap.nameOf? id = none → m'.heap.nameOf? id = some name →
    given name ∨ ∃ k, m.minted < k ∧ k ≤ m'.minted ∧ name = toString k
  number_injective : ∀ {id id' name}, m.heap.nameOf? id = none → m.heap.nameOf? id' = none →
    m'.heap.nameOf? id = some name → m'.heap.nameOf? id' = some name → ¬given name → id = id'

namespace Names

variable {given : String → Prop} {m m' m'' : Machine}

theorem of_grows (htracer : m'.tracer? = m.tracer?) (hgrows : m.heap.Grows True m'.heap) :
    m.Names given m' where
  traced := by rw [htracer]
  calls_eq := by rw [calls, htracer, calls]
  minted_le := by simp only [minted, htracer, Nat.le_refl]
  size_le := hgrows.size_le
  tag_isSome hid := by rw [hgrows.tag?_of_lt hid]
  count_eq := hgrows.countOf_eq
  name_kept hname := by rw [hgrows.nameOf?_eq, hname]
  name_new hnone hname := by
    rw [hgrows.nameOf?_eq, hnone] at hname
    contradiction
  number_injective hnone _ hname := by
    rw [hgrows.nameOf?_eq, hnone] at hname
    contradiction

theorem refl (m : Machine) : m.Names given m := of_grows rfl (.refl m.heap)

theorem trans (first : m.Names given m') (second : m'.Names given m'') : m.Names given m'' where
  traced := second.traced.trans first.traced
  calls_eq := second.calls_eq.trans first.calls_eq
  minted_le := Nat.le_trans first.minted_le second.minted_le
  size_le := Nat.le_trans first.size_le second.size_le
  tag_isSome hid :=
    (second.tag_isSome (Nat.lt_of_lt_of_le hid first.size_le)).trans (first.tag_isSome hid)
  count_eq id := (second.count_eq id).trans (first.count_eq id)
  name_kept hname := second.name_kept (first.name_kept hname)
  name_new {id name} hnone hname := by
    rcases hmid : m'.heap.nameOf? id with _ | name'
    · rcases second.name_new hmid hname with hgiven | ⟨k, hlow, hhigh, rfl⟩
      · exact .inl hgiven
      · exact .inr ⟨k, Nat.lt_of_le_of_lt first.minted_le hlow, hhigh, rfl⟩
    · obtain rfl : name' = name := Option.some.inj ((second.name_kept hmid).symm.trans hname)
      rcases first.name_new hnone hmid with hgiven | ⟨k, hlow, hhigh, rfl⟩
      · exact .inl hgiven
      · exact .inr ⟨k, hlow, Nat.le_trans hhigh second.minted_le, rfl⟩
  number_injective {id id' name} hnone hnone' hname hname' hgiven := by
    -- A number given by the first half is not above the bound of the second.
    have hclash {id id' : Nat} (hnone : m.heap.nameOf? id = none) {name' : String}
        (hmid : m'.heap.nameOf? id = some name') (hname : m''.heap.nameOf? id = some name)
        (hmid' : m'.heap.nameOf? id' = none) (hname' : m''.heap.nameOf? id' = some name) : False := by
      obtain rfl : name' = name := Option.some.inj ((second.name_kept hmid).symm.trans hname)
      obtain ⟨k, -, hk, rfl⟩ := (first.name_new hnone hmid).resolve_left hgiven
      obtain ⟨l, hl, -, heq⟩ := (second.name_new hmid' hname').resolve_left hgiven
      rw [toString_inj.mp heq] at hk
      exact Nat.not_le_of_lt hl hk
    rcases hmid : m'.heap.nameOf? id with _ | first_name
    · rcases hmid' : m'.heap.nameOf? id' with _ | second_name
      · exact second.number_injective hmid hmid' hname hname' hgiven
      · exact (hclash hnone' hmid' hname' hmid hname).elim
    · rcases hmid' : m'.heap.nameOf? id' with _ | second_name
      · exact (hclash hnone hmid hname hmid' hname').elim
      · obtain rfl := Option.some.inj ((second.name_kept hmid).symm.trans hname)
        obtain rfl := Option.some.inj ((second.name_kept hmid').symm.trans hname')
        exact first.number_injective hnone hnone' hmid hmid' hgiven

/-- At most one object is named. -/
theorem of_one (id : Nat) (htraced : m'.tracer?.isSome = m.tracer?.isSome)
    (hcalls : m'.calls = m.calls) (hminted : m.minted ≤ m'.minted)
    (hsize : m.heap.size ≤ m'.heap.size)
    (htag : ∀ {other}, other < m.heap.size →
      (m'.heap.tag? other).isSome = (m.heap.tag? other).isSome)
    (hcount : ∀ other, m'.heap.countOf other = m.heap.countOf other)
    (hothers : ∀ other, other ≠ id → m'.heap.nameOf? other = m.heap.nameOf? other)
    (hunnamed : m.heap.nameOf? id = none)
    (hnamed : ∀ name, m'.heap.nameOf? id = some name →
      given name ∨ ∃ k, m.minted < k ∧ k ≤ m'.minted ∧ name = toString k) :
    m.Names given m' := by
  have honly {other : Nat} {name : String} (hnone : m.heap.nameOf? other = none)
      (hname : m'.heap.nameOf? other = some name) : other = id := by
    by_cases heq : other = id
    · exact heq
    · rw [hothers other heq, hnone] at hname
      contradiction
  refine ⟨htraced, hcalls, hminted, hsize, htag, hcount, ?_, ?_, ?_⟩
  · intro other name hname
    by_cases heq : other = id
    · rw [heq, hunnamed] at hname
      contradiction
    · rw [hothers other heq, hname]
  · intro other name hnone hname
    obtain rfl := honly hnone hname
    exact hnamed name hname
  · intro other other' name hnone hnone' hname hname' _
    exact (honly hnone hname).trans (honly hnone' hname').symm

end Names

@[simp] theorem heap_mint (m : Machine) : m.mint.heap = m.heap := rfl

@[simp] theorem calls_withHeap (m : Machine) (heap : Heap) : (m.withHeap heap).calls = m.calls := rfl

@[simp] theorem minted_withHeap (m : Machine) (heap : Heap) :
    (m.withHeap heap).minted = m.minted := rfl

@[simp] theorem tracer?_withHeap (m : Machine) (heap : Heap) :
    (m.withHeap heap).tracer? = m.tracer? := rfl

@[simp] theorem isSome_tracer?_mint (m : Machine) : m.mint.tracer?.isSome = m.tracer?.isSome :=
  Option.isSome_map

@[simp] theorem calls_mint (m : Machine) : m.mint.calls = m.calls := by
  simp only [calls, mint, Option.map_map]
  rfl

theorem minted_mint {m : Machine} (htraced : m.tracer?.isSome) : m.mint.minted = m.minted + 1 := by
  obtain ⟨t, ht⟩ := Option.isSome_iff_exists.mp htraced
  simp [minted, mint, ht]

variable {given : String → Prop} {m : Machine}

theorem names_mint (htraced : m.tracer?.isSome) : m.Names given m.mint where
  traced := m.isSome_tracer?_mint
  calls_eq := m.calls_mint
  minted_le := by simp [minted_mint htraced]
  size_le := Nat.le_refl _
  tag_isSome _ := rfl
  count_eq _ := rfl
  name_kept hname := hname
  name_new hnone hname := by
    rw [heap_mint, hnone] at hname
    contradiction
  number_injective hnone _ hname := by
    rw [heap_mint, hnone] at hname
    contradiction

/-- Naming an object that has no name with the next number. -/
theorem names_modifyTag (htraced : m.tracer?.isSome) {id : Nat} (hid : m.heap.nameOf? id = none) :
    m.Names given (m.mint.withHeap (m.heap.modifyTag id fun t =>
      { t with name? := some (toString (m.minted + 1)) })) := by
  refine .of_one id (by simp) (by simp) (by simp [minted_mint htraced]) (by simp) ?_ ?_ ?_
    hid ?_
  · intro other _
    rw [heap_withHeap, Heap.tag?_modifyTag]
    split_ifs
    · exact Option.isSome_map
    · rfl
  · intro other
    rw [heap_withHeap, Heap.countOf, Heap.tag?_modifyTag, Heap.countOf]
    split_ifs
    · cases m.heap.tag? other <;> rfl
    · rfl
  · intro other hne
    rw [heap_withHeap, Heap.nameOf?_modifyTag_of_ne hne]
  · intro name hname
    rw [heap_withHeap, Heap.nameOf?, Heap.tag?_modifyTag, if_pos rfl] at hname
    refine .inr ⟨m.minted + 1, Nat.lt_succ_self _, by simp [minted_mint htraced], ?_⟩
    rcases htag : m.heap.tag? id with _ | t <;> rw [htag] at hname
    · contradiction
    · exact (Option.some.inj hname).symm

/-- Making a placeholder, with the next number or a given name. -/
theorem names_push {m' : Machine} (hmint : m' = m ∨ m.tracer?.isSome ∧ m' = m.mint)
    {i : Instance} (hcount : i.tag.count = 0)
    (hname : ∀ name, i.tag.name? = some name →
      given name ∨ ∃ k, m.minted < k ∧ k ≤ m'.minted ∧ name = toString k) :
    m.Names given (m'.withHeap (m.heap.push (.instance i))) := by
  have hmoves : m.Names given m' := by
    rcases hmint with rfl | ⟨htraced, rfl⟩
    · exact .refl _
    · exact names_mint htraced
  refine .of_one m.heap.size hmoves.traced hmoves.calls_eq hmoves.minted_le (by simp) ?_ ?_ ?_
    ?_ ?_
  · intro other hother
    rw [heap_withHeap, Heap.tag?_push, if_neg (Nat.ne_of_lt hother)]
  · refine Heap.countOf_push ?_
    rintro _ ⟨⟩
    exact hcount
  · intro other hne
    rw [heap_withHeap, Heap.nameOf?_push, if_neg hne]
  · exact Heap.nameOf?_eq_none_of_tag? (Heap.tag?_eq_none_of_le (Nat.le_refl _))
  · intro name hnamed
    rw [heap_withHeap, Heap.nameOf?_push, if_pos rfl] at hnamed
    exact hname name hnamed

/-! ## What a recorded call changes -/

theorem tag?_foldl_modifyTag (h : Heap) (values : List TracedValue) (id : Nat) :
    (values.foldl (fun h v => h.modifyTag v.object fun t => { t with count := t.count + 1 }) h).tag?
        id =
      (h.tag? id).map fun t => { t with count := t.count + values.countP (·.object = id) } := by
  induction values generalizing h with
  | nil => simp
  | cons v rest ih =>
      rw [List.foldl_cons, ih, Heap.tag?_modifyTag]
      by_cases heq : v.object = id
      · simp [heq, Function.comp_def, Nat.add_assoc, Nat.add_comm 1]
      · simp [heq]

theorem tag?_record (m : Machine) (call : TracedCall) (id : Nat) :
    (m.record call).heap.tag? id =
      (m.heap.tag? id).map fun t =>
        { t with count := t.count + call.consumed.countP (·.object = id) } :=
  tag?_foldl_modifyTag m.heap call.consumed id

@[simp] theorem isSome_tag?_record (m : Machine) (call : TracedCall) (id : Nat) :
    ((m.record call).heap.tag? id).isSome = (m.heap.tag? id).isSome := by
  rw [tag?_record, Option.isSome_map]

@[simp] theorem nameOf?_record (m : Machine) (call : TracedCall) (id : Nat) :
    (m.record call).heap.nameOf? id = m.heap.nameOf? id := by
  rw [Heap.nameOf?, tag?_record, Heap.nameOf?]
  cases m.heap.tag? id <;> rfl

theorem countOf_record {m : Machine} {id : Nat} (hid : (m.heap.tag? id).isSome)
    (call : TracedCall) :
    (m.record call).heap.countOf id =
      m.heap.countOf id + call.consumed.countP (·.object = id) := by
  obtain ⟨t, ht⟩ := Option.isSome_iff_exists.mp hid
  rw [Heap.countOf, tag?_record, Heap.countOf, ht]
  rfl

@[simp] theorem size_record (m : Machine) (call : TracedCall) :
    (m.record call).heap.size = m.heap.size := by
  have hsize (values : List TracedValue) (h : Heap) : (values.foldl
      (fun h v => h.modifyTag v.object fun t => { t with count := t.count + 1 }) h).size = h.size := by
    induction values generalizing h with
    | nil => rfl
    | cons v rest ih => rw [List.foldl_cons, ih, Heap.size_modifyTag]
  exact hsize call.consumed m.heap

theorem calls_record {m : Machine} (htraced : m.tracer?.isSome) (call : TracedCall) :
    (m.record call).calls = m.calls ++ [call] := by
  obtain ⟨t, ht⟩ := Option.isSome_iff_exists.mp htraced
  simp [calls, record, ht]

@[simp] theorem minted_record (m : Machine) (call : TracedCall) :
    (m.record call).minted = m.minted := by
  simp only [minted, record, Option.map_map]
  rfl

/-! ## Values that a machine knows -/

/-- The object exists, and the value bears its name; what is no instance bears a number. -/
structure Knows (m : Machine) (v : TracedValue) : Prop where
  object_lt : v.object < m.heap.size
  named : m.heap.nameOf? v.object = some v.name ∨
    m.heap.tag? v.object = none ∧ ∃ k, k ≤ m.minted ∧ v.name = toString k

theorem Knows.of_names {m' : Machine} {v : TracedValue} (hv : m.Knows v) (h : m.Names given m') :
    m'.Knows v where
  object_lt := Nat.lt_of_lt_of_le hv.object_lt h.size_le
  named := by
    rcases hv.named with hname | ⟨hnone, k, hk, hname⟩
    · exact .inl (h.name_kept hname)
    · refine .inr ⟨?_, k, Nat.le_trans hk h.minted_le, hname⟩
      have hsame := h.tag_isSome hv.object_lt
      rw [hnone] at hsame
      exact Option.isNone_iff_eq_none.mp (Option.isSome_eq_false_iff.mp hsame)

theorem Knows.record {v : TracedValue} (hv : m.Knows v) (call : TracedCall) :
    (m.record call).Knows v where
  object_lt := by
    rw [size_record]
    exact hv.object_lt
  named := by
    rw [nameOf?_record, minted_record]
    refine hv.named.imp_right fun ⟨hnone, hnumber⟩ => ⟨?_, hnumber⟩
    rw [tag?_record, hnone]
    rfl

/-- The values of the recorded calls are known. -/
def Known (m : Machine) : Prop := ∀ call ∈ m.calls, ∀ v ∈ call.values, m.Knows v

theorem Known.of_names {m' : Machine} (hm : m.Known) (h : m.Names given m') : m'.Known := by
  intro call hcall v hv
  rw [h.calls_eq] at hcall
  exact (hm call hcall v hv).of_names h

theorem Known.record (hm : m.Known) (htraced : m.tracer?.isSome) {call : TracedCall}
    (hcall : ∀ v ∈ call.values, m.Knows v) : (m.record call).Known := by
  intro other hother v hv
  rw [calls_record htraced, List.mem_append, List.mem_singleton] at hother
  rcases hother with hother | rfl
  · exact (hm other hother v hv).record call
  · exact (hcall v hv).record other

/-! ## Recorded calls -/

/-- Naming values and recording calls, in turn. The inputs of a call were known before the numbers of
its outputs were given. -/
inductive Records (given : String → Prop) : Machine → Machine → Prop
  | names {m m' : Machine} (h : m.Names given m') : Records given m m'
  | call {m m' : Machine} {call : TracedCall} (h : m.Names given m')
      (inputs : ∀ v ∈ call.consumed, m.Knows v)
      (outputs : ∀ v ∈ call.outputs.flatten, m'.Knows v)
      (numbers : Numbered m.minted m'.minted (call.produced.map (·.name))) :
      Records given m (m'.record call)
  | trans {m m' m'' : Machine} : Records given m m' → Records given m' m'' → Records given m m''

theorem Records.traced {m m' : Machine} (h : Records given m m') :
    m'.tracer?.isSome = m.tracer?.isSome := by
  induction h with
  | names h => exact h.traced
  | call h => exact Option.isSome_map.trans h.traced
  | trans _ _ first second => exact second.trans first

theorem Records.known {m m' : Machine} (h : Records given m m') (htraced : m.tracer?.isSome)
    (hm : m.Known) : m'.Known := by
  induction h with
  | names h => exact hm.of_names h
  | call h inputs outputs =>
      refine (hm.of_names h).record (h.traced.trans htraced) fun v hv => ?_
      rcases List.mem_append.mp hv with hv | hv
      · exact (inputs v hv).of_names h
      · exact outputs v hv
  | trans first _ ih ih' => exact ih' (first.traced.trans htraced) (ih htraced hm)

theorem known_start (m : Machine) (catalog : Operator.Catalog) :
    (m.withTracer (some { catalog })).Known := by
  intro call hcall
  cases hcall

end Machine

end ModelGraph
