import ModelGraph.Proofs.Trace.Unpacking

/-!
# How inputs are named

An input that has a name keeps it, and nothing happens. A tensor without a name gets the next number; for
a value that is no object a blank record is made, which gets it. The matching of arguments sees nothing of
that: `Heap.Alike` says so. But it stays when the matching fails: `Machine.Marks` says of two machines
which objects got numbers in between, and that nothing else happened to those that were there.
-/

namespace ModelGraph

open Exec

/-- The record that is made for a value that is no object. -/
def Instance.blank : Instance := { module := "", name := "" }

/-- The instance under a name in the graph. -/
def Instance.called (i : Instance) (name : String) : Instance :=
  { i with tag := { i.tag with name? := some name } }

/-- Whether an argument at the front is replaced by what is packed in the record. -/
def Instance.spreads (i : Instance) : Bool :=
  i.module = "__torch__.torch.classes.quantized" ∧
      (i.name = "Conv2dPackedParamsBase" ∨ i.name = "LinearPackedParamsBase") ∨
    i.module = "__torch__.torch.classes.xnnpack" ∧
      (i.name = "LinearOpContext" ∨ i.name = "Conv2dOpContext")

theorem Instance.spreads_blank : Instance.blank.spreads = false := by decide

/-- The object hands on no object below the bound: it is no list that has one, and not packed. -/
def Object.KeepsBack (bound : Nat) : Object → Prop
  | .list items => ∀ id, .ref id ∈ items → bound ≤ id
  | .instance i => i.spreads = false
  | _ => True

theorem Object.KeepsBack.mono {bound bound' : Nat} {o : Object} (ho : o.KeepsBack bound')
    (hle : bound ≤ bound') : o.KeepsBack bound := by
  cases o <;> first | exact ho | exact fun id hid => Nat.le_trans hle (ho id hid)

namespace Heap

theorem exists_of_lt_size {h : Heap} {id : Nat} (hid : id < h.size) : ∃ o, h.get? id = some o :=
  ⟨h.objects[id], Array.getElem?_eq_getElem hid⟩

theorem nameOf?_eq_some_iff {h : Heap} {id : Nat} {name : String} :
    h.nameOf? id = some name ↔ ∃ i, h.get? id = some (.instance i) ∧ i.tag.name? = some name := by
  rw [nameOf?, tag?_eq]
  rcases h.get? id with _ | o
  · simp
  · cases o <;> simp [Object.tag?]

theorem get?_modifyTag_of_ne {h : Heap} {id other : Nat} (hne : other ≠ id) (change : Tag → Tag) :
    (h.modifyTag id change).get? other = h.get? other := by
  rw [modifyTag, get?_modify, if_neg (Ne.symm hne)]

/-- A change of tags is seen at instances only. -/
theorem get?_modifyTag_self (h : Heap) (id : Nat) (change : Tag → Tag) :
    (h.modifyTag id change).get? id = h.get? id ∨ ∃ i, h.get? id = some (.instance i) ∧
      (h.modifyTag id change).get? id = some (.instance { i with tag := change i.tag }) := by
  rw [modifyTag, get?_modify, if_pos rfl]
  rcases h.get? id with _ | o
  · exact .inl rfl
  · cases o <;> first | exact .inl rfl | exact .inr ⟨_, rfl, rfl⟩

theorem exists_instance_of_isTensor {h : Heap} {v : Value} (hv : h.isTensor v) :
    ∃ id i, v = .ref id ∧ h.get? id = some (.instance i) := by
  obtain ⟨i, hi, -⟩ := (Option.any_eq_true _ _).mp hv
  unfold instance? at hi
  split at hi
  · next content ho =>
    cases v with
    | ref id => exact ⟨id, content, rfl, ho⟩
    | _ => cases ho
  · cases hi

theorem eq_none_or_isTensor {h : Heap} {v : Value} (hv : h.isTensorOrNone v) :
    v = .none ∨ h.isTensor v := by
  rw [isTensorOrNone, Bool.or_eq_true] at hv
  rcases hv with htensor | hnone
  · exact .inr htensor
  · cases v <;> first | exact .inl rfl | cases hnone

theorem unpackFront_eq_of_instance {h h' : Heap} {front : Value} {i : Instance} {tag : Tag}
    (hold : h.instance? front = some i) (hnew : h'.instance? front = some { i with tag })
    (keyword : Option String) (rest : List PendingArgument) :
    unpackFront h' ((keyword, front) :: rest) = unpackFront h ((keyword, front) :: rest) := by
  simp only [unpackFront, hold, hnew]

/-! ## What the matching sees -/

/-- The matching of arguments sees no difference between the heaps. -/
structure Alike (h h' : Heap) : Prop where
  isTensor_eq : ∀ v, h'.isTensor v = h.isTensor v
  items?_eq : ∀ v, h'.items? v = h.items? v
  unpackFront_eq : ∀ arguments, unpackFront h' arguments = unpackFront h arguments

namespace Alike

variable {h h' h'' : Heap}

theorem refl (h : Heap) : h.Alike h := ⟨fun _ => rfl, fun _ => rfl, fun _ => rfl⟩

theorem trans (first : h.Alike h') (second : h'.Alike h'') : h.Alike h'' where
  isTensor_eq v := (second.isTensor_eq v).trans (first.isTensor_eq v)
  items?_eq v := (second.items?_eq v).trans (first.items?_eq v)
  unpackFront_eq arguments := (second.unpackFront_eq arguments).trans (first.unpackFront_eq arguments)

theorem isTensorOrNone_eq (halike : h.Alike h') : h'.isTensorOrNone = h.isTensorOrNone := by
  funext v
  rw [isTensorOrNone, isTensorOrNone, halike.isTensor_eq]

theorem fits_eq (halike : h.Alike h') (v : Value) (kind : Operator.ParameterKind) :
    h'.fits v kind = h.fits v kind := by
  cases kind <;>
    simp only [fits, isIntList, halike.isTensorOrNone_eq, halike.isTensor_eq, halike.items?_eq]

theorem fit_eq (halike : h.Alike h') (p : Operator.Parameter) (next : PendingArgument) :
    p.fit h' next = p.fit h next := by
  unfold Operator.Parameter.fit
  simp only [halike.isTensorOrNone_eq, halike.items?_eq, halike.fits_eq]

/-- An object that is the same, or an instance with another tag, or a blank record where nothing was. -/
inductive Retagged (h h' : Heap) (id : Nat) : Prop
  | same (heq : h'.get? id = h.get? id)
  | tagged {i : Instance} {tag : Tag} (hold : h.get? id = some (.instance i))
      (hnew : h'.get? id = some (.instance { i with tag }))
  | made (hold : h.get? id = none) (hnew : h'.get? id = some (.instance .blank))

theorem instance?_of_retagged (hobject : ∀ id, Retagged h h' id) (v : Value) :
    h'.instance? v = h.instance? v ∨
      (∃ i tag, h.instance? v = some i ∧ h'.instance? v = some { i with tag }) ∨
      h.instance? v = none ∧ h'.instance? v = some .blank := by
  cases v with
  | ref id =>
      unfold instance? object?
      simp only [Value.ref?, Option.bind_some]
      cases hobject id with
      | same heq => exact .inl (by rw [heq])
      | tagged hold hnew => exact .inr (.inl ⟨_, _, by rw [hold], by rw [hnew]⟩)
      | made hold hnew => exact .inr (.inr ⟨by rw [hold], by rw [hnew]⟩)
  | _ => exact .inl rfl

theorem items?_of_retagged (hobject : ∀ id, Retagged h h' id) (v : Value) :
    h'.items? v = h.items? v := by
  cases v with
  | ref id =>
      unfold items? object?
      simp only [Value.ref?, Option.bind_some]
      cases hobject id with
      | same heq => rw [heq]
      | tagged hold hnew | made hold hnew => rw [hold, hnew]
  | _ => rfl

/-- Tags and blank records make no difference. -/
theorem of_retagged (hobject : ∀ id, Retagged h h' id) : h.Alike h' where
  isTensor_eq v := by
    unfold isTensor
    rcases instance?_of_retagged hobject v with heq | ⟨i, tag, hold, hnew⟩ | ⟨hold, hnew⟩
    · rw [heq]
    · rw [hold, hnew]
      rfl
    · rw [hold, hnew]
      decide
  items?_eq := items?_of_retagged hobject
  unpackFront_eq arguments := by
    rcases arguments with _ | ⟨⟨keyword, front⟩, rest⟩
    · rfl
    · rcases instance?_of_retagged hobject front with heq | ⟨i, tag, hold, hnew⟩ | ⟨hold, hnew⟩
      · simp only [unpackFront, heq]
      · exact unpackFront_eq_of_instance hold hnew keyword rest
      · simp [unpackFront, hold, hnew, Instance.blank]

theorem push_blank (h : Heap) : h.Alike (h.push (.instance .blank)) := by
  apply of_retagged
  intro id
  by_cases hid : id = h.size
  · subst hid
    exact .made (get?_eq_none_of_le (Nat.le_refl _)) (h.get?_push_size _)
  · apply Retagged.same
    rw [get?_push, if_neg hid]

theorem modifyTag (h : Heap) (id : Nat) (change : Tag → Tag) : h.Alike (h.modifyTag id change) := by
  apply of_retagged
  intro other
  by_cases heq : other = id
  · subst heq
    rcases h.get?_modifyTag_self other change with hsame | ⟨i, hold, hnew⟩
    · exact .same hsame
    · exact .tagged hold hnew
  · exact .same (get?_modifyTag_of_ne heq change)

end Alike

end Heap

/-- How a value is recorded as an input between two heaps: a tensor as itself and an absent value as a new
record, under the name that the object has in the end. -/
structure TracedValue.Stands (named : TracedValue) (start final : Heap) (v : Value) : Prop where
  object : v = .ref named.object ∨ v = .none ∧ start.size ≤ named.object
  name : final.nameOf? named.object = some named.name

theorem TracedValue.Stands.mono {start start' final final' : Heap} {v : Value} {named : TracedValue}
    (h : named.Stands start' final v) (hstart : start.size ≤ start'.size)
    (hfinal : ∀ {id name}, final.nameOf? id = some name → final'.nameOf? id = some name) :
    named.Stands start final' v where
  object := h.object.imp_right fun ⟨hv, hnew⟩ => ⟨hv, Nat.le_trans hstart hnew⟩
  name := hfinal h.name

/-! ## Objects that get numbers -/

namespace Machine

variable {among among' : Nat → Prop} {m m' m'' : Machine}

/-- Between the machines some objects without a name, of those among the given ones, got a number for a
name. Nothing else happened to the objects that were there, new ones hand none of them on, and no call
was recorded. -/
structure Marks (among : Nat → Prop) (m m' : Machine) : Prop where
  traced : m'.tracer?.isSome = m.tracer?.isSome
  calls_eq : m'.calls = m.calls
  minted_le : m.minted ≤ m'.minted
  size_le : m.heap.size ≤ m'.heap.size
  object : ∀ {id o}, m.heap.get? id = some o → m'.heap.get? id = some o ∨
    ∃ i k, o = .instance i ∧ i.tag.name? = none ∧ among id ∧ m.minted < k ∧ k ≤ m'.minted ∧
      m'.heap.get? id = some (.instance (i.called (toString k)))
  new : ∀ {id o}, m.heap.size ≤ id → m'.heap.get? id = some o → o.KeepsBack m.heap.size

namespace Marks

theorem refl (m : Machine) : m.Marks among m where
  traced := rfl
  calls_eq := rfl
  minted_le := Nat.le_refl _
  size_le := Nat.le_refl _
  object ho := .inl ho
  new hid ho := (Nat.not_le_of_lt (Heap.lt_size_of_get? ho) hid).elim

theorem mint (htraced : m.tracer?.isSome) : m.Marks among m.mint where
  traced := m.isSome_tracer?_mint
  calls_eq := m.calls_mint
  minted_le := by simp [minted_mint htraced]
  size_le := Nat.le_refl _
  object ho := .inl ho
  new hid ho := (Nat.not_le_of_lt (Heap.lt_size_of_get? ho) hid).elim

/-- More happens to new objects only. -/
theorem withHeap (hmarks : m.Marks among m') {heap : Heap} (hsize : m'.heap.size ≤ heap.size)
    (hold : ∀ id < m.heap.size, heap.get? id = m'.heap.get? id)
    (hnew : ∀ {id o}, m.heap.size ≤ id → heap.get? id = some o →
      m'.heap.get? id = some o ∨ o.KeepsBack m.heap.size) :
    m.Marks among (m'.withHeap heap) where
  traced := hmarks.traced
  calls_eq := hmarks.calls_eq
  minted_le := hmarks.minted_le
  size_le := Nat.le_trans hmarks.size_le hsize
  object {id o} ho := by
    rw [heap_withHeap, hold id (Heap.lt_size_of_get? ho)]
    exact hmarks.object ho
  new hid ho := (hnew hid ho).elim (hmarks.new hid) fun hkeeps => hkeeps

theorem push (hmarks : m.Marks among m') {o : Object} (ho : o.KeepsBack m.heap.size) :
    m.Marks among (m'.withHeap (m'.heap.push o)) := by
  apply hmarks.withHeap (by simp)
  · intro id hid
    exact Heap.get?_push_of_lt (Nat.lt_of_lt_of_le hid hmarks.size_le) o
  · intro id o' hid ho'
    rw [Heap.get?_push] at ho'
    split_ifs at ho'
    · cases ho'
      exact .inr ho
    · exact .inl ho'

theorem mono (hmarks : m.Marks among m') (hsub : ∀ id, among id → among' id) :
    m.Marks among' m' where
  traced := hmarks.traced
  calls_eq := hmarks.calls_eq
  minted_le := hmarks.minted_le
  size_le := hmarks.size_le
  object ho := (hmarks.object ho).imp_right
    fun ⟨i, k, hi, hname, hid, hk⟩ => ⟨i, k, hi, hname, hsub _ hid, hk⟩
  new := hmarks.new

theorem andThen (first : m.Marks among m') (second : m'.Marks among' m'')
    (hsub : ∀ id < m.heap.size, among' id → among id) : m.Marks among m'' where
  traced := second.traced.trans first.traced
  calls_eq := second.calls_eq.trans first.calls_eq
  minted_le := Nat.le_trans first.minted_le second.minted_le
  size_le := Nat.le_trans first.size_le second.size_le
  object {id o} ho := by
    rcases first.object ho with hsame | ⟨i, k, rfl, hname, hid, hlow, hhigh, hmid⟩
    · refine (second.object hsame).imp_right ?_
      rintro ⟨i, k, hi, hname, hid, hlow, hk⟩
      exact ⟨i, k, hi, hname, hsub id (Heap.lt_size_of_get? ho) hid,
        Nat.lt_of_le_of_lt first.minted_le hlow, hk⟩
    · -- An object that has its number gets no other.
      refine .inr ⟨i, k, rfl, hname, hid, hlow, Nat.le_trans hhigh second.minted_le, ?_⟩
      rcases second.object hmid with hsame | ⟨i', _, hi', hname', -⟩
      · exact hsame
      · cases hi'
        cases hname'
  new {id o} hid ho := by
    rcases Nat.lt_or_ge id m'.heap.size with hold | hnew
    · obtain ⟨o', ho'⟩ := Heap.exists_of_lt_size hold
      have hfirst := first.new hid ho'
      rcases second.object ho' with hsame | ⟨i, k, rfl, -, -, -, -, hset⟩
      · cases ho.symm.trans hsame
        exact hfirst
      · cases ho.symm.trans hset
        exact hfirst
    · exact (second.new hnew ho).mono first.size_le

theorem trans (first : m.Marks among m') (second : m'.Marks among m'') : m.Marks among m'' :=
  first.andThen second fun _ _ hid => hid

theorem nameOf?_eq_some (hmarks : m.Marks among m') {id : Nat} {name : String}
    (hid : m.heap.nameOf? id = some name) : m'.heap.nameOf? id = some name := by
  obtain ⟨i, ho, hname⟩ := Heap.nameOf?_eq_some_iff.mp hid
  rcases hmarks.object ho with hsame | ⟨i', _, hi', hnone, -⟩
  · exact Heap.nameOf?_eq_some_iff.mpr ⟨i, hsame, hname⟩
  · cases hi'
    rw [hname] at hnone
    cases hnone

end Marks

/-! ## One input -/

/-- The object gets the next number for its name. -/
def nameObject (m : Machine) (id : Nat) : Machine :=
  m.mint.withHeap (m.heap.modifyTag id fun t => { t with name? := some (toString (m.minted + 1)) })

theorem alike_nameObject (m : Machine) (id : Nat) : m.heap.Alike (m.nameObject id).heap := by
  rw [nameObject, heap_withHeap]
  exact .modifyTag m.heap id _

theorem marks_nameObject (htraced : m.tracer?.isSome) {id : Nat} (hid : m.heap.nameOf? id = none) :
    m.Marks (· = id) (m.nameObject id) where
  traced := by simp [nameObject]
  calls_eq := by simp [nameObject]
  minted_le := by simp [nameObject, minted_mint htraced]
  size_le := by simp [nameObject]
  object {other o} ho := by
    by_cases heq : other = id
    · subst heq
      rcases m.heap.get?_modifyTag_self other
        fun t => { t with name? := some (toString (m.minted + 1)) } with hsame | ⟨i, hi, hnew⟩
      · exact .inl (hsame.trans ho)
      · obtain rfl : o = .instance i := Option.some.inj (ho.symm.trans hi)
        refine .inr ⟨i, m.minted + 1, rfl, ?_, rfl, Nat.lt_succ_self _, ?_, hnew⟩
        · simpa [Heap.nameOf?, Heap.tag?_eq, ho, Object.tag?] using hid
        · simp [nameObject, minted_mint htraced]
    · left
      rw [nameObject, heap_withHeap, Heap.get?_modifyTag_of_ne heq, ho]
  new {other o} hother ho := by
    have hlt := Heap.lt_size_of_get? ho
    rw [nameObject, heap_withHeap, Heap.size_modifyTag] at hlt
    exact (Nat.not_le_of_lt hlt hother).elim

/-- The machine with a blank record more. -/
def withBlank (m : Machine) : Machine := m.withHeap (m.heap.push (.instance .blank))

/-- What the naming of one input does. -/
inductive NamesInput (m : Machine) : Value → TracedValue → Machine → Prop
  | named {id name} (hname : m.heap.nameOf? id = some name) : NamesInput m (.ref id) ⟨name, id⟩ m
  | unnamed {id} (hid : id < m.heap.size) (hname : m.heap.nameOf? id = none) :
      NamesInput m (.ref id) ⟨toString (m.minted + 1), id⟩ (m.nameObject id)
  | absent {v} (hv : m.heap.object? v = none) :
      NamesInput m v ⟨toString (m.minted + 1), m.heap.size⟩
        (m.withBlank.nameObject m.heap.size)

theorem nameOf?_withBlank (m : Machine) : m.withBlank.heap.nameOf? m.heap.size = none := by
  rw [withBlank, heap_withHeap, Heap.nameOf?_push, if_pos rfl]
  rfl

theorem outcome_nameInput (htraced : m.tracer?.isSome) (v : Value) :
    ∃ named m', (nameInput v).outcome m = (.ok named, m') ∧ m.NamesInput v named m' := by
  unfold nameInput
  rw [outcome_bind_ok (outcome_heap m)]
  dsimp only
  split
  · next id o ho =>
    have hid : id < m.heap.size := Heap.lt_size_of_get? ho
    rw [outcome_bind_ok (outcome_pure id m), outcome_bind_ok (outcome_heap m)]
    rcases hname : (m.heap.tag? id).bind (·.name?) with _ | name
    · dsimp only
      rw [outcome_bind_ok (outcome_freshName htraced)]
      exact ⟨_, _, rfl, .unnamed hid hname⟩
    · exact ⟨_, _, rfl, .named hname⟩
  · next v _ _ hother =>
    have hv : m.heap.object? v = none := by
      cases v with
      | ref id =>
          rcases ho : m.heap.object? (.ref id) with _ | o
          · rfl
          · exact (hother id o rfl ho).elim
      | _ => rfl
    have hmade : (Exec.record "" "").outcome m =
        (.ok (.ref m.heap.size), m.withBlank) := rfl
    rw [outcome_bind_ok hmade, outcome_bind_ok (outcome_pure _ _), outcome_bind_ok (outcome_heap _)]
    have hname : (m.withBlank.heap.tag? m.heap.size).bind (·.name?) = none := nameOf?_withBlank m
    dsimp only [Value.ref?, Option.getD_some]
    rw [hname]
    have hblank : m.withBlank.tracer?.isSome := htraced
    dsimp only
    rw [outcome_bind_ok (outcome_freshName hblank)]
    exact ⟨_, _, rfl, .absent hv⟩

namespace NamesInput

variable {v : Value} {named : TracedValue}

theorem alike (h : m.NamesInput v named m') : m.heap.Alike m'.heap := by
  cases h with
  | named => exact .refl _
  | unnamed => exact alike_nameObject m _
  | absent => exact (Heap.Alike.push_blank m.heap).trans (alike_nameObject m.withBlank _)

theorem marks (h : m.NamesInput v named m') (htraced : m.tracer?.isSome) :
    m.Marks (fun id => v = .ref id) m' := by
  cases h with
  | named => exact .refl m
  | unnamed _ hname =>
      apply (marks_nameObject htraced hname).mono
      rintro _ rfl
      rfl
  | absent =>
      have hpush : m.Marks (· = m.heap.size) m.withBlank :=
        (Marks.refl m).push Instance.spreads_blank
      have hname : m.withBlank.Marks (· = m.heap.size) (m.withBlank.nameObject m.heap.size) :=
        marks_nameObject (hpush.traced.trans htraced) (nameOf?_withBlank m)
      have hmarks := hpush.trans hname
      -- The number goes to the new record, so the old objects stay as they are.
      refine { hmarks with object := fun {id o} ho => .inl ?_ }
      rcases hmarks.object ho with hsame | ⟨_, _, _, _, heq, -⟩
      · exact hsame
      · exact (Nat.ne_of_lt (Heap.lt_size_of_get? ho) heq).elim

theorem nameOf?_nameObject {id : Nat} {i : Instance} (hid : m.heap.get? id = some (.instance i)) :
    (m.nameObject id).heap.nameOf? id = some (toString (m.minted + 1)) := by
  rw [nameObject, heap_withHeap, Heap.nameOf?, Heap.tag?_modifyTag, if_pos rfl, Heap.tag?_eq, hid]
  rfl

theorem stands (h : m.NamesInput v named m') (hv : m.heap.isTensorOrNone v) :
    named.Stands m.heap m'.heap v := by
  cases h with
  | named hname => exact ⟨.inl rfl, hname⟩
  | unnamed hid hname =>
      rcases Heap.eq_none_or_isTensor hv with hnone | htensor
      · cases hnone
      · obtain ⟨id, i, hid, hi⟩ := Heap.exists_instance_of_isTensor htensor
        cases hid
        exact ⟨.inl rfl, nameOf?_nameObject hi⟩
  | absent hobject =>
      rcases Heap.eq_none_or_isTensor hv with rfl | htensor
      · refine ⟨.inr ⟨rfl, Nat.le_refl _⟩, ?_⟩
        exact nameOf?_nameObject (m.heap.get?_push_size _)
      · obtain ⟨id, i, rfl, hi⟩ := Heap.exists_instance_of_isTensor htensor
        cases hobject.symm.trans hi

end NamesInput

/-! ## Inputs in turn -/

inductive NamesInputs : Machine → List Value → List TracedValue → Machine → Prop
  | nil (m : Machine) : NamesInputs m [] [] m
  | cons {m m₁ m' : Machine} {v named rest others} (hfirst : m.NamesInput v named m₁)
      (hrest : NamesInputs m₁ rest others m') : NamesInputs m (v :: rest) (named :: others) m'

theorem outcome_nameInputs (htraced : m.tracer?.isSome) (values : List Value) :
    ∃ named m', (values.mapM nameInput).outcome m = (.ok named, m') ∧
      NamesInputs m values named m' := by
  induction values generalizing m with
  | nil => exact ⟨_, _, rfl, .nil m⟩
  | cons v rest ih =>
      obtain ⟨named, m₁, hnamed, hfirst⟩ := outcome_nameInput htraced v
      obtain ⟨others, m', hothers, hrest⟩ := ih ((hfirst.marks htraced).traced.trans htraced)
      refine ⟨named :: others, m', ?_, .cons hfirst hrest⟩
      rw [List.mapM_cons, outcome_bind_ok hnamed, outcome_bind_ok hothers]
      rfl

namespace NamesInputs

variable {values : List Value} {named : List TracedValue}

theorem alike (h : NamesInputs m values named m') : m.heap.Alike m'.heap := by
  induction h with
  | nil => exact .refl _
  | cons hfirst _ ih => exact hfirst.alike.trans ih

theorem marks (h : NamesInputs m values named m') (htraced : m.tracer?.isSome) :
    m.Marks (fun id => .ref id ∈ values) m' := by
  induction h with
  | nil => exact .refl _
  | cons hfirst _ ih =>
      have hmarks := hfirst.marks htraced
      apply (hmarks.mono _).trans ((ih (hmarks.traced.trans htraced)).mono _)
      · rintro id rfl
        exact List.mem_cons_self
      · intro id hid
        exact List.mem_cons_of_mem _ hid

theorem stands (h : NamesInputs m values named m') (htraced : m.tracer?.isSome)
    (hvalues : ∀ v ∈ values, m.heap.isTensorOrNone v) :
    List.Forall₂ (fun v named => named.Stands m.heap m'.heap v) values named := by
  induction h with
  | nil => exact .nil
  | cons hfirst hrest ih =>
      have hmarks := hfirst.marks htraced
      have htraced₁ := hmarks.traced.trans htraced
      constructor
      · apply (hfirst.stands (hvalues _ List.mem_cons_self)).mono (Nat.le_refl _)
        exact (hrest.marks htraced₁).nameOf?_eq_some
      · apply (ih htraced₁ _).imp
        · intro v named hstands
          exact hstands.mono hmarks.size_le id
        · intro v hv
          rw [hfirst.alike.isTensorOrNone_eq]
          exact hvalues v (List.mem_cons_of_mem _ hv)

end NamesInputs

end Machine

end ModelGraph
