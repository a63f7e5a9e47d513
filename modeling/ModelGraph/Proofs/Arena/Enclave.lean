import ModelGraph.Proofs.Arena.Closed
import ModelGraph.Proofs.Machine.Fresh

/-!
# Heaps closed around an enclave

Objects that no other object refers to form an enclave. A heap is closed around it if whatever the objects
outside refer to is on the heap and outside as well; without an enclave, it is closed. What is looked up from
outside lies outside. A change that begins outside and brings in nothing from inside keeps the heap closed
around the enclave, and the enclave as it stands.
-/

namespace ModelGraph

/-- Objects set apart, and a heap that shows them as they are to stay. -/
structure Enclave where
  inside : Nat → Prop
  heap : Heap

namespace Object

theorem mem_parts_dict_insert {d : Dict} {key : Key} {v w : Value}
    (hw : w ∈ (Object.dict (d.insert key v)).parts) : w = key.toValue ∨ w = v ∨ w ∈ (Object.dict d).parts := by
  rcases List.mem_append.mp hw with hw | hw
  · obtain ⟨k, hk, rfl⟩ := List.mem_map.mp hw
    obtain ⟨e, he, rfl⟩ := List.mem_map.mp hk
    rcases OrderedMap.mem_insertEntry he with rfl | he
    · exact .inl rfl
    · exact .inr (.inr (List.mem_append_left _ (List.mem_map_of_mem (List.mem_map_of_mem he))))
  · obtain ⟨e, he, rfl⟩ := List.mem_map.mp hw
    rcases OrderedMap.mem_insertEntry he with rfl | he
    · exact .inr (.inl rfl)
    · exact .inr (.inr (List.mem_append_right _ (List.mem_map_of_mem he)))

theorem mem_parts_mapFields_insert {o : Object} {name : String} {v w : Value}
    (hw : w ∈ (o.mapFields (·.insert name v)).parts) : w = v ∨ w ∈ o.parts := by
  have hinsert {fields : Fields} (hw : w ∈ (fields.insert name v).values) : w = v ∨ w ∈ fields.values := by
    obtain ⟨e, he, rfl⟩ := List.mem_map.mp hw
    rcases OrderedMap.mem_insertEntry he with rfl | he
    · exact .inl rfl
    · exact .inr (List.mem_map_of_mem he)
  cases o with
  | «namespace» n => exact hinsert hw
  | «class» c =>
      rcases List.mem_append.mp hw with hw | hw
      · exact .inr (List.mem_append_left _ hw)
      · exact (hinsert hw).imp_right (List.mem_append_right _)
  | «instance» i =>
      rcases List.mem_append.mp hw with hw | hw
      · exact .inr (List.mem_append_left _ hw)
      · exact (hinsert hw).imp_right (List.mem_append_right _)
  | _ => exact .inr hw

@[simp] theorem scope?_mapFields (change : Fields → Fields) (o : Object) :
    (o.mapFields change).scope? = o.scope? := by
  cases o <;> rfl

end Object

namespace Enclave

/-- Nothing is set apart. -/
def empty : Enclave := { inside := fun _ => False, heap := {} }

/-! ## Values outside -/

section

variable (c : Enclave)

/-- The value is no object of the enclave. -/
def Outside : Value → Prop
  | .ref id => ¬ c.inside id
  | _ => True

def OutsideIf (found : Option Value) : Prop := ∀ v, found = some v → c.Outside v

/-- The value is no object, or one on the heap that is outside. -/
def Has (h : Heap) : Value → Prop
  | .ref id => id < h.size ∧ ¬ c.inside id
  | _ => True

def HasIf (h : Heap) (found : Option Value) : Prop := ∀ v, found = some v → c.Has h v

def HasAll (h : Heap) (values : List Value) : Prop := ∀ v ∈ values, c.Has h v

/-- The object is outside, and of the given kind. -/
def IsA (kind : ObjectKind) (h : Heap) (id : Nat) : Prop := h.kind? id = some kind ∧ ¬ c.inside id

/-- The value is an object of the given kind that is outside. -/
def HasKind (kind : ObjectKind) (h : Heap) (v : Value) : Prop := ∃ id, v = .ref id ∧ c.IsA kind h id

/-- No object of the scope is inside. -/
def Spares (scope : Scope) : Prop := ∀ id ∈ scope, ¬ c.inside id

/-- The scope is a chain to the root of objects that are outside. -/
structure Scoped (h : Heap) (scope : Scope) : Prop where
  chain : h.isScope scope = true
  spares : c.Spares scope

end

variable {c : Enclave} {h h' h'' : Heap} {v found : Value} {values values' : List Value} {scope : Scope}
  {id : Nat} {kind : ObjectKind}

theorem Has.has (hv : c.Has h v) : h.Has v := by
  cases v with
  | ref id => exact hv.1
  | _ => trivial

theorem Has.outside (hv : c.Has h v) : c.Outside v := by
  cases v with
  | ref id => exact hv.2
  | _ => trivial

theorem Outside.has (hv : c.Outside v) (hhas : h.Has v) : c.Has h v := by
  cases v with
  | ref id => exact ⟨hhas, hv⟩
  | _ => trivial

theorem outsideIf_none (c : Enclave) : c.OutsideIf none := fun _ hv => by cases hv

theorem outsideIf_some (hv : c.Outside v) : c.OutsideIf (some v) := fun _ heq => Option.some.inj heq ▸ hv

theorem Has.mono (hv : c.Has h v) (hkeeps : h.KeepsKinds h') : c.Has h' v :=
  hv.outside.has (hv.has.mono hkeeps)

theorem HasAll.mono (hvalues : c.HasAll h values) (hkeeps : h.KeepsKinds h') : c.HasAll h' values :=
  fun v hv => (hvalues v hv).mono hkeeps

theorem HasIf.getD {found : Option Value} (hfound : c.HasIf h found) (hv : c.Has h v) :
    c.Has h (found.getD v) := by
  cases found with
  | none => exact hv
  | some v => exact hfound v rfl

theorem has_of_scalar (hv : v.ref? = none) : c.Has h v := by
  cases v with
  | ref id => cases hv
  | _ => trivial

@[simp] theorem has_none : c.Has h .none := trivial

@[simp] theorem has_str (s : String) : c.Has h (.str s) := trivial

@[simp] theorem has_unknown : c.Has h .unknown := trivial

@[simp] theorem has_ofSize (n : Nat) : c.Has h (.ofSize n) := trivial

theorem hasIf_none : c.HasIf h none := fun _ hv => by cases hv

theorem hasIf_some (hv : c.Has h v) : c.HasIf h (some v) := fun _ heq => Option.some.inj heq ▸ hv

theorem hasAll_nil : c.HasAll h [] := fun _ hv => absurd hv List.not_mem_nil

theorem hasAll_cons (hv : c.Has h v) (hvalues : c.HasAll h values) : c.HasAll h (v :: values) :=
  List.forall_mem_cons.mpr ⟨hv, hvalues⟩

theorem hasAll_append (hvalues : c.HasAll h values) (hvalues' : c.HasAll h values') :
    c.HasAll h (values ++ values') :=
  fun v hv => (List.mem_append.mp hv).elim (hvalues v) (hvalues' v)

theorem has_argument (hvalues : c.HasAll h values) (i : Nat) : c.Has h (argument values i) := by
  unfold argument
  cases hi : values[i]? with
  | none => trivial
  | some v => exact hvalues v (List.mem_of_getElem? hi)

theorem has_key (hv : c.Has h v) : c.Has h (Key.ofValue v).toValue := by
  cases v with
  | ref id => exact hv
  | float x =>
      unfold Key.ofValue
      dsimp only
      split <;> trivial
  | _ => trivial

theorem IsA.mono (hid : c.IsA kind h id) (hkeeps : h.KeepsKinds h') : c.IsA kind h' id :=
  ⟨hkeeps hid.1, hid.2⟩

theorem IsA.has (hid : c.IsA kind h id) : c.Has h (.ref id) := ⟨Heap.lt_size_of_kind? hid.1, hid.2⟩

theorem HasKind.has (hv : c.HasKind kind h v) : c.Has h v := by
  obtain ⟨id, rfl, hid⟩ := hv
  exact hid.has

theorem Spares.of_suffix {inner : Scope} (hscope : c.Spares inner) (hsuffix : scope <:+ inner) :
    c.Spares scope := fun id hid => hscope id (hsuffix.subset hid)

theorem Scoped.mono (hscope : c.Scoped h scope) (hkeeps : h.KeepsKinds h') : c.Scoped h' scope :=
  ⟨Heap.isScope_mono hscope.chain hkeeps, hscope.spares⟩

/-- A scope that begins with an object of its own. -/
theorem Scoped.cons (hscope : c.Scoped h scope) (hid : h.holdsVariables id = true) (houtside : ¬ c.inside id) :
    c.Scoped h (id :: scope) where
  chain := Heap.isScope_cons hid hscope.chain
  spares := List.forall_mem_cons.mpr ⟨houtside, hscope.spares⟩

theorem Scoped.inNamespace (hscope : c.Scoped h scope) (hid : c.IsA .namespace h id) :
    c.Scoped h (id :: scope) := hscope.cons (Heap.holdsVariables_of_namespace hid.1) hid.2

theorem Scoped.inClass (hscope : c.Scoped h scope) (hid : c.IsA .class h id) : c.Scoped h (id :: scope) :=
  hscope.cons (Heap.holdsVariables_of_class hid.1) hid.2

/-- The end of a scope. -/
theorem Scoped.of_suffix {inner : Scope} (hscope : c.Scoped h inner) (hsuffix : scope <:+ inner)
    (hne : scope ≠ []) : c.Scoped h scope := by
  obtain ⟨hroot, hids⟩ := Heap.isScope_iff.mp hscope.chain
  refine ⟨Heap.isScope_iff.mpr ⟨?_, fun id hid => hids id (hsuffix.subset hid)⟩,
    hscope.spares.of_suffix hsuffix⟩
  exact List.suffix_of_suffix_length_le hroot hsuffix (List.length_pos_iff.mpr hne)

/-! ## Objects outside -/

/-- All that an object refers to is on the heap and outside. -/
structure Within (c : Enclave) (h : Heap) (o : Object) : Prop where
  parts : c.HasAll h o.parts
  scope : ∀ scope, o.scope? = some scope → c.Scoped h scope

namespace Within

variable {o : Object} {d : Dict}

theorem mono (ho : c.Within h o) (hkeeps : h.KeepsKinds h') : c.Within h' o :=
  ⟨ho.parts.mono hkeeps, fun scope hscope => (ho.scope scope hscope).mono hkeeps⟩

/-- An object that is no definition. -/
theorem of_parts (hparts : c.HasAll h o.parts) (hscope : o.scope? = none) : c.Within h o :=
  ⟨hparts, fun s hs => by rw [hscope] at hs; cases hs⟩

/-- An object that refers to nothing. -/
theorem of_nil (hparts : o.parts = []) (hscope : o.scope? = none) : c.Within h o :=
  of_parts (hparts ▸ hasAll_nil) hscope

theorem list (hvalues : c.HasAll h values) : c.Within h (.list values) := of_parts hvalues rfl

theorem dict_insert (hd : c.Within h (.dict d)) {key : Key} (hkey : c.Has h key.toValue) (hv : c.Has h v) :
    c.Within h (.dict (d.insert key v)) := by
  refine of_parts (fun w hw => ?_) rfl
  obtain rfl | rfl | hw := Object.mem_parts_dict_insert hw
  · exact hkey
  · exact hv
  · exact hd.parts w hw

theorem dict_ofList {entries : List (Key × Value)}
    (hentries : ∀ e ∈ entries, c.Has h e.1.toValue ∧ c.Has h e.2) : c.Within h (.dict (.ofList entries)) := by
  refine of_parts (fun w hw => ?_) rfl
  rcases List.mem_append.mp hw with hw | hw
  · obtain ⟨k, hk, rfl⟩ := List.mem_map.mp hw
    obtain ⟨e, he, rfl⟩ := List.mem_map.mp hk
    exact (hentries e (OrderedMap.mem_entries_ofList he)).1
  · obtain ⟨e, he, rfl⟩ := List.mem_map.mp hw
    exact (hentries e (OrderedMap.mem_entries_ofList he)).2

theorem mapFields_insert (ho : c.Within h o) (name : String) (hv : c.Has h v) :
    c.Within h (o.mapFields (·.insert name v)) where
  parts w hw := by
    obtain rfl | hw := Object.mem_parts_mapFields_insert hw
    · exact hv
    · exact ho.parts w hw
  scope s hs := ho.scope s (by rwa [Object.scope?_mapFields] at hs)

/-- The keys and values of a dictionary. -/
theorem entry (hd : c.Within h (.dict d)) {e : Key × Value} (he : e ∈ d.entries) :
    c.Has h e.1.toValue ∧ c.Has h e.2 :=
  ⟨hd.parts _ (List.mem_append_left _ (List.mem_map_of_mem (List.mem_map_of_mem he))),
    hd.parts _ (List.mem_append_right _ (List.mem_map_of_mem he))⟩

theorem get?_dict (hd : c.Within h (.dict d)) (key : Key) : c.HasIf h (d.get? key) :=
  fun _ hfound => hd.parts _ (List.mem_append_right _ (OrderedMap.mem_values_of_get? hfound))

theorem field (ho : c.Within h o) {fields : Fields} (hfields : o.fields? = some fields) (name : String) :
    c.HasIf h (fields.get? name) :=
  fun _ hfound => ho.parts _ (Object.mem_parts_of_fields hfields (OrderedMap.mem_values_of_get? hfound))

end Within

/-- What objects outside refer to is on the heap and outside. The root is a namespace outside, and the
enclave stands as it is to stay. -/
structure Closed (c : Enclave) (h : Heap) : Prop where
  within : ∀ {id o}, ¬ c.inside id → h.get? id = some o → c.Within h o
  root : c.IsA .namespace h 0
  stands : ∀ {id}, c.inside id → id < h.size ∧ h.get? id = c.heap.get? id

/-! ## What is looked up -/

namespace Closed

variable (hh : c.Closed h)
include hh

theorem spares_root : c.Spares rootScope := by
  intro id hid
  rw [List.mem_singleton.mp hid]
  exact hh.root.2

theorem scoped_root : c.Scoped h rootScope := by
  refine ⟨Heap.isScope_iff.mpr ⟨List.suffix_refl _, fun id hid => ?_⟩, hh.spares_root⟩
  rw [List.mem_singleton.mp hid]
  exact Heap.holdsVariables_of_namespace hh.root.1

theorem not_inside_size : ¬ c.inside h.size := fun hin => Nat.lt_irrefl _ (hh.stands hin).1

theorem within_object? (hv : c.Outside v) {o : Object} (ho : h.object? v = some o) : c.Within h o := by
  cases v with
  | ref id => exact hh.within hv ho
  | _ => cases ho

theorem items? (hv : c.Outside v) {items : List Value} (hitems : h.items? v = some items) :
    c.HasAll h items := by
  unfold Heap.items? at hitems
  split at hitems <;> cases hitems
  exact (hh.within_object? hv ‹_›).parts

theorem dict? (hv : c.Outside v) {d : Dict} (hd : h.dict? v = some d) : c.Within h (.dict d) := by
  unfold Heap.dict? at hd
  split at hd <;> cases hd
  exact hh.within_object? hv ‹_›

theorem instance? (hv : c.Outside v) {i : Instance} (hi : h.instance? v = some i) :
    c.Within h (.instance i) := by
  unfold Heap.instance? at hi
  split at hi <;> cases hi
  exact hh.within_object? hv ‹_›

theorem getItems (hv : c.Outside v) : c.HasAll h ((h.items? v).getD []) := by
  cases hitems : h.items? v with
  | none => exact hasAll_nil
  | some items => exact hh.items? hv hitems

/-- A value that is no dictionary counts as the empty one. -/
theorem dictOrEmpty (hv : c.Outside v) : c.Within h (.dict ((h.dict? v).getD {})) := by
  cases hd : h.dict? v with
  | none => exact .of_nil rfl rfl
  | some d => exact hh.dict? hv hd

theorem fields? (hid : ¬ c.inside id) {fields : Fields} (hfields : h.fields? id = some fields)
    (name : String) : c.HasIf h (fields.get? name) := by
  obtain ⟨o, ho, hfields⟩ := Option.bind_eq_some_iff.mp hfields
  exact (hh.within hid ho).field hfields name

theorem ownAttribute? (hv : c.Outside v) (name : String) : c.HasIf h (h.ownAttribute? v name) := by
  intro found hfound
  unfold Heap.ownAttribute? at hfound
  split at hfound
  · exact (hh.within_object? hv ‹_›).get?_dict _ found hfound
  · obtain ⟨fields, hfields, hfound⟩ := Option.bind_eq_some_iff.mp hfound
    exact (hh.within_object? hv ‹_›).field hfields name found hfound
  · cases hfound

theorem inheritedAttribute? (hv : c.Outside v) (name : String) :
    c.HasIf h (h.inheritedAttribute? v name) := by
  intro found hfound
  unfold Heap.inheritedAttribute? at hfound
  split at hfound
  · next i hi =>
      obtain ⟨fields, hfields, hfound⟩ := Option.bind_eq_some_iff.mp hfound
      obtain ⟨id, hid, hfields⟩ := Option.bind_eq_some_iff.mp hfields
      -- The class is one of the parts of an instance.
      have hclass : Value.ref id ∈ (Object.instance i).parts :=
        List.mem_append_left _ (by rw [hid]; exact List.mem_singleton_self _)
      exact hh.fields? ((hh.within_object? hv hi).parts _ hclass).2 hfields name found hfound
  · split_ifs at hfound <;> cases hfound <;> trivial
  · cases hfound

theorem attribute? (hv : c.Outside v) (name : String) : c.HasIf h (h.attribute? v name) := by
  intro found hfound
  rcases Option.or_eq_some_iff.mp hfound with hown | ⟨-, hinherited⟩
  · exact hh.ownAttribute? hv name found hown
  · exact hh.inheritedAttribute? hv name found hinherited

theorem item? (hv : c.Outside v) (index : Value) : c.HasIf h (h.item? v index) := by
  intro found hfound
  unfold Heap.item? at hfound
  split at hfound
  · obtain ⟨i, -, hi⟩ := Option.bind_eq_some_iff.mp hfound
    exact (hh.within_object? hv ‹_›).parts _ (List.mem_of_getElem? hi)
  · exact (hh.within_object? hv ‹_›).get?_dict _ found hfound
  · obtain ⟨byte, -, rfl⟩ := Option.map_eq_some_iff.mp hfound
    trivial
  · obtain ⟨name, -, hfound⟩ := Option.bind_eq_some_iff.mp hfound
    obtain ⟨fields, hfields, hfound⟩ := Option.bind_eq_some_iff.mp hfound
    exact (hh.within_object? hv ‹_›).field hfields name found hfound
  · cases hfound

theorem lookup? (hscope : c.Spares scope) (name : String) : c.HasIf h (h.lookup? scope name) := by
  intro found hfound
  obtain ⟨id, hid, hfound⟩ := List.exists_of_findSome?_eq_some hfound
  obtain ⟨fields, hfields, hfound⟩ := Option.bind_eq_some_iff.mp hfound
  exact hh.fields? (hscope id hid) hfields name found hfound

theorem follow? (hv : c.Has h v) (path : List String) : c.HasIf h (h.follow? v path) := by
  intro found hfound
  induction path generalizing v with
  | nil =>
      unfold Heap.follow? at hfound
      split_ifs at hfound
      cases hfound
      exact hv
  | cons name rest ih =>
      unfold Heap.follow? at hfound
      split_ifs at hfound
      obtain ⟨next, hnext, hfound⟩ := Option.bind_eq_some_iff.mp hfound
      exact ih (hh.attribute? hv.outside name next hnext) hfound

theorem resolve? (hscope : c.Spares scope) (path : List String) : c.HasIf h (h.resolve? scope path) := by
  intro found hfound
  cases path with
  | nil => cases hfound
  | cons first rest =>
      obtain ⟨next, hnext, hfound⟩ := Option.bind_eq_some_iff.mp hfound
      exact hh.follow? (hh.lookup? hscope first next hnext) rest found hfound

theorem identifier (hscope : c.Spares scope) (name : String) : c.Has h (h.identifier scope name) := by
  have hlookup := hh.lookup? hscope name
  unfold Heap.identifier
  split
  · trivial
  · trivial
  · trivial
  · exact hlookup.getD trivial
  · refine HasIf.getD (fun v hv => ?_) trivial
    rcases Option.or_eq_some_iff.mp hv with hclass | ⟨-, hv⟩
    · obtain ⟨package, -, hfound⟩ := List.exists_of_findSome?_eq_some hclass
      exact hh.resolve? hh.spares_root _ v (Option.filter_eq_some_iff.mp hfound).1
    · exact hlookup v hv

end Closed

/-! ## Changes -/

/-- The second heap has all objects of the first, and is closed around the enclave. -/
structure Evolves (c : Enclave) (h h' : Heap) : Prop where
  keeps : h.KeepsKinds h'
  closed : c.Closed h'

theorem Evolves.trans (first : c.Evolves h h') (second : c.Evolves h' h'') : c.Evolves h h'' :=
  ⟨first.keeps.trans second.keeps, second.closed⟩

namespace Closed

variable (hh : c.Closed h)
include hh

theorem evolves : c.Evolves h h := ⟨.refl h, hh⟩

theorem push {o : Object} (ho : c.Within h o) : c.Evolves h (h.push o) where
  keeps := Heap.keeps_push h o
  closed :=
    { within := fun hid ho' => by
        rw [Heap.get?_push] at ho'
        split_ifs at ho'
        · cases ho'
          exact ho.mono (Heap.keeps_push h o)
        · exact (hh.within hid ho').mono (Heap.keeps_push h o)
      root := hh.root.mono (Heap.keeps_push h o)
      stands := fun hin => by
        obtain ⟨hlt, hget⟩ := hh.stands hin
        rw [Heap.get?_push_of_lt hlt, Heap.size_push]
        exact ⟨Nat.lt_succ_of_lt hlt, hget⟩ }

theorem modify (hid : ¬ c.inside id) {change : Object → Object} (hkind : ∀ o, (change o).kind = o.kind)
    (hchange : ∀ o, c.Within h o → c.Within h (change o)) : c.Evolves h (h.modify id change) where
  keeps := Heap.keeps_modify id hkind
  closed :=
    { within := fun {other o'} hother ho' => by
        rw [Heap.get?_modify] at ho'
        split_ifs at ho'
        · obtain ⟨o, ho, rfl⟩ := Option.map_eq_some_iff.mp ho'
          exact (hchange o (hh.within hid ho)).mono (Heap.keeps_modify id hkind)
        · exact (hh.within hother ho').mono (Heap.keeps_modify id hkind)
      root := hh.root.mono (Heap.keeps_modify id hkind)
      stands := fun {other} hin => by
        have hne : id ≠ other := fun heq => hid (heq ▸ hin)
        rw [Heap.size_modify, Heap.get?_modify, if_neg hne]
        exact hh.stands hin }

theorem setAttribute {target : Value} (htarget : c.Outside target) (name : String) (hv : c.Has h v) :
    c.Evolves h (h.setAttribute target name v) := by
  cases target with
  | ref id =>
      refine hh.modify htarget (fun o => by cases o <;> rfl) fun o ho => ?_
      cases o with
      | dict d => exact ho.dict_insert trivial hv
      | _ => exact ho.mapFields_insert name hv
  | _ => exact hh.evolves

omit hh in
theorem setAttributes (hh : c.Closed h) {target : Value} (htarget : c.Outside target)
    {entries : List (String × Value)} (hentries : ∀ e ∈ entries, c.Has h e.2) :
    c.Evolves h (h.setAttributes target entries) := by
  induction entries generalizing h with
  | nil => exact hh.evolves
  | cons e rest ih =>
      obtain ⟨hv, hrest⟩ := List.forall_mem_cons.mp hentries
      have hfirst := hh.setAttribute htarget e.1 hv
      exact hfirst.trans (ih hfirst.closed fun e he => (hrest e he).mono hfirst.keeps)

theorem setItem {target index : Value} (htarget : c.Outside target) (hindex : c.Has h index)
    (hv : c.Has h v) : c.Evolves h (h.setItem target index v) := by
  cases target with
  | ref id =>
      refine hh.modify htarget (fun o => ?_) fun o ho => ?_
      · cases o with
        | list items => dsimp only; split <;> rfl
        | dict d => rfl
        | _ => dsimp only; split <;> rfl
      · cases o with
        | list items =>
            dsimp only
            split
            · refine .list fun i hi => ?_
              split_ifs at hi
              · rcases List.mem_append.mp hi with hi | hi
                · exact ho.parts i hi
                · rwa [List.mem_singleton.mp hi]
              · rcases List.mem_or_eq_of_mem_set hi with hi | rfl
                · exact ho.parts i hi
                · exact hv
            · exact ho
        | dict d => exact ho.dict_insert (has_key hindex) hv
        | _ =>
            dsimp only
            split
            · exact ho.mapFields_insert _ hv
            · exact ho
  | _ => exact hh.evolves

omit hh in
theorem setItems (hh : c.Closed h) {target : Value} (htarget : c.Outside target)
    {entries : List (Key × Value)} (hentries : ∀ e ∈ entries, c.Has h e.1.toValue ∧ c.Has h e.2) :
    c.Evolves h (entries.foldl (fun h e => h.setItem target e.1.toValue e.2) h) := by
  induction entries generalizing h with
  | nil => exact hh.evolves
  | cons e rest ih =>
      obtain ⟨⟨hkey, hv⟩, hrest⟩ := List.forall_mem_cons.mp hentries
      have hfirst := hh.setItem htarget hkey hv
      refine hfirst.trans (ih hfirst.closed fun e he => ?_)
      exact ⟨(hrest e he).1.mono hfirst.keeps, (hrest e he).2.mono hfirst.keeps⟩

theorem assign (hscope : c.Spares scope) (name : String) (hv : c.Has h v) :
    c.Evolves h (h.assign scope name v) := by
  cases scope with
  | nil => exact hh.evolves
  | cons id _ =>
      exact hh.modify (hscope id List.mem_cons_self) (Object.kind_mapFields _) fun o ho =>
        ho.mapFields_insert name hv

theorem child {parent : Value} (hparent : c.Outside parent) (name : String) :
    c.Outside (h.child parent name).1 ∧ c.Evolves h (h.child parent name).2 := by
  unfold Heap.child
  split
  · next id hfound => exact ⟨(hh.ownAttribute? hparent name _ hfound).outside, hh.evolves⟩
  · have hpush : c.Evolves h (h.push (.namespace {})) := hh.push (.of_nil rfl rfl)
    have hmade : c.Has (h.push (.namespace {})) (.ref h.size) :=
      ⟨by rw [Heap.size_push]; exact Nat.lt_succ_self _, hh.not_inside_size⟩
    exact ⟨hmade.outside, hpush.trans (hpush.closed.setAttribute hparent name hmade)⟩

omit hh in
theorem bindPath (hh : c.Closed h) {target : Value} (htarget : c.Outside target) (path : List String)
    (hv : c.Has h v) : c.Evolves h (h.bindPath target path v) := by
  induction path generalizing h target with
  | nil => exact hh.evolves
  | cons name rest ih =>
      cases rest with
      | nil => exact hh.setAttribute htarget name hv
      | cons next rest =>
          obtain ⟨hnext, hchild⟩ := hh.child htarget name
          exact hchild.trans (ih hchild.closed hnext (hv.mono hchild.keeps))

theorem bind (hscope : c.Spares scope) (path : List String) (hv : c.Has h v) :
    c.Evolves h (h.bind scope path v) := by
  cases scope with
  | nil => exact hh.evolves
  | cons id _ =>
      have htarget : c.Outside (.ref id) := hscope id List.mem_cons_self
      exact hh.bindPath htarget path hv

theorem modifyTag (hid : ¬ c.inside id) (change : Tag → Tag) : c.Evolves h (h.modifyTag id change) := by
  refine hh.modify hid (fun o => by cases o <;> rfl) fun o ho => ?_
  cases o with
  | «instance» i => exact .of_parts ho.parts rfl
  | _ => exact ho

/-- Items appended to a list. -/
theorem append (hid : ¬ c.inside id) {items : List Value} (hitems : c.HasAll h items) :
    c.Evolves h (h.modify id fun
      | .list old => .list (old ++ items)
      | o => o) := by
  refine hh.modify hid (fun o => by cases o <;> rfl) fun o ho => ?_
  cases o with
  | list old => exact .list (hasAll_append ho.parts hitems)
  | _ => exact ho

end Closed

/-! ## Without an enclave -/

theorem outside_empty (v : Value) : empty.Outside v := by
  cases v with
  | ref id => exact fun hin => hin
  | _ => trivial

theorem has_empty : empty.Has = Heap.Has := by
  funext h v
  cases v <;> simp [Has, Heap.Has, empty]

theorem hasAll_empty : empty.HasAll = Heap.HasAll := by
  funext h values
  rw [HasAll, Heap.HasAll, has_empty]

theorem scoped_empty {scope : Scope} : empty.Scoped h scope ↔ h.isScope scope = true :=
  ⟨fun hscope => hscope.chain, fun hscope => ⟨hscope, fun _ _ => id⟩⟩

theorem within_empty {o : Object} : empty.Within h o ↔ o.Within h := by
  have hparts : empty.HasAll h o.parts ↔ ∀ v ∈ o.parts, h.Has v := by
    rw [HasAll, has_empty]
  constructor
  · exact fun ho => ⟨hparts.mp ho.parts, fun scope hscope => (ho.scope scope hscope).chain⟩
  · exact fun ho => ⟨hparts.mpr ho.parts, fun scope hscope => scoped_empty.mpr (ho.scope scope hscope)⟩

theorem closed_empty : empty.Closed h ↔ h.Closed := by
  constructor
  · exact fun hh => ⟨fun ho => within_empty.mp (hh.within id ho), hh.root.1⟩
  · exact fun hh => ⟨fun _ ho => within_empty.mpr (hh.within ho), ⟨hh.root, id⟩, False.elim⟩

end Enclave

end ModelGraph
