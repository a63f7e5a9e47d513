import ModelGraph.Proofs.Archive.ManifestTensors
import ModelGraph.Proofs.Arena.Requests

/-!
# Modules of a manifest

A manifest's tree of modules becomes a tree of records. The records are made level by level, as a queue
would take the modules: each record gets its items from the two tables and new records for its submodules,
and is not changed again.
-/

namespace ModelGraph

open Restore Pickle

/-! ## What a manifest describes -/

namespace ManifestModule

/-- A module of the tree that begins with another. -/
inductive Holds : ManifestModule → ManifestModule → Prop
  | self (m : ManifestModule) : Holds m m
  | deeper {m s d : ManifestModule} : s ∈ m.submodules → Holds s d → Holds m d

/-- The names under which a module has its tensors, attributes and submodules. -/
def fieldNames (d : ManifestModule) : List String :=
  (d.parameters ++ d.arguments).map (·.name) ++ d.attributes.map (·.name) ++ d.submodules.map (·.name)

/-- All items of the module are in the tables, which have so many entries. -/
structure Resolves (d : ManifestModule) (tensors attributes : Nat) : Prop where
  tensors : ∀ e ∈ d.parameters ++ d.arguments, e.index < tensors
  attributes : ∀ e ∈ d.attributes, e.index < attributes

/-- The text names an item of the module that its table does not have. -/
def Misses (d : ManifestModule) (tensors attributes : Nat) (text : String) : Prop :=
  (∃ e ∈ d.parameters ++ d.arguments, tensors ≤ e.index ∧ text = "tensor " ++ toString e.index) ∨
    ∃ e ∈ d.attributes, attributes ≤ e.index ∧ text = "attribute " ++ toString e.index

theorem height_pos (m : ManifestModule) : 0 < m.height := by
  cases m
  rw [height]
  omega

theorem height_le_heights {m : ManifestModule} {ms : List ManifestModule} (hm : m ∈ ms) :
    m.height ≤ heights ms := by
  induction ms with
  | nil => cases hm
  | cons first rest ih =>
      rw [heights]
      rcases List.mem_cons.mp hm with rfl | hm
      · exact Nat.le_max_left _ _
      · exact Nat.le_trans (ih hm) (Nat.le_max_right _ _)

theorem height_lt {m s : ManifestModule} (hs : s ∈ m.submodules) : s.height < m.height := by
  have hle := height_le_heights hs
  cases m
  rw [height]
  dsimp only at hle
  omega

end ManifestModule

/-- Named items of a table. -/
def tableFields (table : List Value) (entries : List ManifestItem) : List (String × Value) :=
  entries.map fun e => (e.name, (table[e.index]?).getD .none)

namespace Heap

/-- The value is a module's record with exactly the fields that are described: tensors, attributes and the
given children, which are those of the submodules. -/
structure ShowsModule (h : Heap) (tensors attributes : List Value) (d : ManifestModule) (v : Value)
    (children : List (ManifestModule × Value)) : Prop where
  submodules : children.map (·.1) = d.submodules
  record : h.object? v = some (.instance
    { module := "torch.nn.modules.module", name := "Module", fields :=
        ⟨tableFields tensors (d.parameters ++ d.arguments) ++ tableFields attributes d.attributes ++
          children.map fun c => (c.1.name, c.2)⟩ })

abbrev ShowsLevel (h : Heap) (tensors attributes : List Value) (modules : List (ManifestModule × Value))
    (made : List (List (ManifestModule × Value))) : Prop :=
  List.Forall₂ (fun p children => h.ShowsModule tensors attributes p.1 p.2 children) modules made

/-- The value is the root of a tree of records like that of the modules. -/
inductive Mirrors (h : Heap) (tensors attributes : List Value) : ManifestModule → Value → Prop
  | intro {d : ManifestModule} {v : Value} {children : List (ManifestModule × Value)} :
      h.ShowsModule tensors attributes d v children →
      (∀ c ∈ children, Mirrors h tensors attributes c.1 c.2) → Mirrors h tensors attributes d v

/-- The order in which a queue of modules and their records is worked off, where the children of each join
the end of the queue. -/
inductive Queue (h : Heap) (tensors attributes : List Value) :
    List (ManifestModule × Value) → List (ManifestModule × Value) → Prop
  | done : Queue h tensors attributes [] []
  | visit {d : ManifestModule} {v : Value} {children waiting order : List (ManifestModule × Value)} :
      h.ShowsModule tensors attributes d v children → Queue h tensors attributes (waiting ++ children) order →
      Queue h tensors attributes ((d, v) :: waiting) ((d, v) :: order)

variable {h h' : Heap} {tensors attributes : List Value}

theorem Queue.mirrors {waiting order : List (ManifestModule × Value)}
    (hqueue : h.Queue tensors attributes waiting order) :
    ∀ p ∈ waiting, h.Mirrors tensors attributes p.1 p.2 := by
  induction hqueue with
  | done => exact fun p hp => absurd hp List.not_mem_nil
  | visit hshows _ ih =>
      refine List.forall_mem_cons.mpr ⟨.intro hshows fun c hc => ?_, fun p hp => ?_⟩
      · exact ih c (List.mem_append_right _ hc)
      · exact ih p (List.mem_append_left _ hp)

/-- A queue takes a level of modules before that of their children. -/
theorem queue_level {modules waiting order : List (ManifestModule × Value)}
    {made : List (List (ManifestModule × Value))}
    (hlevel : h.ShowsLevel tensors attributes modules made)
    (hqueue : h.Queue tensors attributes (waiting ++ made.flatten) order) :
    h.Queue tensors attributes (modules ++ waiting) (modules ++ order) := by
  induction hlevel generalizing waiting with
  | nil => simpa using hqueue
  | @cons p children modules made hshows _ ih =>
      have hrest : h.Queue tensors attributes (modules ++ (waiting ++ children)) (modules ++ order) := by
        apply ih
        rwa [List.append_assoc, ← List.flatten_cons]
      rw [← List.append_assoc] at hrest
      exact .visit hshows hrest

/-! ## What a change leaves alone -/

/-- No object is taken away, and those that are none of some values stay as they are. -/
structure KeepsOthers (values : List Value) (h h' : Heap) : Prop where
  size_le : h.size ≤ h'.size
  get? : ∀ {id o}, .ref id ∉ values → h.get? id = some o → h'.get? id = some o

theorem KeepsOthers.refl (values : List Value) (h : Heap) : KeepsOthers values h h where
  size_le := Nat.le_refl _
  get? _ ho := ho

theorem KeepsOthers.mono {values values' : List Value} (hkeeps : KeepsOthers values h h')
    (hsub : values ⊆ values') : KeepsOthers values' h h' where
  size_le := hkeeps.size_le
  get? hnot ho := hkeeps.get? (fun hmem => hnot (hsub hmem)) ho

theorem KeepsOthers.trans {values values' : List Value} {h₀ h₁ h₂ : Heap} (first : KeepsOthers values h₀ h₁)
    (second : KeepsOthers values' h₁ h₂) : KeepsOthers (values ++ values') h₀ h₂ where
  size_le := Nat.le_trans first.size_le second.size_le
  get? hid ho := by
    rw [List.mem_append, not_or] at hid
    exact second.get? hid.2 (first.get? hid.1 ho)

theorem KeepsOthers.push (h : Heap) (o : Object) : KeepsOthers [] h (h.push o) where
  size_le := by rw [size_push]; omega
  get? _ ho := extends_push h o ho

theorem KeepsOthers.ofUpdates {id : Nat} {o : Object} {h h' : Heap} (hset : h.Updates id o h') :
    KeepsOthers [.ref id] h h' where
  size_le := Nat.le_of_eq hset.size_eq.symm
  get? {other o'} hnot ho' := by
    refine (hset.get?_of_ne other ?_).trans ho'
    rintro rfl
    exact hnot List.mem_cons_self

/-- The value is none of so many first objects. -/
def IsNew (old : Nat) (v : Value) : Prop := ∃ id, v = .ref id ∧ old ≤ id

theorem IsNew.older {old old' : Nat} {v : Value} (hv : IsNew old v) (hle : old' ≤ old) : IsNew old' v := by
  obtain ⟨id, rfl, hold⟩ := hv
  exact ⟨id, rfl, Nat.le_trans hle hold⟩

/-- A change of later objects leaves the first ones as they are. -/
theorem KeepsOthers.trans_new {values values' : List Value} {h₀ h₁ h₂ : Heap} (first : KeepsOthers values h₀ h₁)
    (second : KeepsOthers values' h₁ h₂) (hnew : ∀ v ∈ values', IsNew h₀.size v) :
    KeepsOthers values h₀ h₂ where
  size_le := Nat.le_trans first.size_le second.size_le
  get? {id o} hid ho := by
    apply second.get? _ (first.get? hid ho)
    intro hmem
    obtain ⟨other, heq, hle⟩ := hnew _ hmem
    cases heq
    exact absurd (lt_size_of_get? ho) (Nat.not_lt.mpr hle)

theorem ShowsModule.keeps {d : ManifestModule} {v : Value} {children : List (ManifestModule × Value)}
    {values : List Value} (hshows : h.ShowsModule tensors attributes d v children)
    (hkeeps : KeepsOthers values h h') (hnot : v ∉ values) :
    h'.ShowsModule tensors attributes d v children := by
  refine ⟨hshows.submodules, ?_⟩
  have hrecord := hshows.record
  cases v with
  | ref id => exact hkeeps.get? hnot hrecord
  | _ => cases hrecord

theorem keeps_level {modules : List (ManifestModule × Value)} {made : List (List (ManifestModule × Value))}
    {values : List Value}
    (hlevel : h.ShowsLevel tensors attributes modules made)
    (hkeeps : KeepsOthers values h h') (hnot : ∀ p ∈ modules, p.2 ∉ values) :
    h'.ShowsLevel tensors attributes modules made := by
  induction hlevel with
  | nil => exact .nil
  | cons hshows _ ih =>
      obtain ⟨hfirst, hrest⟩ := List.forall_mem_cons.mp hnot
      exact .cons (hshows.keeps hkeeps hfirst) (ih hrest)

end Heap

/-! ## Making -/

namespace Bundle

open Heap (KeepsOthers IsNew)

variable {w : Workspace Unit} {tensors attributes : List Value}

def bareModule : Instance := { module := "torch.nn.modules.module", name := "Module" }

theorem outcome_newModule (w : Workspace Unit) : newModule.outcome w =
    (.ok (.ref w.machine.heap.size), withHeap w (w.machine.heap.push (.instance bareModule))) := rfl

theorem outcome_setAttribute (target : Value) (name : String) (v : Value) (w : Workspace Unit) :
    (exec (Exec.setAttribute target name v)).outcome w =
      (.ok (), withHeap w (w.machine.heap.setAttribute target name v)) := rfl

theorem setItems_cons (target : Value) (what : String) (table : List Value) (e : ManifestItem)
    (entries : List ManifestItem) : setItems target what table (e :: entries) = (do
      match table[e.index]? with
      | some v => exec (Exec.setAttribute target e.name v)
      | none => throw (.unresolved (what ++ " " ++ toString e.index))
      setItems target what table entries) := by
  unfold setItems
  rw [List.forIn_cons]
  cases table[e.index]? <;> rfl

theorem outcome_setItems (target : Value) (what : String) {table : List Value} {entries : List ManifestItem}
    (hentries : ∀ e ∈ entries, e.index < table.length) (w : Workspace Unit) :
    (setItems target what table entries).outcome w =
      (.ok (), withHeap w (w.machine.heap.setAttributes target (tableFields table entries))) := by
  induction entries generalizing w with
  | nil => rfl
  | cons e entries ih =>
      obtain ⟨he, hrest⟩ := List.forall_mem_cons.mp hentries
      have hfound : table[e.index]? = some table[e.index] := List.getElem?_eq_getElem he
      rw [setItems_cons, hfound]
      dsimp only
      rw [outcome_bind_ok (outcome_setAttribute _ _ _ _), ih hrest]
      simp only [tableFields, List.map_cons, hfound]
      rfl

/-- The value is a record that is new to a heap with so many objects, and has no fields yet. -/
def Bare (old : Nat) (h : Heap) (v : Value) : Prop :=
  ∃ id, v = .ref id ∧ old ≤ id ∧ h.get? id = some (.instance bareModule)

theorem Bare.isNew {old : Nat} {h : Heap} {v : Value} (hv : Bare old h v) : IsNew old v := by
  obtain ⟨id, heq, hold, -⟩ := hv
  exact ⟨id, heq, hold⟩

theorem Bare.not_isNew {old : Nat} {h : Heap} {v : Value} (hv : Bare old h v) : ¬ IsNew h.size v := by
  obtain ⟨id, rfl, -, hid⟩ := hv
  rintro ⟨other, heq, hle⟩
  cases heq
  exact absurd (Heap.lt_size_of_get? hid) (Nat.not_lt.mpr hle)

theorem Bare.keeps {old : Nat} {h h' : Heap} {v : Value} {values : List Value} (hv : Bare old h v)
    (hkeeps : KeepsOthers values h h') (hnot : v ∉ values) : Bare old h' v := by
  obtain ⟨id, rfl, hold, hid⟩ := hv
  exact ⟨id, rfl, hold, hkeeps.get? hnot hid⟩

theorem Bare.older {old old' : Nat} {h : Heap} {v : Value} (hv : Bare old h v) (hle : old' ≤ old) :
    Bare old' h v := by
  obtain ⟨id, rfl, hold, hid⟩ := hv
  exact ⟨id, rfl, Nat.le_trans hle hold, hid⟩

/-- The new record for a submodule becomes a field of its module's record. -/
def addChild (target : Value) (s : ManifestModule) : Restore Unit (ManifestModule × Value) := do
  let child ← newModule
  exec (Exec.setAttribute target s.name child)
  return (s, child)

theorem exists_outcome_children {id : Nat} {i : Instance} (submodules : List ManifestModule)
    (hid : w.machine.heap.get? id = some (.instance i)) : ∃ children h',
      (submodules.mapM (addChild (.ref id))).outcome w = (.ok children, withHeap w h') ∧
      children.map (·.1) = submodules ∧
      h'.get? id = some (.instance { i with fields :=
        (children.map fun c => (c.1.name, c.2)).foldl (fun f e => f.insert e.1 e.2) i.fields }) ∧
      KeepsOthers [.ref id] w.machine.heap h' ∧ (∀ c ∈ children, Bare w.machine.heap.size h' c.2) ∧
      (children.map (·.2)).Nodup := by
  induction submodules generalizing w i with
  | nil => exact ⟨[], w.machine.heap, rfl, rfl, hid, .refl _ _, by simp, List.nodup_nil⟩
  | cons s submodules ih =>
      let h := w.machine.heap
      have hlt : id < h.size := Heap.lt_size_of_get? hid
      have hpush := Heap.get?_push_size h (.instance bareModule)
      let h₁ := (h.push (.instance bareModule)).setAttribute (.ref id) s.name (.ref h.size)
      have hset : (h.push (.instance bareModule)).Updates id
          (.instance { i with fields := i.fields.insert s.name (.ref h.size) }) h₁ :=
        Heap.updates_modify (Heap.extends_push h _ hid) rfl
      have hsize : h₁.size = h.size + 1 := hset.size_eq.trans (Heap.size_push _ _)
      obtain ⟨children, h', hrest, hsubs, hrecord, hkeeps, hbare, hnodup⟩ := ih (w := withHeap w h₁) hset.get?_self
      rw [heap_withHeap, hsize] at hbare
      have hchild : Bare h.size h' (.ref h.size) :=
        ⟨h.size, rfl, Nat.le_refl _, hkeeps.get? (by simp; omega) ((hset.get?_of_ne _ (by omega)).trans hpush)⟩
      refine ⟨(s, .ref h.size) :: children, h', ?_, by rw [List.map_cons, hsubs], hrecord, ?_, ?_, ?_⟩
      · have hfirst : (addChild (.ref id) s).outcome w = (.ok (s, .ref h.size), withHeap w h₁) := rfl
        rw [List.mapM_cons, outcome_bind_ok hfirst, outcome_bind_ok hrest]
        rfl
      · exact (((KeepsOthers.push h (.instance bareModule)).trans (.ofUpdates hset)).trans hkeeps).mono (by simp)
      · exact List.forall_mem_cons.mpr ⟨hchild, fun c hc => (hbare c hc).older (Nat.le_succ _)⟩
      · refine List.nodup_cons.mpr ⟨fun hmem => ?_, hnodup⟩
        obtain ⟨c, hc, heq⟩ := List.mem_map.mp hmem
        obtain ⟨other, hother, hle⟩ := (hbare c hc).isNew
        cases heq.symm.trans hother
        omega

theorem exists_outcome_buildModule {d : ManifestModule} {old : Nat} {v : Value} (hv : Bare old w.machine.heap v)
    (hresolves : d.Resolves tensors.length attributes.length) (hnames : d.fieldNames.Nodup) : ∃ children h',
      (buildModule tensors attributes d v).outcome w = (.ok children, withHeap w h') ∧
      h'.ShowsModule tensors attributes d v children ∧ KeepsOthers [v] w.machine.heap h' ∧
      (∀ c ∈ children, Bare w.machine.heap.size h' c.2) ∧ (children.map (·.2)).Nodup := by
  obtain ⟨id, rfl, -, hid⟩ := hv
  let given := tableFields tensors (d.parameters ++ d.arguments)
  let items := tableFields attributes d.attributes
  let h₁ := (w.machine.heap.setAttributes (.ref id) given).setAttributes (.ref id) items
  have hset : w.machine.heap.Updates id (.instance
      { bareModule with fields := (given ++ items).foldl (fun f e => f.insert e.1 e.2) {} }) h₁ := by
    have hall := Heap.updates_setAttributes (given ++ items) hid
    rwa [Heap.setAttributes_append] at hall
  obtain ⟨children, h', hmade, hsubs, hrecord, hkeeps, hbare, hnodup⟩ :=
    exists_outcome_children (w := withHeap w h₁) d.submodules hset.get?_self
  refine ⟨children, h', ?_, ⟨hsubs, ?_⟩, ?_, ?_, hnodup⟩
  · unfold buildModule
    rw [outcome_bind_ok (outcome_setItems _ _ hresolves.tensors _),
      outcome_bind_ok (outcome_setItems _ _ hresolves.attributes _)]
    exact hmade
  · have hchildren : children.map (fun c => c.1.name) = d.submodules.map (·.name) := by
      rw [← hsubs, List.map_map]
      rfl
    have hfields := OrderedMap.foldl_insert (given ++ items ++ children.map fun c => (c.1.name, c.2)) {} (by
      simpa [given, items, tableFields, ManifestModule.fieldNames, Function.comp_def, hchildren] using hnames)
    rw [List.foldl_append] at hfields
    exact hrecord.trans (congrArg (fun fields => some (Object.instance { bareModule with fields })) hfields)
  · exact ((KeepsOthers.ofUpdates hset).trans hkeeps).mono (by simp)
  · rw [heap_withHeap, hset.size_eq] at hbare
    exact hbare

/-! ## Levels -/

theorem exists_outcome_level {old : Nat} (modules : List (ManifestModule × Value))
    (hbare : ∀ p ∈ modules, Bare old w.machine.heap p.2) (hnodup : (modules.map (·.2)).Nodup)
    (hresolves : ∀ p ∈ modules, p.1.Resolves tensors.length attributes.length)
    (hnames : ∀ p ∈ modules, p.1.fieldNames.Nodup) : ∃ made h',
      (modules.mapM fun p => buildModule tensors attributes p.1 p.2).outcome w = (.ok made, withHeap w h') ∧
      h'.ShowsLevel tensors attributes modules made ∧
      KeepsOthers (modules.map (·.2)) w.machine.heap h' ∧
      (∀ c ∈ made.flatten, Bare w.machine.heap.size h' c.2) ∧ (made.flatten.map (·.2)).Nodup := by
  induction modules generalizing w with
  | nil => exact ⟨[], w.machine.heap, rfl, .nil, .refl _ _, by simp, List.nodup_nil⟩
  | cons p modules ih =>
      obtain ⟨hbareP, hbareR⟩ := List.forall_mem_cons.mp hbare
      obtain ⟨hresolvesP, hresolvesR⟩ := List.forall_mem_cons.mp hresolves
      obtain ⟨hnamesP, hnamesR⟩ := List.forall_mem_cons.mp hnames
      obtain ⟨hnot, hnodupR⟩ := List.nodup_cons.mp hnodup
      obtain ⟨children, h₁, hfirst, hshows, hkeeps, hnew, hdistinct⟩ :=
        exists_outcome_buildModule hbareP hresolvesP hnamesP
      have hne {q : ManifestModule × Value} (hq : q ∈ modules) : q.2 ∉ [p.2] := fun hmem =>
        hnot (List.mem_map.mpr ⟨q, hq, List.mem_singleton.mp hmem⟩)
      obtain ⟨made, h₂, hrest, hall, hkeeps', hnew', hdistinct'⟩ := ih (w := withHeap w h₁)
        (fun q hq => (hbareR q hq).keeps hkeeps (hne hq)) hnodupR hresolvesR hnamesR
      refine ⟨children :: made, h₂, ?_, .cons (hshows.keeps hkeeps' hnot) hall, ?_, ?_, ?_⟩
      · rw [List.mapM_cons, outcome_bind_ok hfirst, outcome_bind_ok hrest]
        rfl
      · exact hkeeps.trans hkeeps'
      · rw [List.flatten_cons]
        refine List.forall_mem_append.mpr ⟨fun c hc => (hnew c hc).keeps hkeeps' fun hmem => ?_, fun c hc => ?_⟩
        · obtain ⟨q, hq, heq⟩ := List.mem_map.mp hmem
          exact (hbareR q hq).not_isNew (heq ▸ (hnew c hc).isNew)
        · exact (hnew' c hc).older hkeeps.size_le
      · rw [List.flatten_cons, List.map_append]
        refine List.Nodup.append hdistinct hdistinct' fun v hv hv' => ?_
        -- The children of later modules come after those of the first one.
        obtain ⟨c, hc, rfl⟩ := List.mem_map.mp hv
        obtain ⟨c', hc', heq⟩ := List.mem_map.mp hv'
        exact (hnew c hc).not_isNew (heq ▸ (hnew' c' hc').isNew)

def codeEntries (order : List (ManifestModule × Value)) : List (Value × String) :=
  order.filterMap fun p => p.1.code?.map fun key => (p.2, key)

theorem codeEntries_append (order order' : List (ManifestModule × Value)) :
    codeEntries (order ++ order') = codeEntries order ++ codeEntries order' := List.filterMap_append

theorem map_fst_flatten {modules : List (ManifestModule × Value)} {made : List (List (ManifestModule × Value))}
    (hlevel : List.Forall₂ (fun p children => children.map (·.1) = p.1.submodules) modules made) :
    made.flatten.map (·.1) = modules.flatMap fun p => p.1.submodules := by
  induction hlevel with
  | nil => rfl
  | cons hfirst _ ih => rw [List.flatten_cons, List.map_append, hfirst, ih, List.flatMap_cons]

theorem exists_parent {modules : List (ManifestModule × Value)} {made : List (List (ManifestModule × Value))}
    (hlevel : List.Forall₂ (fun p children => children.map (·.1) = p.1.submodules) modules made)
    {c : ManifestModule × Value} (hc : c ∈ made.flatten) : ∃ p ∈ modules, c.1 ∈ p.1.submodules := by
  have hmem : c.1 ∈ made.flatten.map (·.1) := List.mem_map_of_mem hc
  rw [map_fst_flatten hlevel] at hmem
  exact List.mem_flatMap.mp hmem

/-- From a level of bare records on, the modules are worked off as by a queue. -/
theorem exists_outcome_buildLevels {old : Nat} (tensors attributes : List Value) (levels : Nat)
    (modules : List (ManifestModule × Value))
    (hheight : ∀ p ∈ modules, p.1.height ≤ levels) (hbare : ∀ p ∈ modules, Bare old w.machine.heap p.2)
    (hnodup : (modules.map (·.2)).Nodup)
    (hresolves : ∀ p ∈ modules, ∀ d, p.1.Holds d → d.Resolves tensors.length attributes.length)
    (hnames : ∀ p ∈ modules, ∀ d, p.1.Holds d → d.fieldNames.Nodup) : ∃ order h',
      (buildLevels tensors attributes levels modules).outcome w = (.ok (codeEntries order), withHeap w h') ∧
      h'.Queue tensors attributes modules order ∧ KeepsOthers (modules.map (·.2)) w.machine.heap h' ∧
      (order.map (·.2)).Nodup ∧ ∀ v ∈ order.map (·.2),
        v ∈ modules.map (·.2) ∨ IsNew w.machine.heap.size v := by
  induction levels generalizing w modules old with
  | zero =>
      have hnone : modules = [] := List.eq_nil_iff_forall_not_mem.mpr fun p hp =>
        absurd (hheight p hp) (Nat.not_le.mpr p.1.height_pos)
      subst hnone
      exact ⟨[], w.machine.heap, rfl, .done, .refl _ _, List.nodup_nil, by simp⟩
  | succ levels ih =>
      obtain ⟨made, h₁, hlevel, hshows, hkeeps, hnew, hdistinct⟩ := exists_outcome_level modules hbare hnodup
        (fun p hp => hresolves p hp _ (.self _)) (fun p hp => hnames p hp _ (.self _))
      have hsubmodules := hshows.imp fun _ _ hshown => hshown.submodules
      have hfresh : ∀ v ∈ made.flatten.map (·.2), IsNew w.machine.heap.size v := by
        intro v hv
        obtain ⟨c, hc, rfl⟩ := List.mem_map.mp hv
        exact (hnew c hc).isNew
      have hearlier {v : Value} (hv : v ∈ modules.map (·.2)) : ¬ IsNew w.machine.heap.size v := by
        obtain ⟨p, hp, rfl⟩ := List.mem_map.mp hv
        exact (hbare p hp).not_isNew
      obtain ⟨order, h₂, hrest, hqueue, hkeeps', hnodup', hplaces⟩ := ih (w := withHeap w h₁) made.flatten
        (fun c hc => by
          obtain ⟨p, hp, hsub⟩ := exists_parent hsubmodules hc
          have hlt := ManifestModule.height_lt hsub
          have hle := hheight p hp
          omega)
        hnew hdistinct
        (fun c hc d hd => by
          obtain ⟨p, hp, hsub⟩ := exists_parent hsubmodules hc
          exact hresolves p hp d (.deeper hsub hd))
        (fun c hc d hd => by
          obtain ⟨p, hp, hsub⟩ := exists_parent hsubmodules hc
          exact hnames p hp d (.deeper hsub hd))
      have hlater (v : Value) (hv : v ∈ order.map (·.2)) : IsNew w.machine.heap.size v := by
        rcases hplaces v hv with hmem | hnewer
        · exact hfresh v hmem
        · exact hnewer.older hkeeps.size_le
      refine ⟨modules ++ order, h₂, ?_, ?_, ?_, ?_, ?_⟩
      · unfold buildLevels
        rw [outcome_bind_ok hlevel, outcome_bind_ok hrest, codeEntries_append]
        rfl
      · have hwhole : h₂.Queue tensors attributes (modules ++ []) (modules ++ order) :=
          Heap.queue_level (Heap.keeps_level hshows hkeeps' fun p hp hmem =>
            hearlier (List.mem_map_of_mem hp) (hfresh _ hmem)) hqueue
        rwa [List.append_nil] at hwhole
      · exact hkeeps.trans_new hkeeps' hfresh
      · rw [List.map_append]
        exact hnodup.append hnodup' fun v hv hv' => hearlier hv (hlater v hv')
      · rw [List.map_append]
        exact List.forall_mem_append.mpr ⟨fun v hv => .inl hv, fun v hv => .inr (hlater v hv)⟩

end Bundle

/-! ## Failing -/

namespace Restore

variable {τ α β : Type}

/-- What the action gives is as described, on any workspace, and so are its errors. -/
structure Ends (done : α → Prop) (failed : LoadError → Prop) (x : Restore τ α) : Prop where
  ok : ∀ {w w' a}, x.outcome w = (.ok a, w') → done a
  error : ∀ {w w' e}, x.outcome w = (.error e, w') → failed e

theorem Ends.pure {done : α → Prop} {a : α} (ha : done a) (failed : LoadError → Prop) :
    Ends done failed (Pure.pure a : Restore τ α) where
  ok h := by
    cases h
    exact ha
  error h := by cases h

theorem Ends.throw {e : LoadError} {failed : LoadError → Prop} (he : failed e) (done : α → Prop) :
    Ends done failed (throw e : Restore τ α) where
  ok h := by cases h
  error h := by
    cases h
    exact he

theorem Ends.bind {x : Restore τ α} {f : α → Restore τ β} {first : α → Prop} {done : β → Prop}
    {failed : LoadError → Prop} (hx : Ends first failed x) (hf : ∀ a, first a → Ends done failed (f a)) :
    Ends done failed (x >>= f) where
  ok h := by
    obtain ⟨a, w₁, ha, hb⟩ := exists_of_outcome_bind h
    exact (hf a (hx.ok ha)).ok hb
  error {w w' e} h := by
    rw [outcome_bind] at h
    rcases hresult : x.outcome w with ⟨e' | a, w₁⟩ <;> rw [hresult] at h
    · cases h
      exact hx.error hresult
    · exact (hf a (hx.ok hresult)).error h

theorem Ends.exists_error {x : Restore τ α} {failed : LoadError → Prop} (hx : Ends (fun _ => False) failed x)
    (w : Workspace τ) : ∃ e, failed e ∧ (x.outcome w).1 = .error e := by
  rcases hresult : x.outcome w with ⟨e | a, w'⟩
  · exact ⟨e, hx.error hresult, rfl⟩
  · exact (hx.ok hresult).elim

theorem Ends.mono {x : Restore τ α} {done done' : α → Prop} {failed failed' : LoadError → Prop}
    (hx : Ends done failed x) (hdone : ∀ a, done a → done' a) (hfailed : ∀ e, failed e → failed' e) :
    Ends done' failed' x := ⟨fun h => hdone _ (hx.ok h), fun h => hfailed _ (hx.error h)⟩

theorem Ends.mapM {f : α → Restore τ β} {related : α → β → Prop} {failed : LoadError → Prop} (items : List α)
    (hf : ∀ a ∈ items, Ends (related a) failed (f a)) :
    Ends (fun results => List.Forall₂ related items results) failed (items.mapM f) := by
  induction items with
  | nil => exact .pure .nil _
  | cons a items ih =>
      obtain ⟨hfirst, hrest⟩ := List.forall_mem_cons.mp hf
      rw [List.mapM_cons]
      refine hfirst.bind fun b hb => (ih hrest).bind fun results hresults => ?_
      exact .pure (.cons hb hresults) _

end Restore

namespace Bundle

variable {tensors attributes : List Value}

theorem ends_setAttribute (target : Value) (name : String) (v : Value) (failed : LoadError → Prop) :
    Ends (fun _ => True) failed (exec (Exec.setAttribute target name v) : Restore Unit Unit) where
  ok _ := trivial
  error h := by
    rw [outcome_setAttribute] at h
    cases h

/-- The items of a table are set, or the first one that is not there is named. -/
theorem ends_setItems (target : Value) (what : String) (table : List Value) (entries : List ManifestItem) :
    Ends (fun _ => ∀ e ∈ entries, e.index < table.length)
      (fun error => ∃ e ∈ entries, table.length ≤ e.index ∧
        error = .unresolved (what ++ " " ++ toString e.index)) (setItems target what table entries) := by
  induction entries with
  | nil => exact .pure (by simp) _
  | cons e entries ih =>
      rw [setItems_cons]
      by_cases he : e.index < table.length
      · rw [List.getElem?_eq_getElem he]
        refine (ends_setAttribute _ _ _ _).bind fun _ _ => ih.mono ?_ ?_
        · exact fun _ hall => List.forall_mem_cons.mpr ⟨he, hall⟩
        · exact fun _ ⟨other, hmem, hmissing⟩ => ⟨other, List.mem_cons_of_mem e hmem, hmissing⟩
      · rw [List.getElem?_eq_none (Nat.le_of_not_lt he)]
        have hmissing := Nat.le_of_not_lt he
        exact (Ends.throw ⟨e, List.mem_cons_self, hmissing, rfl⟩ fun _ => False).bind fun _ hno => hno.elim

theorem ends_newModule (failed : LoadError → Prop) : Ends (fun _ => True) failed newModule where
  ok _ := trivial
  error h := by
    rw [outcome_newModule] at h
    cases h

theorem ends_addChild (target : Value) (s : ManifestModule) (failed : LoadError → Prop) :
    Ends (fun c => s = c.1) failed (addChild target s) := by
  refine (ends_newModule failed).bind fun child _ => (ends_setAttribute _ _ _ _).bind fun _ _ => ?_
  apply Ends.pure
  rfl

/-- The error names an item that the module or one within it lacks. -/
def LackedWithin (m : ManifestModule) (tensors attributes : List Value) (error : LoadError) : Prop :=
  ∃ d text, m.Holds d ∧ d.Misses tensors.length attributes.length text ∧ error = .unresolved text

theorem ends_buildModule (d : ManifestModule) (target : Value) :
    Ends (fun children => d.Resolves tensors.length attributes.length ∧ children.map (·.1) = d.submodules)
      (LackedWithin d tensors attributes) (buildModule tensors attributes d target) := by
  have hgiven : Ends (fun _ => ∀ e ∈ d.parameters ++ d.arguments, e.index < tensors.length)
      (LackedWithin d tensors attributes) (setItems target "tensor" tensors (d.parameters ++ d.arguments)) := by
    refine (ends_setItems target "tensor" tensors _).mono (fun _ hall => hall) ?_
    rintro _ ⟨e, he, hle, rfl⟩
    exact ⟨d, _, .self d, .inl ⟨e, he, hle, rfl⟩, rfl⟩
  have hitems : Ends (fun _ => ∀ e ∈ d.attributes, e.index < attributes.length)
      (LackedWithin d tensors attributes) (setItems target "attribute" attributes d.attributes) := by
    refine (ends_setItems target "attribute" attributes _).mono (fun _ hall => hall) ?_
    rintro _ ⟨e, he, hle, rfl⟩
    exact ⟨d, _, .self d, .inr ⟨e, he, hle, rfl⟩, rfl⟩
  refine hgiven.bind fun _ htensors => hitems.bind fun _ hattributes => ?_
  refine (Ends.mapM d.submodules fun s _ => ends_addChild target s _).mono (fun children hall => ?_)
    fun _ herror => herror
  have hsame := List.forall₂_map_right_iff.mpr hall
  rw [List.forall₂_eq_eq_eq] at hsame
  exact ⟨⟨htensors, hattributes⟩, hsame.symm⟩

theorem ends_buildLevels (tensors attributes : List Value) (levels : Nat) (modules : List (ManifestModule × Value))
    (hheight : ∀ p ∈ modules, p.1.height ≤ levels) :
    Ends (fun _ => ∀ p ∈ modules, ∀ d, p.1.Holds d → d.Resolves tensors.length attributes.length)
      (fun error => ∃ p ∈ modules, LackedWithin p.1 tensors attributes error)
      (buildLevels tensors attributes levels modules) := by
  induction levels generalizing modules with
  | zero =>
      refine .pure (fun p hp => ?_) _
      exact absurd (hheight p hp) (Nat.not_le.mpr p.1.height_pos)
  | succ levels ih =>
      have hlevel := Ends.mapM modules fun p hp => (ends_buildModule p.1 p.2).mono (fun _ hmade => hmade)
        fun _ herror => (⟨p, hp, herror⟩ : ∃ p ∈ modules, LackedWithin p.1 tensors attributes _)
      unfold buildLevels
      refine hlevel.bind fun made hmade => ?_
      obtain ⟨hown, hsubmodules⟩ := (List.forall₂_and_left _ _).mp hmade
      have hdeeper := ih made.flatten fun c hc => by
        obtain ⟨p, hp, hsub⟩ := exists_parent hsubmodules hc
        have hlt := ManifestModule.height_lt hsub
        have hle := hheight p hp
        omega
      refine (hdeeper.mono (fun _ hresolves => hresolves) ?_).bind fun codes hresolves => .pure ?_ _
      · rintro error ⟨c, hc, d, text, hd, hmisses, rfl⟩
        obtain ⟨p, hp, hsub⟩ := exists_parent hsubmodules hc
        exact ⟨p, hp, d, text, .deeper hsub hd, hmisses, rfl⟩
      · intro p hp d hd
        cases hd with
        | self => exact hown p hp
        | @deeper _ s _ hsub hd =>
            have hmem : s ∈ made.flatten.map (·.1) := by
              rw [map_fst_flatten hsubmodules]
              exact List.mem_flatMap.mpr ⟨p, hp, hsub⟩
            obtain ⟨c, hc, rfl⟩ := List.mem_map.mp hmem
            exact hresolves c hc d hd

/-! ## Whole manifests -/

/-- The items of the table of attributes, if there is one. -/
def attributeTable (s : Source) (directory : String) : Restore Unit (List Value) :=
  match s.entry? (directory ++ "attributes.pkl") with
  | some data => do items (← Pickle.loadFrom Pickle.refuse data)
  | none => pure []

theorem buildModules_eq (s : Source) (directory : String) (m : Manifest) : buildModules s directory m = (do
    let tensors ← m.tensors.mapM (buildTensor s directory)
    let attributes ← attributeTable s directory
    let root ← newModule
    return (root, ← buildLevels tensors attributes m.mainModule.height [(m.mainModule, root)])) := by
  unfold buildModules attributeTable
  refine bind_congr fun tensors => ?_
  cases s.entry? (directory ++ "attributes.pkl") with
  | none => rfl
  | some data => exact (bind_assoc _ _ _).symm

/-- Reading the table leaves an enclave as it is. -/
theorem wellFormed_attributeTable {c : Enclave} (s : Source) (directory : String) {w : Workspace Unit}
    (hw : c.WellFormed w.machine) : c.WellFormed ((attributeTable s directory).outcome w).2.machine := by
  let rule : TableRule Unit := { holds := fun _ _ => True, mono := fun _ _ => trivial }
  have hload (data : Bytes) : c.WellFormed ((loadFrom refuse data).outcome w).2.machine := by
    have hadmits : c.Admits rule w.machine.heap w := ⟨hw, rfl, trivial⟩
    obtain ⟨-, hleaves, -⟩ :=
      Parallel.loadUnder AlikeHosts.standard answers_refuse (k := .start data) hadmits
    rw [loadUnder_standard] at hleaves
    exact hleaves.wellFormed
  unfold attributeTable
  split
  · next data _ =>
    have hloaded := hload data
    rw [outcome_bind]
    rcases hresult : (loadFrom refuse data).outcome w with ⟨e | v, w'⟩ <;> rw [hresult] at hloaded <;>
      exact hloaded
  · exact hw

end Bundle

/-- The machine is as a new one in all that manifests need: it traces nothing, and the classes of storages
and tensors have their names. -/
structure Machine.BuildsTensors (m : Machine) : Prop where
  wellFormed : m.WellFormed
  untraced : m.tracer? = none
  classes : m.heap.NamesTensors

theorem Machine.buildsTensors_standard (d : Diagnostics) :
    (Machine.standard.withDiagnostics d).BuildsTensors where
  wellFormed := wellFormed_standard d
  untraced := rfl
  classes := ⟨fun c => c.namesClass_name, fun c => c.namesClass_tensorName⟩

/-- So is the machine on which a bundle has been opened. -/
theorem Machine.BuildsTensors.openIn {machine m : Machine} (hmachine : machine.BuildsTensors) {s : Source}
    {directory : String} {b : Bundle} (hopened : Bundle.openIn s directory machine = .ok (b, m)) :
    m.BuildsTensors := by
  have hsources (files : List (String × String)) {m : Machine} (hm : m.BuildsTensors) :
      (files.foldl (fun m file => m.addSource file.1 file.2) m).BuildsTensors := by
    induction files generalizing m with
    | nil => exact hm
    | cons file files ih => exact ih ⟨⟨hm.wellFormed.closed, hm.wellFormed.packages⟩, hm.untraced, hm.classes⟩
  have hdiagnostics {m : Machine} (hm : m.BuildsTensors) (d : Diagnostics) : (m.withDiagnostics d).BuildsTensors :=
    ⟨⟨hm.wellFormed.closed, hm.wellFormed.packages⟩, hm.untraced, hm.classes⟩
  unfold Bundle.openIn at hopened
  cases hentry : s.entry? (directory ++ "model.json") with
  | none =>
      rw [hentry] at hopened
      cases hopened
      apply hsources
      split
      · exact hdiagnostics hmachine _
      · exact hmachine
  | some data =>
      cases hmanifest : Manifest.ofBytes data <;> rw [hentry] at hopened <;> dsimp only at hopened <;>
        rw [hmanifest] at hopened <;> cases hopened
      exact hsources _ hmachine

/-- A manifest's tensors and modules stand as records on the heap, the modules' code in the order in
which they were made. -/
structure Manifest.Rebuilt (m : Manifest) (s : Source) (directory : String) (old : Nat) (h : Heap)
    (tensors attributes : List Value) (root : Value) (codes : List (Value × String)) : Prop where
  table : List.Forall₂ (fun t v => t.Made s directory old h v) m.tensors tensors
  distinct : tensors.Nodup
  tree : h.Mirrors tensors attributes m.mainModule root
  code : ∃ order, h.Queue tensors attributes [(m.mainModule, root)] order ∧ (order.map (·.2)).Nodup ∧
    codes = Bundle.codeEntries order

namespace Bundle

open Heap (KeepsOthers)

/-- The tree of a manifest is built of its tensors and of the attributes that are loaded, which stay as
they are. An index that a table does not have is an unresolved reference. -/
theorem outcome_buildModules {s : Source} {directory : String} {m : Manifest} {w : Workspace Unit}
    (hw : w.machine.BuildsTensors)
    (hgiven : ∀ t ∈ m.tensors, ∃ type data, t.Given s directory type data) : ∃ tensors w₁,
      (m.tensors.mapM (buildTensor s directory)).outcome w = (.ok tensors, w₁) ∧
      ∀ attributes w₂, (attributeTable s directory).outcome w₁ = (.ok attributes, w₂) →
        ((∀ d, m.mainModule.Holds d →
            d.Resolves m.tensors.length attributes.length ∧ d.fieldNames.Nodup) →
          ∃ root codes w₃, (buildModules s directory m).outcome w = (.ok (root, codes), w₃) ∧
            w₂.machine.heap.Extends w₃.machine.heap ∧
            m.Rebuilt s directory w.machine.heap.size w₃.machine.heap tensors attributes root codes) ∧
        ((∃ d, m.mainModule.Holds d ∧ ¬ d.Resolves m.tensors.length attributes.length) →
          ∃ d text, m.mainModule.Holds d ∧ d.Misses m.tensors.length attributes.length text ∧
            ((buildModules s directory m).outcome w).1 = .error (.unresolved text)) := by
  obtain ⟨tensors, h₁, hmade, hext, hle, hall, hdistinct⟩ :=
    ManifestTensor.exists_outcome_tensors m.tensors hw.classes hgiven
  refine ⟨tensors, withHeap w h₁, hmade, fun attributes w₂ htable => ?_⟩
  have hlength : m.tensors.length = tensors.length := hall.length_eq
  let h₂ := w₂.machine.heap
  have hroot : newModule.outcome w₂ = (.ok (.ref h₂.size), withHeap w₂ (h₂.push (.instance bareModule))) :=
    outcome_newModule w₂
  have hbuild : (buildModules s directory m).outcome w = (do
      return (.ref h₂.size, ← buildLevels tensors attributes m.mainModule.height
        [(m.mainModule, .ref h₂.size)]) : Restore Unit _).outcome
          (withHeap w₂ (h₂.push (.instance bareModule))) := by
    rw [buildModules_eq, outcome_bind_ok hmade, outcome_bind_ok htable, outcome_bind_ok hroot]
  rw [hbuild, hlength]
  constructor
  · intro hmodules
    have hbare : Bare h₂.size (h₂.push (.instance bareModule)) (.ref h₂.size) :=
      ⟨h₂.size, rfl, Nat.le_refl _, Heap.get?_push_size _ _⟩
    obtain ⟨order, h₃, hlevels, hqueue, hkeeps, hnodup, -⟩ :=
      exists_outcome_buildLevels (w := withHeap w₂ (h₂.push (.instance bareModule))) tensors attributes
        m.mainModule.height [(m.mainModule, .ref h₂.size)] (List.forall_mem_singleton.mpr (Nat.le_refl _))
        (List.forall_mem_singleton.mpr hbare) (List.nodup_singleton _)
        (List.forall_mem_singleton.mpr fun d hd => (hmodules d hd).1)
        (List.forall_mem_singleton.mpr fun d hd => (hmodules d hd).2)
    have hlater : KeepsOthers [] h₂ h₃ :=
      (KeepsOthers.push h₂ (.instance bareModule)).trans_new hkeeps
        (List.forall_mem_singleton.mpr ⟨h₂.size, rfl, Nat.le_refl _⟩)
    have hextends : h₂.Extends h₃ := fun {_ _} ho => hlater.get? List.not_mem_nil ho
    refine ⟨.ref h₂.size, codeEntries order, withHeap w₂ h₃, ?_, hextends, ?_⟩
    · rw [outcome_bind_ok hlevels]
      rfl
    · refine ⟨?_, hdistinct, hqueue.mirrors _ List.mem_cons_self, order, hqueue, hnodup, rfl⟩
      have hwell := wellFormed_attributeTable s directory (w := withHeap w h₁) (hw.wellFormed.between hext)
      rw [htable] at hwell
      refine hall.imp fun t v hv => hv.congr fun id o hold ho => hextends ?_
      exact (hwell.closed.stands ⟨hold, Heap.lt_size_of_get? ho⟩).2.trans ho
  · rintro ⟨d, hd, hnot⟩
    have hlevels := ends_buildLevels tensors attributes m.mainModule.height
      [(m.mainModule, .ref h₂.size)] (List.forall_mem_singleton.mpr (Nat.le_refl _))
    have hfails := hlevels.bind fun codes hresolves =>
      show Ends (fun _ => False) _ (pure (Value.ref h₂.size, codes)) from
        (hnot (hresolves _ List.mem_cons_self d hd)).elim
    obtain ⟨_, ⟨p, hp, d', text, hd', hmisses, rfl⟩, herror⟩ :=
      hfails.exists_error (withHeap w₂ (h₂.push (.instance bareModule)))
    rw [List.mem_singleton.mp hp] at hd'
    exact ⟨d', text, hd', hmisses, herror⟩

namespace Shared

def source : Source := { entries := [("net/tensors/0", [0, 0, 128, 63])] }

/-- A module and its submodule, with an entry for its code, have tensors of a table of one. -/
def manifest (index : Nat) : Manifest where
  mainModule := { parameters := [{ name := "weight", index := 0 }], submodules := [{
    name := "fc", parameters := [{ name := "weight", index }], code? := some "code/fc.py" }] }
  tensors := [{ dims := [1], dataType := "FLOAT", key := "tensors/0" }]

def workspace : Workspace Unit := ⟨Machine.standard.withDiagnostics .standard, ()⟩

theorem given (index : Nat) : ∀ t ∈ (manifest index).tensors, ∃ type data, t.Given source "net/" type data :=
  List.forall_mem_singleton.mpr ⟨"Float", [0, 0, 128, 63], rfl, by decide, by decide⟩

theorem holds {index : Nat} {d : ManifestModule} (hd : (manifest index).mainModule.Holds d) :
    d = (manifest index).mainModule ∨ d ∈ (manifest index).mainModule.submodules := by
  cases hd with
  | self => exact .inl rfl
  | deeper hsub hd =>
      obtain rfl := List.mem_singleton.mp hsub
      cases hd with
      | self => exact .inr (List.mem_singleton.mpr rfl)
      | deeper hsub _ => cases hsub

end Shared

/-- A tensor that two modules have is one record; an index beyond the table is named. -/
theorem buildModules_shared_tensor :
    (∃ tensors root codes w, (buildModules Shared.source "net/" (Shared.manifest 0)).outcome Shared.workspace =
        (.ok (root, codes), w) ∧ (Shared.manifest 0).Rebuilt Shared.source "net/"
          Shared.workspace.machine.heap.size w.machine.heap tensors [] root codes) ∧
      ((buildModules Shared.source "net/" (Shared.manifest 1)).outcome Shared.workspace).1 =
        .error (.unresolved "tensor 1") := by
  have hw : Shared.workspace.machine.BuildsTensors := Machine.buildsTensors_standard _
  have htable (w : Workspace Unit) : (attributeTable Shared.source "net/").outcome w = (.ok [], w) := by
    have hnone : Shared.source.entry? ("net/" ++ "attributes.pkl") = none := by decide
    rw [attributeTable, hnone]
    rfl
  constructor
  · obtain ⟨tensors, w₁, -, hall⟩ := outcome_buildModules hw (Shared.given 0)
    obtain ⟨root, codes, w₃, hbuilt, -, hrebuilt⟩ := (hall [] w₁ (htable w₁)).1 fun d hd => by
      rcases Shared.holds hd with rfl | hsub
      · exact ⟨⟨by decide, by decide⟩, by decide⟩
      · obtain rfl := List.mem_singleton.mp hsub
        exact ⟨⟨by decide, by decide⟩, by decide⟩
    exact ⟨tensors, root, codes, w₃, hbuilt, hrebuilt⟩
  · obtain ⟨tensors, w₁, -, hall⟩ := outcome_buildModules hw (Shared.given 1)
    obtain ⟨d, text, hd, hmisses, herror⟩ := (hall [] w₁ (htable w₁)).2
      ⟨_, .deeper List.mem_cons_self (.self _), fun hresolves => by
        exact absurd (hresolves.tensors _ List.mem_cons_self) (by decide)⟩
    have hname : "tensor " ++ toString 1 = "tensor 1" := by decide
    rw [herror, ← hname]
    rcases Shared.holds hd with rfl | hsub
    · rcases hmisses with ⟨e, he, hle, -⟩ | ⟨e, he, -⟩
      · obtain rfl := List.mem_singleton.mp he
        exact absurd hle (by decide)
      · cases he
    · obtain rfl := List.mem_singleton.mp hsub
      rcases hmisses with ⟨e, he, -, rfl⟩ | ⟨e, he, -⟩
      · obtain rfl := List.mem_singleton.mp he
        rfl
      · cases he

end Bundle

end ModelGraph
