import ModelGraph.Archive.Checkpoint
import ModelGraph.Proofs.Archive.BundleWriting
import ModelGraph.Proofs.Pickle.Yielding

/-!
# Bundles read back

While the pickle is read, the table holds the storages that were referred to so far. A reference reads
the entry of a storage only at its first time, so tensors over storages of the same key share one.
-/

namespace ModelGraph.Bundle

open Restore Pickle

/-- What a workspace holds is still there in a later one. -/
structure Reaches (v v' : Workspace Table) : Prop where
  heap : v.machine.heap.Extends v'.machine.heap
  table : ∀ {key value}, v.table.get? key = some value → v'.table.get? key = some value

namespace Reaches

variable {v v₁ v₂ : Workspace Table}

theorem trans (first : Reaches v v₁) (second : Reaches v₁ v₂) : Reaches v v₂ :=
  ⟨first.heap.trans second.heap, fun hkey => second.table (first.table hkey)⟩

theorem of_extends {h : Heap} (hext : v.machine.heap.Extends h) : Reaches v (withHeap v h) :=
  ⟨hext, fun hkey => hkey⟩

end Reaches

namespace Written

variable {a : Written} {v v' : Workspace Table}

/-- The table holds storages that were written, each under its own key. -/
structure Sound (a : Written) (v : Workspace Table) : Prop where
  standard : Heap.standard.Extends v.machine.heap
  storage : ∀ {key value}, v.table.get? key = some value → ∃ s ∈ a.storages, s.key.text = key ∧
    ∃ id, value = .ref id ∧ v.machine.heap.get? id = some (.storage s.object)
  distinct : ∀ {key key' value}, v.table.get? key = some value → v.table.get? key' = some value →
    key = key'

namespace Sound

variable (hv : a.Sound v)
include hv

theorem of_extends {h : Heap} (hext : v.machine.heap.Extends h) : a.Sound (withHeap v h) where
  standard := hv.standard.trans hext
  storage hkey := by
    obtain ⟨s, hs, hname, id, hvalue, hid⟩ := hv.storage hkey
    exact ⟨s, hs, hname, id, hvalue, hext hid⟩
  distinct := hv.distinct

theorem get?_storage {s : SavedStorage} (hs : s ∈ a.storages) {value : Value}
    (hkey : v.table.get? s.key.text = some value) :
    ∃ id, value = .ref id ∧ v.machine.heap.get? id = some (.storage s.object) := by
  obtain ⟨s', hs', hname, id, hvalue, hid⟩ := hv.storage hkey
  obtain rfl : s' = s := List.inj_on_of_nodup_map a.keys_nodup hs' hs hname
  exact ⟨id, hvalue, hid⟩

/-- The workspace in which a storage has been read for the first time. -/
theorem bind {s : SavedStorage} (hs : s ∈ a.storages) (hnew : v.table.get? s.key.text = none) :
    let h := v.machine.heap
    let v' : Workspace Table :=
      { withHeap v ((h.push (.storage s.declared)).modify h.size (onStorage (·.fill s.data))) with
        table := v.table.insert s.key.text (.ref h.size) }
    Reaches v v' ∧ a.Sound v' := by
  intro h v'
  have hfill := s.updates_fill h
  have hext : h.Extends v'.machine.heap := (Heap.extends_push _ _).updates (Nat.le_refl _) hfill
  have hkept {key : String} {value : Value} (hkey : v.table.get? key = some value) :
      v'.table.get? key = some value := by
    have hne : key ≠ s.key.text := by
      rintro rfl
      rw [hnew] at hkey
      cases hkey
    exact (OrderedMap.get?_insert_of_ne _ hne _).trans hkey
  have hcases {key : String} {value : Value} (hkey : v'.table.get? key = some value) :
      key = s.key.text ∧ value = .ref h.size ∨ v.table.get? key = some value := by
    have hinsert : (v.table.insert s.key.text (.ref h.size)).get? key = some value := hkey
    rw [OrderedMap.get?_insert] at hinsert
    split_ifs at hinsert with heq
    · cases hinsert
      exact .inl ⟨heq, rfl⟩
    · exact .inr hinsert
  -- The new storage stands behind all that the table refers to.
  have hbefore {key : String} (hkey : v.table.get? key = some (.ref h.size)) : False := by
    obtain ⟨_, _, _, id, heq, hid⟩ := hv.storage hkey
    cases heq
    exact Nat.lt_irrefl _ (Heap.lt_size_of_get? hid)
  refine ⟨⟨hext, hkept⟩, hv.standard.trans hext, fun {key value} hkey => ?_, fun hkey hkey' => ?_⟩
  · rcases hcases hkey with ⟨rfl, rfl⟩ | hkey
    · exact ⟨s, hs, rfl, h.size, rfl, hfill.get?_self⟩
    · obtain ⟨s', hs', hname, id, hvalue, hid⟩ := hv.storage hkey
      exact ⟨s', hs', hname, id, hvalue, hext hid⟩
  · rcases hcases hkey with ⟨rfl, rfl⟩ | hkey <;> rcases hcases hkey' with ⟨rfl, heq⟩ | hkey'
    · rfl
    · exact (hbefore hkey').elim
    · subst heq
      exact (hbefore hkey).elim
    · exact hv.distinct hkey hkey'

omit hv in
/-- A reference leads to the storage that the table holds under its key, or to the entry of the key. -/
theorem outcome_resolve_reference (s : SavedStorage) {id : Nat}
    (hid : v.machine.heap.get? id = some (.list [.str storageKind.text,
      .str (s.type.package ++ "." ++ s.type.name), .str s.key.text, .str storageLocation.text,
      .int (Int64.ofNat s.count)])) :
    (resolve a.source (a.directory ++ "data/") (.ref id)).outcome v =
      ((do
        match (← get).table.get? s.key.text with
        | some v => return v
        | none =>
          let made ← newStorage (.str (s.type.package ++ "." ++ s.type.name))
            (← ofExcept (declaredCount (.int (Int64.ofNat s.count))))
          fillStorage made (← ofExcept (a.source.entry (a.directory ++ "data/" ++ s.key.text)))
          modify fun w => { w with table := w.table.insert s.key.text made }
          return made : Restore Table Value)).outcome v := by
  have hitems : v.machine.heap.items? (.ref id) = some [.str storageKind.text,
      .str (s.type.package ++ "." ++ s.type.name), .str s.key.text, .str storageLocation.text,
      .int (Int64.ofNat s.count)] := by
    simp [Heap.items?, Heap.object?, Value.ref?, hid]
  unfold resolve
  rw [outcome_bind_ok (outcome_items hitems)]
  rfl

theorem outcome_resolve {s : SavedStorage} (hs : s ∈ a.storages) {id : Nat}
    (hid : v.machine.heap.get? id = some (.list [.str storageKind.text,
      .str (s.type.package ++ "." ++ s.type.name), .str s.key.text, .str storageLocation.text,
      .int (Int64.ofNat s.count)])) :
    ∃ storage v', (resolve a.source (a.directory ++ "data/") (.ref id)).outcome v =
        (.ok (.ref storage), v') ∧ Reaches v v' ∧ a.Sound v' ∧
      v'.table.get? s.key.text = some (.ref storage) := by
  have hcount : declaredCount (.int (Int64.ofNat s.count)) = .ok s.count := by
    have hsize : sizeOfInt64? (Int64.ofNat s.count) = some s.count := Value.size?_ofSize s.count_lt
    rw [declaredCount, Value.int?, Option.getD_some, elementCount, hsize]
  rw [outcome_resolve_reference s hid, outcome_bind_ok (outcome_get v)]
  cases hkey : v.table.get? s.key.text with
  | some value =>
      obtain ⟨storage, rfl, -⟩ := hv.get?_storage hs hkey
      exact ⟨storage, v, rfl, ⟨.refl _, fun hkey => hkey⟩, hv, hkey⟩
  | none =>
      obtain ⟨hreaches, hsound⟩ := hv.bind hs hkey
      refine ⟨_, _, ?_, hreaches, hsound, OrderedMap.get?_insert_self _ _ _⟩
      simp only [hcount, a.entry_storage hs]
      rw [outcome_bind_ok (Restore.outcome_ofExcept_ok _ _), outcome_bind_ok (s.outcome_newStorage hv.standard),
        outcome_bind_ok (Restore.outcome_ofExcept_ok _ _), outcome_bind_ok (outcome_fillStorage _ _ _)]
      rfl

/-- A reference to a storage is read as the storage. -/
theorem yields_reference {s : SavedStorage} (hs : s ∈ a.storages) : ∃ storage v',
    Yields (resolve a.source (a.directory ++ "data/")) (encodeReference s) v [.ref storage] v' ∧
      Reaches v v' ∧ a.Sound v' ∧ v'.table.get? s.key.text = some (.ref storage) := by
  let h := v.machine.heap.push (.list [.str storageKind.text,
    .str (s.type.package ++ "." ++ s.type.name), .str s.key.text, .str storageLocation.text,
    .int (Int64.ofNat s.count)])
  have hext : v.machine.heap.Extends h := Heap.extends_push _ _
  obtain ⟨storage, v', hresolve, hreaches, hsound, hkey⟩ :=
    (hv.of_extends hext).outcome_resolve hs (Heap.get?_push_size _ _)
  have hglobal : Pushes (resolve a.source (a.directory ++ "data/")) v v.machine.heap
      (encodeGlobal s.type.package s.type.name) [.str (s.type.package ++ "." ++ s.type.name)] :=
    fun _ _ _ => passes_global _ v s.type.oneLine_package s.type.oneLine_name _ _
  have hcount : Pushes (resolve a.source (a.directory ++ "data/")) v v.machine.heap
      (encodeInt (Int64.ofNat s.count)) [.int (Int64.ofNat s.count)] := fun _ _ _ =>
    passes_int _ v _ _ _
  have hitems := ((pushes_text storageKind).append (hglobal.append ((pushes_text s.key).append
    ((pushes_text storageLocation).append hcount)))).yields
  exact ⟨storage, v', hitems.tuple.reference hresolve, (Reaches.of_extends hext).trans hreaches, hsound,
    hkey⟩

end Sound

theorem oneLine_rebuild : OneLine "torch._utils" ∧ OneLine "_rebuild_tensor_v2" :=
  ⟨⟨by decide +kernel, by decide +kernel⟩, ⟨by decide +kernel, by decide +kernel⟩⟩

theorem yields_ints {persistent : Value → Restore Table Value} (ints : List Int64)
    (v : Workspace Table) : Yields persistent (encodeInts ints) v [.ref v.machine.heap.size]
      (withHeap v (v.machine.heap.push (.list (ints.map .int)))) := by
  have hints : Pushes persistent v v.machine.heap (ints.flatMap encodeInt)
      (ints.flatMap fun i => [.int i]) :=
    Pushes.flatMap fun i _ _ _ _ => passes_int persistent v i _ _
  rw [← List.map_eq_flatMap] at hints
  exact hints.yields.tuple

/-- The key of the tensor's storage stands for a storage over which the object is laid out. -/
def Stands (v : Workspace Table) (t : WrittenTensor) (id : Nat) : Prop :=
  ∃ storage, v.table.get? t.storage.key.text = some (.ref storage) ∧
    t.Laid t.storage.type storage id v.machine.heap

theorem Stands.reaches {t : WrittenTensor} {id : Nat} (hstands : Stands v t id)
    (hreaches : Reaches v v') : Stands v' t id := by
  obtain ⟨storage, hkey, hlaid⟩ := hstands
  exact ⟨storage, hreaches.table hkey, hlaid.extends hreaches.heap⟩

/-- The arguments that a tensor is rebuilt from are read: its storage, the offset, and the lists of its
dimensions and strides. -/
theorem Sound.yields_arguments (hv : a.Sound v) {t : WrittenTensor} (ht : t ∈ a.tensors) :
    ∃ storage size stride v',
      Yields (resolve a.source (a.directory ++ "data/")) t.encodeArguments v
        [.ref storage, .int t.offset, .ref size, .ref stride, .bool false, .none] v' ∧
      Reaches v v' ∧ a.Sound v' ∧ v'.table.get? t.storage.key.text = some (.ref storage) ∧
      v'.machine.heap.get? size = some (.list (t.shape.map .int)) ∧
      v'.machine.heap.get? stride = some (.list (t.stride.map .int)) := by
  obtain ⟨storage, v₁, hreference, hreaches, hsound, hkey⟩ := hv.yields_reference (a.storage_mem t ht)
  let h₁ := v₁.machine.heap
  let h₂ := h₁.push (.list (t.shape.map .int))
  let h₃ := h₂.push (.list (t.stride.map .int))
  have hext : h₁.Extends h₃ := (Heap.extends_push _ _).trans (Heap.extends_push _ _)
  have hoffset : Pushes (resolve a.source (a.directory ++ "data/")) v₁ h₁ (encodeInt t.offset)
      [.int t.offset] := fun _ _ _ => passes_int _ v₁ _ _ _
  have hflags : Pushes (resolve a.source (a.directory ++ "data/")) (withHeap v₁ h₃) h₃ ([0x89] ++ [0x4e])
      [.bool false, .none] := fun _ _ _ => (passes_bool _ _ false _ _).append (passes_none _ _ _ _)
  exact ⟨storage, h₁.size, h₂.size, withHeap v₁ h₃,
    hreference.append (hoffset.yields.append ((yields_ints t.shape v₁).append
      ((yields_ints t.stride (withHeap v₁ h₂)).append hflags.yields))),
    hreaches.trans (Reaches.of_extends hext), hsound.of_extends hext, hkey,
    Heap.extends_push _ _ (Heap.get?_push_size h₁ _), Heap.get?_push_size h₂ _⟩

theorem Sound.yields_tensor (hv : a.Sound v) {t : WrittenTensor} (ht : t ∈ a.tensors) : ∃ id v',
    Yields (resolve a.source (a.directory ++ "data/")) t.encode v [.str t.text, .ref id] v' ∧
      Reaches v v' ∧ a.Sound v' ∧ Stands v' t id := by
  obtain ⟨storage, size, stride, v₁, harguments, hreaches, hsound, hkey, hsize, hstride⟩ :=
    hv.yields_arguments ht
  obtain ⟨_, heq, hobject⟩ := hsound.get?_storage (a.storage_mem t ht) hkey
  cases heq
  let h := v₁.machine.heap.push (.list [.ref storage, .int t.offset, .ref size, .ref stride,
    .bool false, .none])
  have hpush : v₁.machine.heap.Extends h := Heap.extends_push _ _
  obtain ⟨h', hcall, hext, hlaid⟩ := TensorLayout.outcome_rebuild (w := withHeap v₁ h)
    (hsound.standard.trans hpush) (hpush hobject) (hpush hsize) (hpush hstride)
  have hglobal : Pushes (resolve a.source (a.directory ++ "data/")) v v.machine.heap
      (encodeGlobal "torch._utils" "_rebuild_tensor_v2") [.str "torch._utils._rebuild_tensor_v2"] :=
    fun _ _ _ => passes_global _ v oneLine_rebuild.1 oneLine_rebuild.2 _ _
  have hpair := hglobal.yields.append harguments.tuple
  refine ⟨h.size, withHeap v₁ h', ?_, hreaches.trans (Reaches.of_extends (hpush.trans hext)),
    hsound.of_extends (hpush.trans hext), storage, hkey, hlaid⟩
  exact (pushes_text t.name).yields.append (hpair.reduce (Heap.get?_push_size _ _) hcall)

theorem Sound.yields_tensors (hv : a.Sound v) {tensors : List WrittenTensor}
    (htensors : tensors ⊆ a.tensors) : ∃ (placed : List (WrittenTensor × Nat)) (v' : Workspace Table),
      placed.map (·.1) = tensors ∧
      Yields (resolve a.source (a.directory ++ "data/")) (tensors.flatMap (·.encode)) v
        (placed.flatMap fun e => [.str e.1.text, .ref e.2]) v' ∧
      Reaches v v' ∧ a.Sound v' ∧ ∀ e ∈ placed, Stands v' e.1 e.2 := by
  induction tensors generalizing v with
  | nil => exact ⟨[], v, rfl, .nil v, ⟨.refl _, fun hkey => hkey⟩, hv, fun _ he => by cases he⟩
  | cons t tensors ih =>
      obtain ⟨ht, hrest⟩ := List.cons_subset.mp htensors
      obtain ⟨id, v₁, htensor, hreaches₁, hsound₁, hstands⟩ := hv.yields_tensor ht
      obtain ⟨placed, v₂, rfl, hyields, hreaches₂, hsound₂, hplaced⟩ := ih hsound₁ hrest
      exact ⟨(t, id) :: placed, v₂, rfl, htensor.append hyields, hreaches₁.trans hreaches₂, hsound₂,
        List.forall_mem_cons.mpr ⟨hstands.reaches hreaches₂, hplaced⟩⟩

/-! ## The weights -/

/-- The layers and the heap give back what was written: the tensors at their places, over the storages
of their keys. -/
structure Restored (a : Written) (placed : List (WrittenTensor × Nat)) (place : String → Nat)
    (layers : List Layer) (h : Heap) : Prop where
  tensors_eq : placed.map (·.1) = a.tensors
  /-- Each name has its entry, and there are no others. -/
  state : ∀ name state, Layer.HasState layers name state ↔ ∃ e ∈ placed, e.1.layer = name ∧
    state = ⟨e.1.parameter, [(e.1.text, .ref e.2)]⟩
  tensor : ∀ e ∈ placed, e.1.Laid e.1.storage.type (place e.1.storage.key.text) e.2 h
  storage : ∀ t ∈ a.tensors, ∃ o, h.get? (place t.storage.key.text) = some (.storage o) ∧
    o.module = t.storage.type.package ∧ o.name = t.storage.type.name ∧
    o.storage.bytes? = some t.storage.data
  /-- Two tensors share a storage if and only if they were written with the same key. -/
  shared : ∀ t ∈ a.tensors, ∀ t' ∈ a.tensors,
    place t.storage.key.text = place t'.storage.key.text ↔ t.storage.key.text = t'.storage.key.text

/-- The storages that the keys stand for, by their places on the heap. -/
def place (table : Table) (key : String) : Nat := ((table.get? key).bind Value.ref?).getD 0

theorem get?_place {key : String} {id : Nat} (hkey : v.table.get? key = some (.ref id)) :
    place v.table key = id := by
  rw [place, hkey]
  rfl

/-- The entries of the dictionary. -/
def entries (placed : List (WrittenTensor × Nat)) : List (FlatName × Value) :=
  placed.map fun e => (e.1.toFlatName, .ref e.2)

theorem Sound.restored (hv : a.Sound v) {placed : List (WrittenTensor × Nat)}
    (hplaced : placed.map (·.1) = a.tensors) (hstands : ∀ e ∈ placed, Stands v e.1 e.2) {h : Heap}
    (hkeeps : v.machine.heap.Keeps h) :
    a.Restored placed (place v.table) ((entries placed).foldl Layer.addFlat []) h := by
  have hkey : ∀ t ∈ a.tensors, ∃ id, v.table.get? t.storage.key.text = some (.ref id) := by
    intro t ht
    obtain ⟨e, he, rfl⟩ := List.mem_map.mp (hplaced ▸ ht)
    obtain ⟨id, hid, -⟩ := hstands e he
    exact ⟨id, hid⟩
  refine ⟨hplaced, fun name state => ?_, fun e he => ?_, fun t ht => ?_, fun t ht t' ht' => ?_⟩
  · rw [Layer.hasState_foldl_addFlat]
    simp [Layer.HasState, entries]
  · obtain ⟨id, hid, hlaid⟩ := hstands e he
    rw [get?_place hid]
    exact hlaid.keeps hkeeps
  · obtain ⟨id, hid⟩ := hkey t ht
    obtain ⟨_, heq, hobject⟩ := hv.get?_storage (a.storage_mem t ht) hid
    cases heq
    rw [get?_place hid]
    exact ⟨_, hkeeps hobject (by simp), rfl, rfl, t.storage.bytes?_object⟩
  · obtain ⟨id, hid⟩ := hkey t ht
    obtain ⟨id', hid'⟩ := hkey t' ht'
    rw [get?_place hid, get?_place hid']
    refine ⟨fun heq => hv.distinct hid (heq ▸ hid'), fun heq => ?_⟩
    rw [heq, hid'] at hid
    exact (Value.ref.inj (Option.some.inj hid)).symm

theorem outcome_withTable {σ τ α : Type} {table : σ} {action : Restore σ α} {w : Workspace τ}
    {result : α} {v : Workspace σ} (h : action.outcome ⟨w.machine, table⟩ = (.ok result, v)) :
    (withTable table action : Restore τ α).outcome w = (.ok result, { w with machine := v.machine }) := by
  have hrun : action.run ⟨w.machine, table⟩ = (.ok result, v) := h
  unfold withTable
  rw [outcome_bind_ok (outcome_modifyGet _ w)]
  simp only [hrun]
  rfl

/-- The pickle is read as the dictionary of the tensors. -/
theorem outcome_unpickle (a : Written) {w : Workspace Unit}
    (hw : Heap.standard.Extends w.machine.heap) : ∃ placed place m,
      (unpickle a.source (a.directory ++ "data/") a.dictionary).outcome w =
        (.ok (.ref w.machine.heap.size), { w with machine := m }) ∧
      m.heap.get? w.machine.heap.size =
        some (.dict ⟨(entries placed).map fun e => (.str e.1.text, e.2)⟩) ∧
      a.Restored placed place ((entries placed).foldl Layer.addFlat []) m.heap := by
  let v : Workspace Table := { machine := w.machine, table := {} }
  let v₀ := withHeap v (w.machine.heap.push (.dict {}))
  have hv₀ : a.Sound v₀ := ⟨hw.trans (Heap.extends_push _ _), nofun, nofun⟩
  obtain ⟨placed, v', hplaced, hyields, hreaches, hsound, hstands⟩ :=
    hv₀.yields_tensors (List.Subset.refl a.tensors)
  have hdict : v'.machine.heap.get? w.machine.heap.size = some (.dict {}) :=
    hreaches.heap (Heap.get?_push_size _ _)
  let texts : List (String × Value) := (entries placed).map fun e => (e.1.text, e.2)
  have hbody : Yields (resolve a.source (a.directory ++ "data/")) (a.tensors.flatMap (·.encode)) v₀
      (texts.flatMap fun e => [.str e.1, e.2]) v' := by
    simp only [texts, entries, List.map_map, List.flatMap_map]
    exact hyields
  have hload := outcome_loadFrom_dict (w := v) hbody hdict a.version
  have hnodup : (texts.map (·.1)).Nodup := by
    have hnames := a.names_nodup
    rw [← hplaced] at hnames
    simpa [texts, entries, Function.comp_def] using hnames
  have hset := updates_setTexts texts hdict
  rw [foldl_insert_texts hnodup, List.map_map] at hset
  exact ⟨placed, place v'.table, _, outcome_withTable hload, hset.get?_self,
    hsound.restored hplaced hstands (hset.keeps hdict)⟩

/-- The dictionary holds one set of weights and no tree of modules. -/
theorem Restored.classify {placed : List (WrittenTensor × Nat)} {place : String → Nat}
    {layers : List Layer} {h : Heap} {root : Nat} (hrestored : a.Restored placed place layers h)
    (hroot : h.get? root = some (.dict ⟨(entries placed).map fun e => (.str e.1.text, e.2)⟩)) :
    h.classify (.ref root) =
      .ok (.weights [⟨"", (entries placed).foldl Layer.addFlat []⟩]) := by
  have htensors : ∀ e ∈ entries placed, h.HoldsTensor e.2 := by
    intro entry hentry
    obtain ⟨e, he, rfl⟩ := List.mem_map.mp hentry
    exact (hrestored.tensor e he).holdsTensor
  have hlength : 2 ≤ (entries placed).length := by
    have hlength := a.two_le_length
    rw [← hrestored.tensors_eq, List.length_map] at hlength
    rwa [entries, List.length_map]
  rw [Heap.classify, Heap.moduleTree?_of_flat hroot, Heap.weights?_of_flat hroot htensors hlength]

theorem outcome_read (a : Written) {w : Workspace Unit} (hw : Heap.standard.Extends w.machine.heap) :
    ∃ placed place layers w',
      (Bundle.read { directory := a.directory, format := "PyTorch" } a.source).outcome w =
        (.ok { content := .weights [⟨"", layers⟩] }, w') ∧
      a.Restored placed place layers w'.machine.heap := by
  obtain ⟨placed, place, m, hunpickle, hroot, hrestored⟩ := a.outcome_unpickle hw
  have hconstants : a.source.entry? (a.directory ++ "constants.pkl") = none :=
    a.entry?_eq_none (by decide)
  have hlabel : "PyTorch".startsWith "TorchScript" = false := by decide +kernel
  refine ⟨placed, place, _, { w with machine := m }, ?_, hrestored⟩
  unfold Bundle.read
  simp only [hconstants, a.entry?_main, hlabel]
  rw [outcome_bind_ok hunpickle]
  simp only [pure_bind, Bool.false_eq_true, if_false]
  rw [outcome_bind_ok (outcome_heap _), hrestored.classify hroot,
    outcome_bind_ok (Restore.outcome_ofExcept_ok _ _)]
  rfl

theorem openIn_source (a : Written) (m : Machine) :
    Bundle.openIn a.source a.directory m = .ok ({ directory := a.directory, format := "PyTorch" }, m) := by
  have hmanifest : a.source.entry? (a.directory ++ "model.json") = none := a.entry?_eq_none (by decide)
  have hconstants : a.source.entry? (a.directory ++ "constants.pkl") = none :=
    a.entry?_eq_none (by decide)
  have hversion : a.source.entry? (a.directory ++ "version") = none := a.entry?_eq_none (by decide)
  unfold Bundle.openIn
  simp only [hmanifest, versionLabel, hconstants, hversion, a.codeFiles_source]
  rfl

/-- Loading gives back the bundle that was written: an entry for each name with its tensor, each tensor
with its layout over the storage of its key, each storage with its bytes and shared by the tensors that
were written with its key. -/
theorem load_bundle (a : Written) (d : Diagnostics) : ∃ c placed place layers c',
    Checkpoint.openIn a.source (Machine.standard.withDiagnostics d) = .ok c ∧
      Checkpoint.load.run c = (.ok { content := .weights [⟨"", layers⟩] }, c') ∧
      a.Restored placed place layers c'.machine.heap := by
  let m := Machine.standard.withDiagnostics d
  let c : Checkpoint := {
    source := a.source
    layout := .bundle { directory := a.directory, format := "PyTorch" }
    machine := m }
  have hm : Heap.standard.Extends m.heap := Heap.Extends.refl _
  obtain ⟨placed, place, layers, w', hread, hrestored⟩ := a.outcome_read (w := ⟨m, ()⟩) hm
  have hload : c.read = (.ok _, w'.machine) := congrArg (fun r => (r.1, r.2.machine)) hread
  refine ⟨c, placed, place, layers, _, ?_, Checkpoint.run_load rfl hload, hrestored⟩
  unfold Checkpoint.openIn
  rw [a.layout_source]
  simp only [bind, Except.bind, a.openIn_source]
  rfl

end Written

namespace Sample

def first : SavedStorage where
  key := ⟨"0", by decide +kernel⟩
  type := ⟨"torch", "Float", .float32, by decide, by decide +kernel, by decide +kernel⟩
  count := 2
  data := [0, 0, 128, 63, 0, 0, 0, 64]
  length_eq := rfl
  short := by decide

def second : SavedStorage where
  key := ⟨"1", by decide +kernel⟩
  type := ⟨"torch", "Long", .int64, by decide, by decide +kernel, by decide +kernel⟩
  count := 0
  data := []
  length_eq := rfl
  short := by decide

/-- Three tensors over two storages. -/
def bundle : Written where
  directory := "net/"
  version := some 2
  storages := [first, second]
  tensors := [
    { layer := "fc", parameter := "weight", layer_ne := by decide, notMem_parameter := by decide
      not_packedType := by decide +kernel, short := by decide +kernel, storage := first
      shape := [2], stride := [1], offset := 0 },
    { layer := "fc", parameter := "bias", layer_ne := by decide, notMem_parameter := by decide
      not_packedType := by decide +kernel, short := by decide +kernel, storage := first
      shape := [], stride := [], offset := 1 },
    { layer := "bn", parameter := "count", layer_ne := by decide, notMem_parameter := by decide
      not_packedType := by decide +kernel, short := by decide +kernel, storage := second
      shape := [0], stride := [1], offset := 0 }]
  directory_eq := .inr ⟨"net", by decide⟩
  keys_nodup := by decide
  storage_mem := by simp
  names_nodup := by decide
  two_le_length := by decide

end Sample

theorem load_bundle_sample : ∃ c placed place layers c',
    Checkpoint.openIn Sample.bundle.source (Machine.standard.withDiagnostics { packages := [] }) = .ok c ∧
      Checkpoint.load.run c = (.ok { content := .weights [⟨"", layers⟩] }, c') ∧
      Sample.bundle.Restored placed place layers c'.machine.heap :=
  Sample.bundle.load_bundle { packages := [] }

end ModelGraph.Bundle
