import ModelGraph.Archive.Checkpoint
import ModelGraph.Proofs.Archive.Tar

/-!
# Archives of the first releases read back

Each entry is read in turn: the record about the system, the storages, the tensors over them, and the
dictionary, whose names are the weights. The last theorem puts the parts together.
-/

namespace ModelGraph

namespace TarLayout

open Restore Pickle

variable {w : Workspace Table}

/-! ## Entries of archives -/

theorem outcome_within {α : Type} {s : Source} {name : String} {data : Bytes} {c : Cursor}
    {reading : Reading Table α} {a : α} (hentry : s.entry name = .ok data)
    (hread : reading.outcome (.start data) w = ((.ok a, c), w')) :
    (within s name reading).outcome w = (.ok a, w') := by
  unfold within
  rw [hentry, outcome_bind_ok (Restore.outcome_ofExcept_ok data w)]
  exact congrArg (fun r => (r.1.1, r.2)) hread

theorem outcome_readCount (what : String) {n : Nat} (hn : n < 0x8000000000000000)
    (version : Option UInt8) (start : Nat) (rest : Bytes) (w : Workspace Table) :
    (readCount what).outcome ⟨start, pickled version (encodeInt (Int64.ofNat n)) ++ rest⟩ w =
      ((.ok n, ⟨start + (pickled version (encodeInt (Int64.ofNat n))).length, rest⟩), w) := by
  have hload : (load : Reading Table Value).outcome
      ⟨start, pickled version (encodeInt (Int64.ofNat n)) ++ rest⟩ w = ((.ok (.int (Int64.ofNat n)), _), w) :=
    outcome_loadWith_of_passes (w := w) (h := w.machine.heap)
      (passes_int refuse w (Int64.ofNat n) {} w.machine.heap) rfl version start rest
  have hsize : (Value.int (Int64.ofNat n)).size? = some n := Value.size?_ofSize hn
  unfold readCount
  rw [Reading.outcome_bind_ok hload, hsize]
  rfl

section

variable {α : Type} {encode : α → Bytes} {keyOf : α → String} {reading : Reading Table Unit}
  {Inv : Workspace Table → Prop} {Done : α → Workspace Table → Prop}

/-- The items of an entry that begins with their number are all read. -/
theorem exists_outcome_items {s : Source} {name : String} {items : List α}
    {version : Option UInt8}
    (hentry : s.entry name =
      .ok (pickled version (encodeInt (Int64.ofNat items.length)) ++ items.flatMap encode))
    (hlength : items.length < 0x8000000000000000) (hkeys : (items.map keyOf).Nodup)
    (hinv : Stable (items.map keyOf) Inv)
    (hdone : ∀ a ∈ items, Stable ((items.map keyOf).filter (· ≠ keyOf a)) (Done a))
    (hstep : ∀ a ∈ items, ∀ start rest w, Inv w → ∃ id w',
      reading.outcome ⟨start, encode a ++ rest⟩ w =
        ((.ok (), ⟨start + (encode a).length, rest⟩), w') ∧ Binds w (keyOf a) id w' ∧ Done a w')
    (hw : Inv w) : ∃ w',
      (within s name do repeatedly reading (← readCount name)).outcome w = (.ok (), w') ∧
      (∀ P, Stable (items.map keyOf) P → P w → P w') ∧ ∀ a ∈ items, Done a w' := by
  obtain ⟨w', hreads, hstable, hdones⟩ := outcome_repeatedly hkeys hinv hdone hstep
    (0 + (pickled version (encodeInt (Int64.ofNat items.length))).length) [] hw
  refine ⟨w', ?_, hstable, hdones⟩
  have hcount := outcome_readCount name hlength version 0 (items.flatMap encode) w
  rw [List.append_nil] at hreads
  exact outcome_within hentry ((Reading.outcome_bind_ok hcount _).trans hreads)

end

namespace Written

variable (a : Written)

theorem outcome_load_system (start : Nat) (rest : Bytes) (w : Workspace Table) : ∃ h,
    load.outcome ⟨start, a.system ++ rest⟩ w =
      ((.ok (.ref w.machine.heap.size), ⟨start + a.system.length, rest⟩), withHeap w h) ∧
    w.machine.heap.Extends h ∧
    h.checkSystem (.ref w.machine.heap.size) protocol = .ok a.littleEndian := by
  let h := w.machine.heap
  let entries : List (String × Value) :=
    [(versionKey.text, .int protocol), (endianKey.text, .bool a.littleEndian)]
  have hint : Pushes refuse w (h.push (.dict {})) (encodeInt protocol) [.int protocol] :=
    fun _ _ _ => passes_int refuse w protocol _ _
  have hbool : Pushes refuse w (h.push (.dict {})) [if a.littleEndian then 0x88 else 0x89]
      [.bool a.littleEndian] := fun _ _ _ => passes_bool refuse w a.littleEndian _ _
  have hbody : Pushes refuse w (h.push (.dict {})) _ (entries.flatMap fun e => [.str e.1, e.2]) :=
    (((pushes_text versionKey).append hint).append (pushes_text endianKey)).append hbool
  have hset := updates_setTexts entries (Heap.get?_push_size h (.dict {}))
  refine ⟨_, outcome_loadWith_dict hbody a.version start rest,
    (Heap.extends_push h _).updates (Nat.le_refl _) hset, ?_⟩
  have hitem (name : String) : (setTexts h.size entries (h.push (.dict {}))).item? (.ref h.size)
      (.str name) = (({} : Dict).insert (.str versionKey.text) (.int protocol)
        |>.insert (.str endianKey.text) (.bool a.littleEndian)).get? (.str name) := by
    have hobject : (setTexts h.size entries (h.push (.dict {}))).object? (.ref h.size) = _ :=
      hset.get?_self
    rw [Heap.item?, hobject]
    rfl
  have hnone (key : Key) : ({} : Dict).get? key = none := rfl
  have hdeclared : (Value.int protocol).int? = some protocol := rfl
  unfold Heap.checkSystem
  simp [h, hitem, OrderedMap.get?_insert, versionKey, endianKey, hnone, hdeclared, Value.bool?]
  rfl

theorem nodup_storages : (a.storages.map (·.key.text)).Nodup :=
  (List.nodup_append.mp a.keys_nodup).1

theorem nodup_tensors : (a.tensors.map (·.key.text)).Nodup :=
  (List.nodup_append.mp a.keys_nodup).2.1

variable {a} in
theorem storageKey_notMem {s : WrittenStorage} (hs : s ∈ a.storages) :
    s.key.text ∉ a.tensors.map (·.key.text) := fun hmem =>
  (List.nodup_append.mp a.keys_nodup).2.2 _ (List.mem_map_of_mem hs) _ hmem rfl

theorem stable_extends (h : Heap) (keys : List String) :
    Stable keys fun w => h.Extends w.machine.heap := fun _ _ _ _ _ hbinds hext => hext.trans hbinds.heap

/-- All storages are made. -/
theorem outcome_storages (hw : Heap.standard.Extends w.machine.heap) : ∃ w',
    (within a.source "storages" do repeatedly readStorage (← readCount "storages")).outcome w =
      (.ok (), w') ∧
    Heap.standard.Extends w'.machine.heap ∧ ∀ s ∈ a.storages, s.Stands w' := by
  obtain ⟨-, hentry, -, -⟩ := a.entry_source
  have hown : ∀ s ∈ a.storages,
      Stable ((a.storages.map (·.key.text)).filter (· ≠ s.key.text)) s.Stands := fun s _ =>
    s.stable_stands fun hmem => by simpa using List.mem_filter.mp hmem
  obtain ⟨w', hreads, hstable, hstands⟩ := exists_outcome_items hentry a.storages_short
    a.nodup_storages (stable_extends Heap.standard _) hown
    (fun s _ start rest w hw => s.outcome_readStorage a.version start rest hw) hw
  exact ⟨w', hreads, hstable _ (stable_extends Heap.standard _) hw, hstands⟩

/-- The keys stand for the storages and for the tensors over them. -/
structure Stands (w : Workspace Table) : Prop where
  storage : ∀ s ∈ a.storages, s.Stands w
  tensor : ∀ t ∈ a.tensors, ∃ s ∈ a.storages, s.key.text = t.storageKey.text ∧ t.Stands s w

/-- All tensors are made. -/
theorem outcome_tensors (hw : Heap.standard.Extends w.machine.heap)
    (hstorages : ∀ s ∈ a.storages, s.Stands w) : ∃ w',
      (within a.source "tensors" do repeatedly readTensor (← readCount "tensors")).outcome w =
        (.ok (), w') ∧ a.Stands w' := by
  obtain ⟨-, -, hentry, -⟩ := a.entry_source
  let Inv (w : Workspace Table) : Prop :=
    Heap.standard.Extends w.machine.heap ∧ ∀ s ∈ a.storages, s.Stands w
  let Done (t : WrittenTensor) (w : Workspace Table) : Prop :=
    ∃ s ∈ a.storages, s.key.text = t.storageKey.text ∧ t.Stands s w
  have hinv : Stable (a.tensors.map (·.key.text)) Inv := by
    rintro w key id w' hkey hbinds ⟨hext, hstands⟩
    exact ⟨hext.trans hbinds.heap, fun s hs =>
      s.stable_stands (storageKey_notMem hs) hkey hbinds (hstands s hs)⟩
  have hdone : ∀ t ∈ a.tensors,
      Stable ((a.tensors.map (·.key.text)).filter (· ≠ t.key.text)) (Done t) := by
    rintro t ht w key id w' hkey hbinds ⟨s, hs, hname, hstands⟩
    refine ⟨s, hs, hname, t.stable_stands (fun hmem => ?_) (fun hmem => ?_) hkey hbinds hstands⟩
    · simpa using List.mem_filter.mp hmem
    · exact storageKey_notMem hs (List.mem_of_mem_filter hmem)
  obtain ⟨w', hreads, hstable, htensors⟩ := exists_outcome_items hentry a.tensors_short
    a.nodup_tensors hinv hdone (fun t ht start rest w hw => by
      obtain ⟨s, hs, hname⟩ := List.mem_map.mp (a.storageKey_mem t ht)
      have hne : t.key.text ≠ s.key.text := fun heq =>
        storageKey_notMem hs (heq ▸ List.mem_map_of_mem ht)
      obtain ⟨id, w', hread, hbinds, hstands⟩ :=
        t.outcome_readTensor a.version start rest hw.1 (hw.2 s hs) hname.symm hne
      exact ⟨id, w', hread, hbinds, s, hs, hname, hstands⟩) ⟨hw, hstorages⟩
  exact ⟨w', hreads, (hstable Inv hinv ⟨hw, hstorages⟩).2, htensors⟩

theorem outcome_resolve {key : String} {v : Value} (hkey : w.table.get? (.str key) = some v) :
    (resolve (.str key)).outcome w = (.ok v, w) := by
  have hfound : w.table.get? (.ofValue (.str key)) = some v := hkey
  unfold resolve
  rw [outcome_bind_ok (outcome_get w), hfound]
  rfl

theorem pushes_name (e : WrittenName) {v : Value} (hkey : w.table.get? (.str e.tensorKey.text) = some v)
    (h : Heap) : Pushes resolve w h e.encode [.str e.text, v] := by
  intro stack marks memo
  have hkey' : (withHeap w h).table.get? (.str e.tensorKey.text) = some v := hkey
  exact (passes_text resolve w e.name _ h).append ((passes_text resolve w e.tensorKey _ h).append
    (passes_persistent resolve w _ _ _ h (outcome_resolve hkey')))

/-- The objects that the keys stand for, by their places on the heap. -/
def place (table : Table) (key : String) : Nat := ((table.get? (.str key)).bind Value.ref?).getD 0

theorem get?_place {key : String} {id : Nat} (hkey : w.table.get? (.str key) = some (.ref id)) :
    place w.table key = id := by
  rw [place, hkey]
  rfl

/-- The names with the tensors that they stand for. -/
def placed (place : String → Nat) : List (FlatName × Value) :=
  a.names.map fun e => (e.toFlatName, .ref (place e.tensorKey.text))

variable {a}

theorem Stands.get?_tensorKey (hstands : a.Stands w) {e : WrittenName} (he : e ∈ a.names) :
    w.table.get? (.str e.tensorKey.text) = some (.ref (place w.table e.tensorKey.text)) := by
  obtain ⟨t, ht, hkey⟩ := List.mem_map.mp (a.tensorKey_mem e he)
  obtain ⟨s, -, -, storage, id, -, hid, -⟩ := hstands.tensor t ht
  rw [← hkey, get?_place hid, hid]

theorem Stands.outcome_dictionary (hstands : a.Stands w) : ∃ h,
    (within a.source "pickle" (loadWith resolve)).outcome w =
      (.ok (.ref w.machine.heap.size), withHeap w h) ∧
    w.machine.heap.Extends h ∧ h.get? w.machine.heap.size =
      some (.dict ⟨a.names.map fun e => (.str e.text, .ref (place w.table e.tensorKey.text))⟩) := by
  obtain ⟨-, -, -, hentry⟩ := a.entry_source
  let h := w.machine.heap
  let entries : List (String × Value) :=
    a.names.map fun e => (e.text, .ref (place w.table e.tensorKey.text))
  have hbody : Pushes resolve w (h.push (.dict {})) (a.names.flatMap (·.encode))
      (entries.flatMap fun e => [.str e.1, e.2]) := by
    rw [List.flatMap_map]
    exact Pushes.flatMap fun e he => pushes_name e (hstands.get?_tensorKey he) _
  have hnodup : (entries.map (·.1)).Nodup := by
    rw [List.map_map]
    exact a.names_nodup
  have hset := updates_setTexts entries (Heap.get?_push_size h (.dict {}))
  rw [foldl_insert_texts hnodup, List.map_map] at hset
  have hload := outcome_loadWith_dict hbody a.version 0 []
  rw [List.append_nil] at hload
  exact ⟨_, outcome_within hentry hload,
    (Heap.extends_push h _).updates (Nat.le_refl _) hset, hset.get?_self⟩

/-- The record about the system is read and agrees with the layout. -/
theorem outcome_system (a : Written) (w : Workspace Table) : ∃ h,
    (within a.source "sys_info" load).outcome w =
      (.ok (.ref w.machine.heap.size), withHeap w h) ∧
    w.machine.heap.Extends h ∧
    h.checkSystem (.ref w.machine.heap.size) protocol = .ok a.littleEndian := by
  obtain ⟨h, hload, hextends, hcheck⟩ := a.outcome_load_system 0 [] w
  rw [List.append_nil] at hload
  exact ⟨h, outcome_within a.entry_source.1 hload, hextends, hcheck⟩

/-! ## The weights -/

/-- The layers and the heap give back what was written, the object of each key at its place. -/
structure Restored (a : Written) (place : String → Nat) (layers : List Layer) (h : Heap) :
    Prop where
  /-- Each name has its entry, and there are no others. -/
  state : ∀ name state, Layer.HasState layers name state ↔ ∃ e ∈ a.names, e.layer = name ∧
    state = ⟨e.parameter, [(e.text, .ref (place e.tensorKey.text))]⟩
  tensor : ∀ t ∈ a.tensors, ∃ s ∈ a.storages, s.key.text = t.storageKey.text ∧
    t.Laid s.type (place s.key.text) (place t.key.text) h
  storage : ∀ s ∈ a.storages, ∃ o, h.get? (place s.key.text) = some (.storage o) ∧
    o.module = s.type.package ∧ o.name = s.type.name ∧ o.storage.bytes? = some s.data

/-- What the keys stand for is what the weights of the dictionary are made of. -/
theorem Stands.restored (hstands : a.Stands w) {h : Heap} (hext : w.machine.heap.Extends h)
    {layers : List Layer} (hlayers : layers = (a.placed (place w.table)).foldl Layer.addFlat []) :
    a.Restored (place w.table) layers h where
  state name state := by
    rw [hlayers, Layer.hasState_foldl_addFlat]
    simp [Layer.HasState, placed]
  tensor t ht := by
    obtain ⟨s, hs, hkey, storage, id, hstorage, hid, hlaid⟩ := hstands.tensor t ht
    rw [get?_place hid]
    refine ⟨s, hs, hkey, ?_⟩
    rw [get?_place hstorage]
    exact hlaid.extends hext
  storage s hs := by
    obtain ⟨id, hid, hobject⟩ := hstands.storage s hs
    rw [get?_place hid]
    exact ⟨s.object, hext hobject, rfl, rfl, s.bytes?_object⟩

theorem Stands.weights? (hstands : a.Stands w) {h : Heap} {root : Nat}
    (hext : w.machine.heap.Extends h) (hroot : h.get? root =
      some (.dict ⟨a.names.map fun e => (.str e.text, .ref (place w.table e.tensorKey.text))⟩)) :
    h.weights? (.ref root) = some [⟨"", (a.placed (place w.table)).foldl Layer.addFlat []⟩] := by
  refine Heap.weights?_of_flat ?_ ?_ ?_
  · rw [placed, List.map_map]
    exact hroot
  · intro entry hentry
    obtain ⟨e, he, rfl⟩ := List.mem_map.mp hentry
    obtain ⟨t, ht, hkey⟩ := List.mem_map.mp (a.tensorKey_mem e he)
    obtain ⟨s, -, -, storage, id, -, hid, hlaid⟩ := hstands.tensor t ht
    rw [← hkey, get?_place hid]
    exact (hlaid.extends hext).holdsTensor
  · rw [placed, List.length_map]
    exact a.two_le_length

theorem outcome_read (a : Written) (hw : Heap.standard.Extends w.machine.heap) :
    ∃ layers place w', (read a.source).outcome w =
        (.ok { content := .weights [⟨"", layers⟩], littleEndian := a.littleEndian }, w') ∧
      a.Restored place layers w'.machine.heap := by
  obtain ⟨h₁, hsystem, hext₁, hcheck⟩ := a.outcome_system w
  obtain ⟨w₂, hreadStorages, hext₂, hstorages⟩ :=
    a.outcome_storages (w := withHeap w h₁) (hw.trans hext₁)
  obtain ⟨w₃, hreadTensors, hstands⟩ := a.outcome_tensors hext₂ hstorages
  obtain ⟨h₄, hdictionary, hext₄, hroot⟩ := hstands.outcome_dictionary
  refine ⟨_, place w₃.table, withHeap w₃ h₄, ?_, hstands.restored hext₄ rfl⟩
  unfold read
  rw [outcome_bind_ok hsystem, outcome_bind_ok (outcome_heap _)]
  have hchecked : (withHeap w h₁).machine.heap.checkSystem (.ref w.machine.heap.size) protocol =
      .ok a.littleEndian := hcheck
  have hweights : (withHeap w₃ h₄).machine.heap.weights? (.ref w₃.machine.heap.size) = _ :=
    hstands.weights? hext₄ hroot
  rw [hchecked, outcome_bind_ok (Restore.outcome_ofExcept_ok _ _), outcome_bind_ok hreadStorages,
    outcome_bind_ok hreadTensors, outcome_bind_ok hdictionary,
    outcome_bind_ok (outcome_heap _), hweights]
  rfl

theorem layout_source (a : Written) : a.source.layout = .ok .tar := by
  have hmain : a.source.entries.find? (Source.isMainEntry ·.1) = none := by
    rw [List.find?_eq_none, a.entries_source]
    have hnames : ∀ name ∈ ["pickle", "storages", "sys_info", "tensors"],
        Source.isMainEntry name = false := by decide +kernel
    simpa using hnames
  have hpickle : (a.source.entry? "pickle").isSome := by
    rw [Source.entry?, a.entries_source]
    rfl
  unfold Source.layout
  rw [hmain]
  have hstream : a.source.stream? = none := by
    rfl
  simp [hstream, hpickle]

/-- Loading gives back the archive that was written: an entry for each name with its tensor, each
tensor with its layout over the storage of its key, each storage with its bytes. -/
theorem load_source (a : Written) (d : Diagnostics) : ∃ c layers place c',
    Checkpoint.openIn a.source (Machine.standard.withDiagnostics d) = .ok c ∧
      Checkpoint.load.run c =
        (.ok { content := .weights [⟨"", layers⟩], littleEndian := a.littleEndian }, c') ∧
      a.Restored place layers c'.machine.heap := by
  let m := Machine.standard.withDiagnostics d
  let c : Checkpoint := { source := a.source, layout := .tar, machine := m }
  have hm : Heap.standard.Extends m.heap := Heap.Extends.refl _
  obtain ⟨layers, place, w', hread, hrestored⟩ := a.outcome_read (w := ⟨m, {}⟩) hm
  have hload : c.read = (.ok _, w'.machine) := congrArg (fun r => (r.1, r.2.machine)) hread
  refine ⟨c, layers, place, _, ?_, Checkpoint.run_load rfl hload, hrestored⟩
  unfold Checkpoint.openIn
  rw [a.layout_source]
  rfl

end Written

namespace Sample

/-- Two tensors over the same two numbers. -/
def archive : Written where
  version := some 2
  littleEndian := true
  storages := [{
    key := ⟨"s", by decide +kernel⟩
    type := ⟨"torch.cuda", "Half", .float16, by decide, by decide +kernel, by decide +kernel⟩
    count := 2
    data := [0, 60, 0, 64]
    length_eq := rfl
    short := by decide
    location := ⟨"cuda:0", by decide +kernel⟩ }]
  tensors := [
    { key := ⟨"a", by decide +kernel⟩, storageKey := ⟨"s", by decide +kernel⟩
      shape := [2], stride := [1], offset := 0, length_eq := rfl, short := by decide },
    { key := ⟨"b", by decide +kernel⟩, storageKey := ⟨"s", by decide +kernel⟩
      shape := [], stride := [], offset := 1, length_eq := rfl, short := by decide }]
  names := [
    { layer := "norm", parameter := "running_mean", layer_ne := by decide
      notMem_parameter := by decide, not_packedType := by decide +kernel
      tensorKey := ⟨"a", by decide +kernel⟩, short := by decide +kernel },
    { layer := "norm", parameter := "running_var", layer_ne := by decide
      notMem_parameter := by decide, not_packedType := by decide +kernel
      tensorKey := ⟨"b", by decide +kernel⟩, short := by decide +kernel }]
  keys_nodup := by decide
  storageKey_mem := by decide
  tensorKey_mem := by decide
  names_nodup := by decide
  two_le_length := Nat.le_refl 2
  storages_short := by decide
  tensors_short := by decide

end Sample

theorem load_source_sample : ∃ c layers place c',
    Checkpoint.openIn Sample.archive.source (Machine.standard.withDiagnostics { packages := [] }) = .ok c ∧
      Checkpoint.load.run c =
        (.ok { content := .weights [⟨"", layers⟩], littleEndian := true }, c') ∧
      Sample.archive.Restored place layers c'.machine.heap :=
  Sample.archive.load_source { packages := [] }

end TarLayout

end ModelGraph
