import ModelGraph.Archive.Tar
import ModelGraph.Proofs.Archive.Saved

/-!
# Archives of the first releases

An archive has four entries: the record about the system, the storages with their bytes, the tensors, and a
dictionary from names to keys of tensors. They are written down here, and read back.
-/

namespace ModelGraph.TarLayout

open Pickle

/-- A storage with the name of the place that it was in. -/
structure WrittenStorage extends SavedStorage where
  location : ShortText

/-- A tensor over the storage with a key. -/
structure WrittenTensor extends TensorLayout where
  key : ShortText
  storageKey : ShortText
  length_eq : stride.length = shape.length
  short : shape.length < 0x80000000

/-- A name and the key of the tensor that it stands for. -/
structure WrittenName extends FlatName where
  tensorKey : ShortText
  short : (Text.utf8 toFlatName.text).length < 0x100000000

/-- The name as it stands in the dictionary. -/
def WrittenName.name (e : WrittenName) : ShortText := ⟨e.text, e.short⟩

structure Written where
  /-- The version of the pickles' protocol, if they name it. -/
  version : Option UInt8
  littleEndian : Bool
  storages : List WrittenStorage
  tensors : List WrittenTensor
  names : List WrittenName
  keys_nodup : (storages.map (·.key.text) ++ tensors.map (·.key.text)).Nodup
  storageKey_mem : ∀ t ∈ tensors, t.storageKey.text ∈ storages.map (·.key.text)
  tensorKey_mem : ∀ e ∈ names, e.tensorKey.text ∈ tensors.map (·.key.text)
  names_nodup : (names.map (·.text)).Nodup
  two_le_length : 2 ≤ names.length
  storages_short : storages.length < 0x8000000000000000
  tensors_short : tensors.length < 0x8000000000000000

/-! ## Entries -/

def encodeWords (words : List Int64) : Bytes := words.flatMap fun word => bytesOfInt 8 word.toInt

namespace WrittenStorage

variable (s : WrittenStorage)

def record : Bytes :=
  [0x28] ++ (encodeText s.key ++ encodeText s.location ++ encodeGlobal s.type.package s.type.name) ++
    [0x74]

def encode (version : Option UInt8) : Bytes :=
  pickled version s.record ++ (bytesOfInt 8 (Int64.ofNat s.count).toInt ++ s.data)

end WrittenStorage

namespace WrittenTensor

variable (t : WrittenTensor)

def record : Bytes := [0x28] ++ (encodeText t.key ++ encodeText t.storageKey) ++ [0x74]

def encode (version : Option UInt8) : Bytes :=
  pickled version t.record ++ (bytesOfInt 4 (Int64.ofNat t.shape.length).toInt ++ ([0, 0, 0, 0] ++
    (encodeWords t.shape ++ (encodeWords t.stride ++ bytesOfInt 8 t.offset.toInt))))

end WrittenTensor

/-- A name and the tensor that its key refers to. -/
def WrittenName.encode (e : WrittenName) : Bytes := encodeText e.name ++ (encodeText e.tensorKey ++ [0x51])

/-- The keys of the record about the system. -/
def versionKey : ShortText := ⟨"protocol_version", by decide +kernel⟩

def endianKey : ShortText := ⟨"little_endian", by decide +kernel⟩

namespace Written

variable (a : Written)

def system : Bytes :=
  pickled a.version ([0x7d] ++ [0x28] ++ (encodeText versionKey ++ encodeInt protocol ++
    encodeText endianKey ++ [if a.littleEndian then 0x88 else 0x89]) ++ [0x75])

def storageRecords : Bytes :=
  pickled a.version (encodeInt (Int64.ofNat a.storages.length)) ++
    a.storages.flatMap (·.encode a.version)

def tensorRecords : Bytes :=
  pickled a.version (encodeInt (Int64.ofNat a.tensors.length)) ++
    a.tensors.flatMap (·.encode a.version)

def dictionary : Bytes :=
  pickled a.version ([0x7d] ++ [0x28] ++ a.names.flatMap (·.encode) ++ [0x75])

/-- The archive with the four entries. -/
def source : Source :=
  .ofEntries [("sys_info", a.system), ("storages", a.storageRecords), ("tensors", a.tensorRecords),
    ("pickle", a.dictionary)]

theorem entries_source : a.source.entries = [("pickle", a.dictionary),
    ("storages", a.storageRecords), ("sys_info", a.system), ("tensors", a.tensorRecords)] := by
  simp only [source, Source.ofEntries, Source.insert, Source.insertEntry, List.foldl_cons,
    List.foldl_nil, String.reduceLT, String.reduceEq, if_true, if_false]

theorem entry_source : a.source.entry "sys_info" = .ok a.system ∧
    a.source.entry "storages" = .ok a.storageRecords ∧
    a.source.entry "tensors" = .ok a.tensorRecords ∧ a.source.entry "pickle" = .ok a.dictionary := by
  simp [Source.entry, Source.entry?, a.entries_source, List.lookup_cons]

end Written

end ModelGraph.TarLayout

/-! # Reading back -/

namespace ModelGraph

namespace TarLayout

open Restore Pickle

/-! ## Binding keys -/

/-- The second workspace is the first one with a key bound to a new object. -/
structure Binds (w : Workspace Table) (key : String) (id : Nat) (w' : Workspace Table) : Prop where
  heap : w.machine.heap.Extends w'.machine.heap
  table_eq : w'.table = w.table.insert (.str key) (.ref id)

/-- What holds is not changed by the binding of these keys. -/
def Stable (keys : List String) (P : Workspace Table → Prop) : Prop :=
  ∀ ⦃w key id w'⦄, key ∈ keys → Binds w key id w' → P w → P w'

variable {w w' : Workspace Table} {key other : String} {id : Nat}

theorem Binds.get?_self (h : Binds w key id w') : w'.table.get? (.str key) = some (.ref id) := by
  rw [h.table_eq, OrderedMap.get?_insert_self]

theorem Binds.get?_of_ne (h : Binds w key id w') (hne : key ≠ other) :
    w'.table.get? (.str other) = w.table.get? (.str other) := by
  rw [h.table_eq, OrderedMap.get?_insert_of_ne _ fun heq => hne (Key.str.inj heq).symm]

section

variable {α : Type} {encode : α → Bytes} {keyOf : α → String} {reading : Reading Table Unit}
  {Inv : Workspace Table → Prop} {Done : α → Workspace Table → Prop}

/-- A reading that binds the key of one item, repeated for all items. What holds at first lasts, if it
does not depend on the keys of the items, and what each step does lasts, if it does not depend on the
keys of the others. -/
theorem outcome_repeatedly {items : List α} (hkeys : (items.map keyOf).Nodup)
    (hinv : Stable (items.map keyOf) Inv)
    (hdone : ∀ a ∈ items, Stable ((items.map keyOf).filter (· ≠ keyOf a)) (Done a))
    (hstep : ∀ a ∈ items, ∀ start rest w, Inv w → ∃ id w',
      reading.outcome ⟨start, encode a ++ rest⟩ w =
        ((.ok (), ⟨start + (encode a).length, rest⟩), w') ∧ Binds w (keyOf a) id w' ∧ Done a w')
    (start : Nat) (rest : Bytes) (hw : Inv w) :
    ∃ w', (repeatedly reading items.length).outcome ⟨start, items.flatMap encode ++ rest⟩ w =
        ((.ok (), ⟨start + (items.flatMap encode).length, rest⟩), w') ∧
      (∀ P, Stable (items.map keyOf) P → P w → P w') ∧ ∀ a ∈ items, Done a w' := by
  induction items generalizing start w with
  | nil => exact ⟨w, rfl, fun _ _ => id, fun _ h => by cases h⟩
  | cons a items ih =>
      obtain ⟨hnew, hkeys⟩ := List.nodup_cons.mp hkeys
      obtain ⟨ha, hrest⟩ := List.forall_mem_cons.mp hstep
      obtain ⟨id, w₁, hread, hbinds, hdone₁⟩ := ha start (items.flatMap encode ++ rest) w hw
      have hlater {P : Workspace Table → Prop} (hP : Stable ((a :: items).map keyOf) P) :
          Stable (items.map keyOf) P := fun _ _ _ _ hkey => hP (List.mem_cons_of_mem _ hkey)
      have hfilter (b : α) : (items.map keyOf).filter (· ≠ keyOf b) ⊆
          ((a :: items).map keyOf).filter (· ≠ keyOf b) :=
        List.filter_subset _ (List.subset_cons_self _ _)
      obtain ⟨w₂, hreads, hstable, hdones⟩ := ih hkeys (hlater hinv)
        (fun b hb _ _ _ _ hkey => hdone b (List.mem_cons_of_mem _ hb) (hfilter b hkey)) hrest
        (start + (encode a).length) (hinv List.mem_cons_self hbinds hw)
      have hlast : Done a w₂ := by
        refine hstable (Done a) (fun _ key _ _ hkey => hdone a List.mem_cons_self ?_) hdone₁
        have hne : key ≠ keyOf a := ne_of_mem_of_not_mem hkey hnew
        exact List.mem_filter.mpr ⟨List.mem_cons_of_mem _ hkey, by simpa using hne⟩
      refine ⟨w₂, ?_, fun P hP hPw => hstable P (hlater hP) (hP List.mem_cons_self hbinds hPw),
        List.forall_mem_cons.mpr ⟨hlast, hdones⟩⟩
      rw [List.length_cons, repeatedly, List.flatMap_cons, List.append_assoc,
        Reading.outcome_bind_ok hread, hreads, List.length_append, Nat.add_assoc]

end

/-! ## Storages -/

namespace WrittenStorage

variable (s : WrittenStorage)

/-- The key stands for the storage. -/
def Stands (w : Workspace Table) : Prop :=
  ∃ id, w.table.get? (.str s.key.text) = some (.ref id) ∧
    w.machine.heap.get? id = some (.storage s.object)

theorem stable_stands {keys : List String} (hkeys : s.key.text ∉ keys) : Stable keys s.Stands := by
  rintro w key id w' hkey hbinds ⟨own, hown, hobject⟩
  have hne : key ≠ s.key.text := ne_of_mem_of_not_mem hkey hkeys
  exact ⟨own, (hbinds.get?_of_ne hne).trans hown, hbinds.heap hobject⟩

theorem outcome_load_record (version : Option UInt8) (start : Nat) (rest : Bytes)
    (w : Workspace Table) :
    load.outcome ⟨start, pickled version s.record ++ rest⟩ w =
      ((.ok (.ref w.machine.heap.size), ⟨start + (pickled version s.record).length, rest⟩),
        withHeap w (w.machine.heap.push (.list [.str s.key.text, .str s.location.text,
          .str (s.type.package ++ "." ++ s.type.name)]))) := by
  have hglobal : Pushes refuse w w.machine.heap (encodeGlobal s.type.package s.type.name)
      [.str (s.type.package ++ "." ++ s.type.name)] := fun _ _ _ =>
    passes_global refuse w s.type.oneLine_package s.type.oneLine_name _ _
  exact outcome_loadWith_tuple (((pushes_text s.key).append (pushes_text s.location)).append hglobal)
    version start rest

theorem outcome_readStorage (version : Option UInt8) (start : Nat) (rest : Bytes)
    (hw : Heap.standard.Extends w.machine.heap) : ∃ id w',
      readStorage.outcome ⟨start, s.encode version ++ rest⟩ w =
        ((.ok (), ⟨start + (s.encode version).length, rest⟩), w') ∧
      Binds w s.key.text id w' ∧ s.Stands w' := by
  let h := w.machine.heap
  let h₁ := h.push (.list [.str s.key.text, .str s.location.text,
    .str (s.type.package ++ "." ++ s.type.name)])
  let h₂ := h₁.push (.storage s.declared)
  let h₃ := h₂.modify h₁.size (onStorage (·.fill s.data))
  have hdeclared : h₂.get? h₁.size = some (.storage s.declared) := Heap.get?_push_size _ _
  have hfilled : h₂.Updates h₁.size (.storage s.object) h₃ := s.updates_fill h₁
  have hextends : h.Extends h₃ :=
    ((Heap.extends_push _ _).trans (Heap.extends_push _ _)).updates
      (by simp [h₁, Heap.size_push]) hfilled
  refine ⟨h₁.size, { withHeap w h₃ with table := w.table.insert (.str s.key.text) (.ref h₁.size) }, ?_,
    ⟨hextends, rfl⟩, h₁.size, OrderedMap.get?_insert_self _ _ _, hfilled.get?_self⟩
  have hitems : h₁.items? (.ref h.size) = some [.str s.key.text, .str s.location.text,
      .str (s.type.package ++ "." ++ s.type.name)] := by
    simp [Heap.items?, Heap.object?, Value.ref?, h₁]
  have hcount : elementCount (Int64.ofNat s.count) = .ok s.count := by
    have hsize : sizeOfInt64? (Int64.ofNat s.count) = some s.count := Value.size?_ofSize s.count_lt
    rw [elementCount, hsize]
  have hmake : (newStorage (.str (s.type.package ++ "." ++ s.type.name)) s.count).outcome
      (withHeap w h₁) = (.ok (.ref h₁.size), withHeap w h₂) :=
    s.outcome_newStorage (w := withHeap w h₁) (hw.trans (Heap.extends_push _ _))
  have hlength : (storageLength (.ref h₁.size)).outcome (withHeap w h₂) =
      (.ok s.data.length, withHeap w h₂) :=
    outcome_storageLength (w := withHeap w h₂) hdeclared s.byteLength?_declared
  unfold readStorage encode
  rw [List.append_assoc, Reading.outcome_bind_ok (s.outcome_load_record version _ _ w),
    Reading.outcome_bind_ok (outcome_act_of (outcome_items hitems) _), List.append_assoc]
  dsimp only
  rw [Reading.outcome_bind_ok (outcome_word _ _ _ _), hcount,
    Reading.outcome_bind_ok (Reading.outcome_ofExcept_ok _ _ _),
    Reading.outcome_bind_ok (outcome_act_of hmake _), Reading.outcome_bind_ok (outcome_act_of hlength _),
    Reading.outcome_bind_ok (outcome_bytes_append _ _ _ _ rfl)]
  have hbind : (fillStorage (.ref h₁.size) s.data >>= fun _ =>
      bindKey (.str s.key.text) (.ref h₁.size)).outcome (withHeap w h₂) = (.ok (), _) := rfl
  rw [outcome_act_of hbind, List.length_append, List.length_append, length_bytesOfInt, Nat.add_assoc,
    Nat.add_assoc]
  rfl

end WrittenStorage

/-! ## Tensors -/

theorem outcome_readWords (words : List Int64) (start : Nat) (rest : Bytes) (w : Workspace Table) :
    (readWords words.length).outcome ⟨start, encodeWords words ++ rest⟩ w =
      ((.ok (words.map .int), ⟨start + (encodeWords words).length, rest⟩), w) := by
  induction words generalizing start with
  | nil => rfl
  | cons word words ih =>
      have hencode : encodeWords (word :: words) = bytesOfInt 8 word.toInt ++ encodeWords words := rfl
      rw [hencode, List.append_assoc, List.length_cons, readWords,
        Reading.outcome_bind_ok (outcome_word _ _ _ _), Reading.outcome_bind_ok (ih _),
        List.length_append, length_bytesOfInt, Nat.add_assoc]
      rfl

namespace WrittenTensor

variable (t : WrittenTensor)

/-- A new instance is laid out by the list of its parts, which are on the heap after it. -/
theorem laid_state (type : StorageClass) (h : Heap) {i : Instance} (storage : Nat)
    (state : List Value) (hmodule : i.module = type.package) (hname : i.name = type.tensorName)
    (hfields : i.fields = {}) :
    let h₁ := h.push (.instance i)
    let h₂ := h₁.push (.list (t.shape.map .int))
    let h₃ := h₂.push (.list (t.stride.map .int))
    let h₄ := (h₃.push (.list state)).setAttributes (.ref h.size) [("storage", .ref storage),
      ("storage_offset", .int t.offset), ("size", .ref h₁.size), ("stride", .ref h₂.size)]
    h.Extends h₄ ∧ t.Laid type storage h.size h₄ := by
  intro h₁ h₂ h₃ h₄
  have hlast : h₂.Extends (h₃.push (.list state)) :=
    (Heap.extends_push _ _).trans (Heap.extends_push _ _)
  have hpushes : h₁.Extends (h₃.push (.list state)) := (Heap.extends_push _ _).trans hlast
  have hid := hpushes (Heap.get?_push_size h (.instance i))
  have hset := Heap.updates_setAttributes [("storage", .ref storage),
    ("storage_offset", .int t.offset), ("size", .ref h₁.size), ("stride", .ref h₂.size)] hid
  exact ⟨((Heap.extends_push _ _).trans hpushes).updates (Nat.le_refl _) hset,
    TensorLayout.laid_setAttributes hid hmodule hname hfields
      (hlast (Heap.get?_push_size h₁ _)) (Heap.extends_push _ _ (Heap.get?_push_size h₂ _)) []
      (by decide)⟩

theorem outcome_newTensor {s : WrittenStorage} {storage : Nat} (storageKey : Value)
    (hw : Heap.standard.Extends w.machine.heap)
    (hstorage : w.machine.heap.get? storage = some (.storage s.object)) : ∃ h,
      (newTensor storageKey (.ref storage) (t.shape.map .int) (t.stride.map .int) t.offset).outcome w =
        (.ok (.ref w.machine.heap.size), withHeap w h) ∧
      w.machine.heap.Extends h ∧ t.Laid s.type storage w.machine.heap.size h := by
  have hclass : w.machine.heap.NamesClass s.type.package s.type.tensorName (.native .tensor) :=
    s.type.namesClass_tensorName.extends hw
  obtain ⟨id, c, hid, hkind, hinvoke⟩ := Exec.exists_outcome_invoke_tensor hclass
  let h := w.machine.heap
  let i : Instance := { module := s.type.package, name := s.type.tensorName, class? := some id }
  let h₁ := h.push (.instance i)
  let h₂ := h₁.push (.list (t.shape.map .int))
  let h₃ := h₂.push (.list (t.stride.map .int))
  let state : List Value := [.ref storage, .int t.offset, .ref h₁.size, .ref h₂.size]
  let h₄ := h₃.push (.list state)
  have hpushes : h₁.Extends h₄ :=
    ((Heap.extends_push _ _).trans (Heap.extends_push _ _)).trans (Heap.extends_push _ _)
  have hclass' : h₄.class? (.ref id) = some c := by
    have hid' := hpushes (Heap.extends_push _ _ hid)
    simp [Heap.class?, Heap.object?, Value.ref?, hid']
  have hstate : h₄.items? (.ref h₃.size) = some state := by
    simp [Heap.items?, Heap.object?, Value.ref?, h₄]
  have hset := Exec.outcome_setState_tensor (m := w.machine.withHeap h₄)
    (hpushes (Heap.get?_push_size h (.instance i))) hclass' hkind hstate
  refine ⟨_, ?_, t.laid_state s.type h (i := i) storage state rfl rfl rfl⟩
  have hfound : w.machine.heap.storage? (.ref storage) = some s.object :=
    Heap.storage?_eq_some_iff.mpr ⟨storage, rfl, hstorage⟩
  have hmodule : s.object.module = s.type.package := rfl
  have hname : s.object.tensorName = s.type.tensorName := s.type.tensorName_eq _
  unfold newTensor
  rw [outcome_bind_ok (outcome_heap w), hfound]
  simp only [hmodule, hname]
  rw [outcome_bind_ok (outcome_exec_ok hinvoke),
    outcome_bind_ok (outcome_list _ w h₁), outcome_bind_ok (outcome_list _ w h₂),
    outcome_bind_ok (outcome_list _ w h₃), outcome_bind_ok (outcome_exec_ok (w := withHeap w h₄) hset)]
  rfl

/-- The key stands for the tensor, and that of its storage for the storage. -/
def Stands (s : WrittenStorage) (w : Workspace Table) : Prop :=
  ∃ storage id, w.table.get? (.str s.key.text) = some (.ref storage) ∧
    w.table.get? (.str t.key.text) = some (.ref id) ∧ t.Laid s.type storage id w.machine.heap

theorem stable_stands {s : WrittenStorage} {keys : List String} (hkeys : t.key.text ∉ keys)
    (hstorage : s.key.text ∉ keys) : Stable keys (t.Stands s) := by
  rintro w key id w' hkey hbinds ⟨storage, own, hs, hown, hlaid⟩
  have hne : key ≠ t.key.text := ne_of_mem_of_not_mem hkey hkeys
  have hne' : key ≠ s.key.text := ne_of_mem_of_not_mem hkey hstorage
  exact ⟨storage, own, (hbinds.get?_of_ne hne').trans hs, (hbinds.get?_of_ne hne).trans hown,
    hlaid.extends hbinds.heap⟩

theorem outcome_load_record (version : Option UInt8) (start : Nat) (rest : Bytes)
    (w : Workspace Table) :
    load.outcome ⟨start, pickled version t.record ++ rest⟩ w =
      ((.ok (.ref w.machine.heap.size), ⟨start + (pickled version t.record).length, rest⟩),
        withHeap w (w.machine.heap.push (.list [.str t.key.text, .str t.storageKey.text]))) :=
  outcome_loadWith_tuple ((pushes_text t.key).append (pushes_text t.storageKey)) version start rest

theorem outcome_readTensor {s : WrittenStorage} (version : Option UInt8) (start : Nat) (rest : Bytes)
    (hw : Heap.standard.Extends w.machine.heap) (hs : s.Stands w)
    (hkey : t.storageKey.text = s.key.text) (hne : t.key.text ≠ s.key.text) : ∃ id w',
      readTensor.outcome ⟨start, t.encode version ++ rest⟩ w =
        ((.ok (), ⟨start + (t.encode version).length, rest⟩), w') ∧
      Binds w t.key.text id w' ∧ t.Stands s w' := by
  obtain ⟨storage, hstorage, hobject⟩ := hs
  let h := w.machine.heap
  let h₁ := h.push (.list [.str t.key.text, .str t.storageKey.text])
  have hpush : h.Extends h₁ := Heap.extends_push _ _
  obtain ⟨h₂, hmake, hextends, hlaid⟩ := t.outcome_newTensor (w := withHeap w h₁)
    (.str t.storageKey.text) (hw.trans hpush) (hpush hobject)
  let w' : Workspace Table :=
    { withHeap w h₂ with table := w.table.insert (.str t.key.text) (.ref h₁.size) }
  have hbinds : Binds w t.key.text h₁.size w' := ⟨hpush.trans hextends, rfl⟩
  refine ⟨h₁.size, w', ?_, hbinds, storage, h₁.size, (hbinds.get?_of_ne hne).trans hstorage,
    hbinds.get?_self, hlaid⟩
  have hitems : h₁.items? (.ref h.size) = some [.str t.key.text, .str t.storageKey.text] := by
    simp [Heap.items?, Heap.object?, Value.ref?, h₁]
  have hfound : w.table.get? (.ofValue (.str t.storageKey.text)) = some (.ref storage) := by
    rw [hkey]
    exact hstorage
  have hshort := t.short
  have hrank : (Int64.ofNat t.shape.length).toInt = t.shape.length :=
    Int64.toInt_ofNat_of_lt (by omega)
  have hsize : sizeOfInt64? (Int64.ofNat t.shape.length) = some t.shape.length :=
    Value.size?_ofSize (by omega)
  unfold readTensor encode
  rw [List.append_assoc, Reading.outcome_bind_ok (t.outcome_load_record version _ _ w),
    Reading.outcome_bind_ok (outcome_act_of (outcome_items hitems) _), List.append_assoc]
  dsimp only
  rw [Reading.outcome_bind_ok (outcome_act_of (Restore.outcome_get _) _)]
  simp only [table_withHeap, hfound]
  have hfour : twoPow (8 * 4) = 0x100000000 := rfl
  rw [Reading.outcome_bind_ok (outcome_signed _ (by omega) (by omega) _ _)]
  simp only [hsize]
  have hpadding : ([0, 0, 0, 0] : Bytes).length = 4 := rfl
  rw [List.append_assoc, Reading.outcome_bind_ok (outcome_bytes_append _ _ _ _ hpadding),
    List.append_assoc, Reading.outcome_bind_ok (outcome_readWords _ _ _ _), List.append_assoc,
    ← t.length_eq, Reading.outcome_bind_ok (outcome_readWords _ _ _ _),
    Reading.outcome_bind_ok (outcome_word _ _ _ _)]
  have hbind : (newTensor (.str t.storageKey.text) (.ref storage) (t.shape.map .int)
      (t.stride.map .int) t.offset >>= fun made => bindKey (.str t.key.text) made).outcome
        (withHeap w h₁) = (.ok (), w') := outcome_bind_ok hmake _
  rw [outcome_act_of hbind]
  simp only [List.length_append, length_bytesOfInt, hpadding, Nat.add_assoc]

end WrittenTensor

end TarLayout

end ModelGraph
