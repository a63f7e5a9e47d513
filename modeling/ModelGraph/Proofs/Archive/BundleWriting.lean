import Mathlib.Data.String.Basic
import ModelGraph.Archive.Bundle
import ModelGraph.Proofs.Archive.Saved

/-!
# Writing bundles

A bundle without code as it is written: an entry for the bytes of each storage, and a pickled dictionary
from names to tensors, each of which is rebuilt over a reference to its storage. The pickle is the first
entry in the order of names, and the source's main one.
-/

namespace ModelGraph

/-! ## Entries by name -/

namespace Source

theorem lookup_cons_eq_ite (e : String × Bytes) (entries : List (String × Bytes)) (name : String) :
    (e :: entries).lookup name = if name = e.1 then some e.2 else entries.lookup name := by
  obtain ⟨first, data⟩ := e
  by_cases h : name = first
  · simp [h]
  · simp [List.lookup_cons, h, beq_false_of_ne h]

theorem lookup_insertEntry (name other : String) (data : Bytes) (entries : List (String × Bytes)) :
    (insertEntry name data entries).lookup other =
      if other = name then some data else entries.lookup other := by
  induction entries with
  | nil => exact lookup_cons_eq_ite (name, data) [] other
  | cons e entries ih =>
      unfold insertEntry
      by_cases hlt : name < e.1
      · rw [if_pos hlt, lookup_cons_eq_ite]
      · by_cases heq : name = e.1
        · rw [if_neg hlt, if_pos heq, lookup_cons_eq_ite, lookup_cons_eq_ite e, heq]
          grind
        · rw [if_neg hlt, if_neg heq, lookup_cons_eq_ite, lookup_cons_eq_ite e, ih]
          grind

theorem mem_insertEntry {name : String} {data : Bytes} {entries : List (String × Bytes)}
    {e : String × Bytes} (h : e ∈ insertEntry name data entries) : e = (name, data) ∨ e ∈ entries := by
  induction entries with
  | nil => simpa [insertEntry] using h
  | cons first entries ih =>
      unfold insertEntry at h
      split_ifs at h
      · simpa using h
      · rcases List.mem_cons.mp h with h | h
        · exact .inl h
        · exact .inr (List.mem_cons_of_mem _ h)
      · rcases List.mem_cons.mp h with h | h
        · exact .inr (h ▸ List.mem_cons_self)
        · exact (ih h).imp_right (List.mem_cons_of_mem _)

/-- The source with more entries, the later ones in place of earlier ones of the same name. -/
def insertAll (s : Source) (entries : List (String × Bytes)) : Source :=
  entries.foldl (fun s e => s.insert e.1 e.2) s

theorem entry?_insert (s : Source) (name other : String) (data : Bytes) :
    Source.entry? (s.insert name data) other = if other = name then some data else s.entry? other :=
  lookup_insertEntry name other data s.entries

variable {entries : List (String × Bytes)} {name : String} {data : Bytes}

theorem entry?_insertAll_of_notMem (s : Source) (h : name ∉ entries.map (·.1)) :
    Source.entry? (s.insertAll entries) name = s.entry? name := by
  induction entries generalizing s with
  | nil => rfl
  | cons e entries ih =>
      rw [List.map_cons, List.mem_cons, not_or] at h
      exact (ih (s.insert e.1 e.2) h.2).trans (by rw [entry?_insert, if_neg h.1])

theorem entry?_insertAll_of_mem (s : Source) (hnames : (entries.map (·.1)).Nodup)
    (h : (name, data) ∈ entries) : Source.entry? (s.insertAll entries) name = some data := by
  induction entries generalizing s with
  | nil => cases h
  | cons e entries ih =>
      obtain ⟨hnew, hnames⟩ := List.nodup_cons.mp hnames
      rcases List.mem_cons.mp h with rfl | h
      · exact (entry?_insertAll_of_notMem (s.insert name data) hnew).trans
          (by rw [entry?_insert, if_pos rfl])
      · exact ih (s.insert e.1 e.2) hnames h

theorem mem_entries_insertAll {s : Source} {e : String × Bytes} (h : e ∈ (s.insertAll entries).entries) :
    e ∈ s.entries ∨ e ∈ entries := by
  induction entries generalizing s with
  | nil => exact .inl h
  | cons first entries ih =>
      rcases ih (s := s.insert first.1 first.2) h with h | h
      · rcases mem_insertEntry h with rfl | h
        · exact .inr List.mem_cons_self
        · exact .inl h
      · exact .inr (List.mem_cons_of_mem _ h)

/-- An entry whose name comes before all others stays in front. -/
theorem exists_entries_insertAll {s : Source} {first : String × Bytes}
    {rest : List (String × Bytes)} (hs : s.entries = first :: rest)
    (h : ∀ e ∈ entries, first.1 < e.1) : ∃ rest', (s.insertAll entries).entries = first :: rest' := by
  induction entries generalizing s rest with
  | nil => exact ⟨rest, hs⟩
  | cons e entries ih =>
      obtain ⟨he, hrest⟩ := List.forall_mem_cons.mp h
      have hinsert : (s.insert e.1 e.2).entries = first :: insertEntry e.1 e.2 rest := by
        have hentries : (s.insert e.1 e.2).entries = insertEntry e.1 e.2 s.entries := rfl
        have hne : e.1 ≠ first.1 := fun heq => String.lt_irrefl _ (heq ▸ he)
        rw [hentries, hs, insertEntry, if_neg (String.lt_asymm he), if_neg hne]
      exact ih hinsert hrest

end Source

namespace Bundle

open Pickle

/-- A tensor over a storage, under a name. -/
structure WrittenTensor extends FlatName, TensorLayout where
  storage : SavedStorage
  short : (Text.utf8 toFlatName.text).length < 0x100000000

namespace WrittenTensor

variable (t : WrittenTensor)

/-- The name as it stands in the dictionary. -/
def name : ShortText := ⟨t.text, t.short⟩

end WrittenTensor

/-- A bundle below a directory whose name is empty or ends in a slash. -/
structure Written where
  directory : String
  /-- The version of the pickle's protocol, if it names it. -/
  version : Option UInt8
  storages : List SavedStorage
  tensors : List WrittenTensor
  directory_eq : directory = "" ∨ ∃ name, directory = name ++ "/"
  keys_nodup : (storages.map (·.key.text)).Nodup
  storage_mem : ∀ t ∈ tensors, t.storage ∈ storages
  names_nodup : (tensors.map (·.text)).Nodup
  two_le_length : 2 ≤ tensors.length

/-! ## The pickle -/

def encodeTuple (items : Bytes) : Bytes := [0x28] ++ items ++ [0x74]

/-- What stands in a reference to a storage before its class, and after its key. -/
def storageKind : ShortText := ⟨"storage", by decide +kernel⟩

def storageLocation : ShortText := ⟨"cpu", by decide +kernel⟩

/-- A reference to a storage. -/
def encodeReference (s : SavedStorage) : Bytes :=
  encodeTuple (encodeText storageKind ++ (encodeGlobal s.type.package s.type.name ++
    (encodeText s.key ++ (encodeText storageLocation ++ encodeInt (Int64.ofNat s.count))))) ++ [0x51]

def encodeInts (ints : List Int64) : Bytes := encodeTuple (ints.flatMap encodeInt)

namespace WrittenTensor

variable (t : WrittenTensor)

/-- What the tensor is rebuilt from: its storage and layout, no gradient and no hooks. -/
def encodeArguments : Bytes :=
  encodeReference t.storage ++ (encodeInt t.offset ++ (encodeInts t.shape ++
    (encodeInts t.stride ++ ([0x89] ++ [0x4e]))))

/-- A name, and the call that rebuilds its tensor. -/
def encode : Bytes :=
  encodeText t.name ++ (encodeGlobal "torch._utils" "_rebuild_tensor_v2" ++
    encodeTuple t.encodeArguments ++ [0x52])

end WrittenTensor

namespace Written

variable (a : Written)

def dictionary : Bytes :=
  pickled a.version ([0x7d] ++ [0x28] ++ a.tensors.flatMap (·.encode) ++ [0x75])

/-! ## The entries -/

def storageEntries : List (String × Bytes) :=
  a.storages.map fun s => (a.directory ++ "data/" ++ s.key.text, s.data)

def source : Source :=
  .ofEntries ((a.directory ++ "data.pkl", a.dictionary) :: a.storageEntries)

theorem mainName_lt {e : String × Bytes} (he : e ∈ a.storageEntries) :
    a.directory ++ "data.pkl" < e.1 := by
  obtain ⟨s, -, rfl⟩ := List.mem_map.mp he
  rw [String.lt_iff_toList_lt, String.append_assoc]
  simp only [String.toList_append]
  refine List.append_left_lt ?_
  change "data".toList ++ _ < "data".toList ++ _
  exact List.append_left_lt (List.Lex.rel (by decide))

theorem names_source_nodup :
    (((a.directory ++ "data.pkl", a.dictionary) :: a.storageEntries).map (·.1)).Nodup := by
  refine List.nodup_cons.mpr ⟨fun hmem => ?_, ?_⟩
  · obtain ⟨e, he, heq⟩ := List.mem_map.mp hmem
    exact String.lt_irrefl _ (heq ▸ a.mainName_lt he)
  · have hkeys := a.keys_nodup.map
      (f := fun key => a.directory ++ "data/" ++ key) fun _ _ => String.append_right_inj _ |>.mp
    rw [storageEntries, List.map_map]
    rwa [List.map_map] at hkeys

theorem entry?_main : a.source.entry? (a.directory ++ "data.pkl") = some a.dictionary :=
  Source.entry?_insertAll_of_mem {} a.names_source_nodup List.mem_cons_self

variable {a} in
theorem entry_storage {s : SavedStorage} (hs : s ∈ a.storages) :
    a.source.entry (a.directory ++ "data/" ++ s.key.text) = .ok s.data := by
  have hmem : (a.directory ++ "data/" ++ s.key.text, s.data) ∈ a.storageEntries :=
    List.mem_map.mpr ⟨s, hs, rfl⟩
  have hfound : a.source.entry? (a.directory ++ "data/" ++ s.key.text) = some s.data :=
    Source.entry?_insertAll_of_mem {} a.names_source_nodup (List.mem_cons_of_mem _ hmem)
  rw [Source.entry, hfound]

/-- All names go on from the directory in one way. -/
theorem exists_of_mem_source {e : String × Bytes} (he : e ∈ a.source.entries) :
    ∃ rest, e.1.toList = a.directory.toList ++ ("data".toList ++ rest) := by
  rcases Source.mem_entries_insertAll (s := {}) he with he | he
  · cases he
  · rcases List.mem_cons.mp he with rfl | he
    · exact ⟨".pkl".toList, by rw [String.toList_append]; rfl⟩
    · obtain ⟨s, -, rfl⟩ := List.mem_map.mp he
      exact ⟨'/' :: s.key.text.toList, by simp⟩

theorem entry?_eq_none {name : String} (hname : ¬"data".toList <+: name.toList) :
    a.source.entry? (a.directory ++ name) = none := by
  refine List.lookup_eq_none_iff.mpr fun e he => ?_
  obtain ⟨rest, hrest⟩ := a.exists_of_mem_source he
  have hne : a.directory ++ name ≠ e.1 := fun heq => hname ⟨rest, by
    rw [← heq, String.toList_append] at hrest
    exact (List.append_cancel_left hrest).symm⟩
  simpa using hne

theorem codeFiles_source : codeFiles a.source a.directory = [] := by
  refine List.filterMap_eq_nil_iff.mpr fun e he => ?_
  obtain ⟨rest, hrest⟩ := a.exists_of_mem_source he
  have hapart : ¬(a.directory ++ "code/").toList <+: e.1.toList := by
    rw [hrest, String.toList_append, List.prefix_append_right_inj]
    rintro ⟨_, heq⟩
    cases heq
  have hafter : afterDirectory? (a.directory ++ "code/") e.1 = none :=
    if_neg fun h => hapart (List.isPrefixOf_iff_prefix.mp h)
  simp [hafter]

theorem isMainEntry_main : Source.isMainEntry (a.directory ++ "data.pkl") := by
  rcases a.directory_eq with heq | ⟨name, heq⟩
  · simp [Source.isMainEntry, heq]
  · have hends : (name ++ "/" ++ "data.pkl").endsWith "/data.pkl" := by
      rw [← String.endsWith_toSlice, String.Slice.endsWith_string_iff]
      simp
    simp [Source.isMainEntry, heq, hends]

theorem directory_main : Source.directory (a.directory ++ "data.pkl") = a.directory := by
  rcases a.directory_eq with heq | ⟨name, heq⟩
  · rw [heq]
    rfl
  · have hall : ∀ c ∈ "data.pkl".toList.reverse, (c != '/') = true := List.all_eq_true.mp rfl
    rw [Source.directory, String.toList_append, List.reverse_append, List.dropWhile_append_of_pos hall,
      heq]
    simp

/-- The source is a bundle below the directory. -/
theorem layout_source : a.source.layout = .ok (.bundle a.directory) := by
  obtain ⟨rest, hrest⟩ := Source.exists_entries_insertAll
    (s := ({} : Source).insert (a.directory ++ "data.pkl") a.dictionary) rfl fun _ => a.mainName_lt
  have hentries : a.source.entries = (a.directory ++ "data.pkl", a.dictionary) :: rest := hrest
  rw [Source.layout, hentries, List.find?_cons, a.isMainEntry_main]
  exact congrArg (fun name => Except.ok (Layout.bundle name)) a.directory_main

end Written

end Bundle

end ModelGraph
