import ModelGraph.Proofs.Archive.Filling
import ModelGraph.Proofs.Machine.Standard
import ModelGraph.Proofs.Pickle.ObjectGraph

/-!
# Loads of single streams

A load of a stream gives each storage of a reference the bytes that follow for its key, and each view
the part of its root that it asks for.
-/

namespace ModelGraph.StreamLayout

open Restore Pickle

/-! ## What is delivered -/

/-- The bytes that follow for a key, if it is listed. -/
def Table.given (t : Table) (h : Heap) (texts : List String) (data : Bytes) :
    String → Option Bytes :=
  lastOf (texts.zip (cut (texts.map (t.length h)) data))

/-- Each storage shows the bytes that follow for its key, and each view its part of its root. -/
structure Delivered (t : Table) (texts : List String) (data : Bytes) (h : Heap) : Prop where
  enough : (texts.map fun text => 8 + t.length h text).sum ≤ data.length
  root : ∀ {key v}, t.storages.get? key = some v → ∃ s, t.root? h key = some s ∧
    s.storage.Whole ∧ s.storage.bytes? = t.given h texts data key
  view : ∀ p ∈ t.pending, ∃ view root, h.storage? p.view = some view ∧
    t.root? h p.rootKey = some root ∧ view.storage = root.storage.view p.offset view.storage.size

variable {t : Table} {h h₁ h₂ : Heap} {texts : List String} {data : Bytes}

theorem fst_zip_cut (lengths : String → Nat) (texts : List String) (data : Bytes) :
    (texts.zip (cut (texts.map lengths) data)).map (·.1) = texts :=
  List.map_fst_zip (by simp)

theorem isSome_given (key : String) : (t.given h texts data key).isSome ↔ key ∈ texts := by
  rw [Table.given, isSome_lastOf, fst_zip_cut]

/-- Chunks have the lengths that their keys declare. -/
theorem length_of_mem_zip_cut {lengths : String → Nat}
    (henough : (texts.map fun text => 8 + lengths text).sum ≤ data.length) {key : String}
    {chunk : Bytes} (hmem : (key, chunk) ∈ texts.zip (cut (texts.map lengths) data)) :
    key ∈ texts ∧ chunk.length = lengths key := by
  obtain ⟨i, hi⟩ := List.mem_iff_getElem?.mp hmem
  obtain ⟨hkey, hchunk⟩ := List.getElem?_zip_eq_some.mp hi
  have hcut : ((texts.map lengths).map (8 + ·)).sum ≤ data.length := by rwa [List.map_map]
  have hlengths := congrArg (·[i]?) (map_length_cut hcut)
  simp only [List.getElem?_map, hkey, hchunk, Option.map_some, Option.some.injEq] at hlengths
  exact ⟨List.mem_of_getElem? hkey, hlengths⟩

theorem Delivered.length_of_given (hd : Delivered t texts data h) {key : String} {chunk : Bytes}
    (hchunk : t.given h texts data key = some chunk) : chunk.length = t.length h key :=
  (length_of_mem_zip_cut hd.enough (mem_of_lastOf hchunk)).2

theorem Table.Sound.apart (ht : t.Sound h) {p : PendingView} (hp : p ∈ t.pending) (key : String) :
    t.storages.get? key ≠ some p.view := fun hkey =>
  (List.nodup_append.mp ht.distinct).2.2 _ (OrderedMap.mem_values_of_get? hkey) _
    (List.mem_map_of_mem hp) rfl

theorem Table.Sound.waiting (ht : t.Sound h) {given : String → Option Bytes}
    (hfilled : Filled t given h h₁) : Waiting t h₁ t.pending where
  stored := hfilled.stored ht.stored
  view p hp := by
    obtain ⟨id, s, hid, hs, -⟩ := ht.declared _ (List.mem_append_right _ (List.mem_map_of_mem hp))
    have hkeys (key : String) : t.storages.get? key ≠ some (.ref id) := hid ▸ ht.apart hp key
    exact ⟨id, s, hid, (hfilled.other hkeys).trans hs⟩
  root := ht.root
  distinct := (List.nodup_append.mp ht.distinct).2.1
  apart _ := ht.apart

/-- A root is whole once the chunks are dealt. -/
theorem Dealt.root {keys : List Value} (ht : t.Sound h) (hdealt : Dealt t keys data h texts h₁)
    {key : String} {v : Value} (hkey : t.storages.get? key = some v) :
    ∃ s, t.root? h₁ key = some s ∧ s.storage.Whole ∧ s.storage.data = t.given h texts data key ∧
      t.length h₁ key = t.length h key := by
  obtain ⟨id, s, rfl, hid, hnew⟩ := ht.declared v
    (List.mem_append_left _ (OrderedMap.mem_values_of_get? hkey))
  have hroot := root?_eq_some hkey (hdealt.filled.storage hkey hid)
  refine ⟨_, hroot, Storage.whole_refill hnew fun {chunk} hchunk => ?_, ?_,
    hdealt.filled.length_eq ht.stored key⟩
  · obtain ⟨hmem, hlength⟩ := length_of_mem_zip_cut hdealt.enough (mem_of_lastOf hchunk)
    rw [length_of_get? hkey hid] at hlength
    exact ⟨hlength, by rw [hlength, ← length_of_get? hkey hid]; exact hdealt.bounded key hmem⟩
  · change (s.storage.refill (t.given h texts data key)).data = _
    rw [show s.storage = _ from hnew]
    cases t.given h texts data key <;> rfl

theorem Viewed.root?_eq (ht : t.Sound h) (hviewed : Viewed t t.pending h₁ h₂)
    (hstored : t.Stored h₁) (key : String) : t.root? h₂ key = t.root? h₁ key := by
  cases hkey : t.storages.get? key with
  | none => simp [Table.root?, hkey]
  | some v =>
      obtain ⟨id, s, rfl, hid⟩ := hstored key v hkey
      have hsame := hviewed.other fun p hp heq => ht.apart hp key (hkey.trans (congrArg some heq.symm))
      rw [root?_eq_some hkey hid, root?_eq_some hkey (hsame.trans hid)]

theorem delivered {keys : List Value} (ht : t.Sound h) (hdealt : Dealt t keys data h texts h₁)
    (hviewed : Viewed t t.pending h₁ h₂) : Delivered t texts data h₂ := by
  have hstored := hdealt.filled.stored ht.stored
  have hroot := hviewed.root?_eq ht hstored
  have hlength : t.length h₂ = t.length h := funext fun key => by
    rw [← hdealt.filled.length_eq ht.stored key]
    rw [Table.length, Table.length, hroot key]
  have hgiven : t.given h₂ texts data = t.given h texts data := by
    rw [Table.given, Table.given, hlength]
  refine ⟨hlength ▸ hdealt.enough, fun {key v} hkey => ?_, fun p hp => ?_⟩
  · obtain ⟨s, hs, hwhole, hdata, -⟩ := hdealt.root ht hkey
    exact ⟨s, (hroot key).trans hs, hwhole, by rw [hwhole.bytes?_eq, hdata, hgiven]⟩
  · obtain ⟨v, hv⟩ := ht.root p hp
    obtain ⟨root, hs, -⟩ := hdealt.root ht hv
    obtain ⟨id, view, hid, hview⟩ := (ht.waiting hdealt.filled).view p hp
    have hplaced := hviewed.view p hp hid hview hs
    exact ⟨_, root, Heap.storage?_eq_some_iff.mpr ⟨id, hid, hplaced⟩, (hroot _).trans hs, rfl⟩

/-! ## Whole loads -/

theorem deliver_ok {a : Announced} {loaded : Loaded} {c c' : Cursor} {w w' : Workspace Table}
    (ht : w.table.Sound w.machine.heap)
    (hdeliver : (deliver a).outcome c w = ((.ok loaded, c'), w')) :
    ∃ texts, a.keys.map Value.keyName? = texts.map some ∧
      (∀ text ∈ texts, ∃ v, w.table.storages.get? text = some v) ∧
      Delivered w.table texts c.rest w'.machine.heap := by
  have hdistinct := (List.nodup_append.mp ht.distinct).1
  obtain ⟨_, c₁, w₁, hdealing, hrest⟩ := Reading.exists_of_outcome_bind hdeliver
  obtain ⟨texts, h₁, hdealt, rfl⟩ :=
    readStorages_ok (w := w) (h := w.machine.heap) ht.stored hdistinct hdealing
  obtain ⟨_, _, hget, hviewing⟩ := exists_of_outcome_act hrest
  cases hget
  obtain ⟨h₂, hviewed, hviews⟩ := outcome_fillViews (w := w) (c := c₁) (ht.waiting hdealt.filled)
  have hfinishing := (Reading.outcome_bind_ok hviews _).symm.trans hviewing
  obtain ⟨_, _, hheap, hclassify⟩ := exists_of_outcome_act hfinishing
  cases hheap
  obtain ⟨content, -, hdone⟩ := exists_of_outcome_ofExcept hclassify
  cases hdone
  exact ⟨texts, hdealt.texts_eq, hdealt.known, delivered ht hdealt hviewed⟩

theorem read_ok {m m' : Machine} {s : Source} {loaded : Loaded}
    (h : Restore.on m {} (read s) = (.ok loaded, m')) :
    ∃ data c w', s.stream? = some data ∧ w'.machine = m' ∧
      readStream.outcome (.start data) ⟨m, {}⟩ = ((.ok loaded, c), w') := by
  have hread : ∃ w', (read s).outcome ⟨m, {}⟩ = (.ok loaded, w') ∧ w'.machine = m' := by
    obtain ⟨hloaded, hmachine⟩ := Prod.mk.inj h
    exact ⟨_, Prod.ext hloaded rfl, hmachine⟩
  obtain ⟨w', hread, hmachine⟩ := hread
  unfold read at hread
  split at hread
  · cases hread
  · next data hdata =>
      split_ifs at hread
      · rcases hstream : readStream.outcome (.start data) ⟨m, {}⟩ with ⟨⟨result, c⟩, w₁⟩
        have hresult := (congrArg (fun r => (r.1.1, r.2)) hstream).symm.trans hread
        cases hresult
        exact ⟨data, c, _, hdata, hmachine, hstream⟩
      · cases hread

/-- Notes do not change what the pickles of a stream give. -/
theorem outcome_readPickles {m : Machine} (hm : m.Codeless) {a : Announced} {c c' : Cursor}
    {w : Workspace Table} (h : (readPickles resolve).outcome c ⟨m, {}⟩ = ((.ok a, c'), w)) :
    ∃ v, (readPickles resolveNoting).outcome c ⟨m, {}⟩ = ((.ok a, c'), v) ∧ NotesAll w v := by
  have hstart : NotesAll ⟨m, {}⟩ ⟨m, {}⟩ :=
    { workspace_eq := rfl
      codeless := hm
      sound := Table.sound_empty m.heap
      holds := fun r hr => by cases hr
      records := fun p hp => by cases hp }
  obtain ⟨hsame, hnotes⟩ := agree_readPickles (c := c) hstart
  rw [h] at hsame hnotes
  exact ⟨_, Prod.ext hsame.symm rfl, hnotes a rfl⟩

/-- What the pickles of a source give: references to storages, which are noted, and the keys of the
storages whose bytes follow. -/
def Reads (m : Machine) (s : Source) (n : Noted) (texts : List String) (rest : Bytes) : Prop :=
  ∃ data a place m', s.stream? = some data ∧
    (readPickles resolve).outcome (.start data) ⟨m, {}⟩ = ((.ok a, ⟨place, rest⟩), ⟨m', n.table⟩) ∧
    (readPickles resolveNoting).outcome (.start data) ⟨m, {}⟩ = ((.ok a, ⟨place, rest⟩), ⟨m', n⟩) ∧
    a.keys.map Value.keyName? = texts.map some

/-- A load reads the pickles, and then gives each storage its bytes. -/
theorem exists_delivered {m m' : Machine} {s : Source} {loaded : Loaded} (hm : m.Codeless)
    (h : Restore.on m {} (read s) = (.ok loaded, m')) :
    ∃ v texts rest, Reads m s v.table texts rest ∧
      (∀ text ∈ texts, ∃ v', v.table.table.storages.get? text = some v') ∧
      NotesAll ⟨v.machine, v.table.table⟩ v ∧ Delivered v.table.table texts rest m'.heap := by
  obtain ⟨data, c', w', hdata, rfl, hread⟩ := read_ok h
  rw [readStream_eq] at hread
  obtain ⟨a, c, w, hpickles, hdeliver⟩ := Reading.exists_of_outcome_bind hread
  obtain ⟨v, hnoting, hnotes⟩ := outcome_readPickles hm hpickles
  obtain rfl := hnotes.workspace_eq
  obtain ⟨texts, htexts, hknown, hdelivered⟩ := deliver_ok hnotes.sound hdeliver
  exact ⟨v, texts, c.rest, ⟨data, a, c.offset, v.machine, hdata, hpickles, hnoting, htexts⟩, hknown,
    hnotes, hdelivered⟩

/-- The storages that references were resolved to have their own bytes. -/
structure OwnBytes (n : Noted) (texts : List String) (data : Bytes) (h : Heap) : Prop where
  /-- A reference without a view gives the storage of its root key. -/
  root : ∀ r ∈ n.resolutions, r.view? = none → n.table.storages.get? r.rootKey = some r.value
  root_eq_iff : ∀ r ∈ n.resolutions, ∀ r' ∈ n.resolutions, r.view? = none → r'.view? = none →
    (r.value = r'.value ↔ r.rootKey = r'.rootKey)
  view : ∀ r ∈ n.resolutions, r.view?.isSome → ∃ p ∈ n.table.pending, p.view = r.value
  view_eq : ∀ r ∈ n.resolutions, ∀ r' ∈ n.resolutions, ∀ {view view'}, r.view? = some view →
    r'.view? = some view' → view.key = view'.key → r.value = r'.value
  /-- A view was recorded as some reference asks. -/
  recorded : ∀ p ∈ n.table.pending, ∃ r ∈ n.resolutions, r.Records p
  /-- Each listed key's storage shows the chunk in the key's place. -/
  chunk : ∀ {i : Nat} {key}, texts[i]? = some key → ∃ s chunk, n.table.root? h key = some s ∧
    (cut (texts.map (n.table.length h)) data)[i]? = some chunk ∧ s.storage.bytes? = some chunk ∧
    chunk.length = s.storage.size * s.storage.elementType.width
  /-- Each view shows its elements of the root. -/
  part : ∀ p ∈ n.table.pending, ∃ view root, h.storage? p.view = some view ∧
    n.table.root? h p.rootKey = some root ∧ view.storage.bytes? = root.storage.bytes?.map fun bytes =>
      (bytes.drop (p.offset * root.storage.elementType.width)).take
        (view.storage.size * root.storage.elementType.width)

theorem Delivered.chunk (hd : Delivered t texts data h) (htexts : texts.Nodup)
    (hknown : ∀ text ∈ texts, ∃ v, t.storages.get? text = some v) {i : Nat} {key : String}
    (hkey : texts[i]? = some key) : ∃ s chunk, t.root? h key = some s ∧
      (cut (texts.map (t.length h)) data)[i]? = some chunk ∧ s.storage.bytes? = some chunk ∧
      chunk.length = s.storage.size * s.storage.elementType.width := by
  obtain ⟨v, hv⟩ := hknown key (List.mem_of_getElem? hkey)
  obtain ⟨s, hs, -, hbytes⟩ := hd.root hv
  obtain ⟨hi, -⟩ := List.getElem?_eq_some_iff.mp hkey
  have hchunk := List.getElem?_eq_getElem (l := cut (texts.map (t.length h)) data) (i := i) (by simpa)
  have hmem := List.mem_of_getElem? (List.getElem?_zip_eq_some (z := (key, _)).mpr ⟨hkey, hchunk⟩)
  have hgiven : t.given h texts data key = some _ :=
    lastOf_of_mem (by rwa [fst_zip_cut]) hmem
  refine ⟨s, _, hs, hchunk, hbytes.trans hgiven, ?_⟩
  rw [hd.length_of_given hgiven, length_of_root? hs]

/-- The root of a view is whole. -/
theorem Delivered.part (hd : Delivered t texts data h) (ht : t.Sound h₁) {p : PendingView}
    (hp : p ∈ t.pending) : ∃ view root, h.storage? p.view = some view ∧
      t.root? h p.rootKey = some root ∧ root.storage.Whole ∧
      root.storage.bytes? = t.given h texts data p.rootKey ∧
      view.storage = root.storage.view p.offset view.storage.size := by
  obtain ⟨view, root, hview, hroot, hsame⟩ := hd.view p hp
  obtain ⟨v, hv⟩ := ht.root p hp
  obtain ⟨s, hs, hwhole, hbytes⟩ := hd.root hv
  obtain rfl : root = s := Option.some.inj (hroot.symm.trans hs)
  exact ⟨view, root, hview, hroot, hwhole, hbytes, hsame⟩

theorem ownBytes {v : Workspace Noted} (hv : NotesAll ⟨v.machine, v.table.table⟩ v)
    (hd : Delivered v.table.table texts data h) (htexts : texts.Nodup)
    (hknown : ∀ text ∈ texts, ∃ v', v.table.table.storages.get? text = some v') :
    OwnBytes v.table texts data h where
  root r hr hview := Resolution.get?_storages (hv.holds r hr) hview
  root_eq_iff r hr r' hr' hview hview' := by
    have hr := Resolution.get?_storages (hv.holds r hr) hview
    have hr' := Resolution.get?_storages (hv.holds r' hr') hview'
    constructor
    · intro heq
      rw [← heq] at hr'
      exact OrderedMap.eq_of_get?_of_nodup_values (List.nodup_append.mp hv.sound.distinct).1 hr hr'
    · intro heq
      rw [← heq] at hr'
      exact Option.some.inj (hr.symm.trans hr')
  view r hr hview := by
    obtain ⟨view, hview⟩ := Option.isSome_iff_exists.mp hview
    exact hv.sound.view (Resolution.get?_views (hv.holds r hr) hview)
  view_eq r hr r' hr' {view view'} hview hview' hkey := by
    have hr := Resolution.get?_views (hv.holds r hr) hview
    have hr' := Resolution.get?_views (hv.holds r' hr') hview'
    rw [← hkey] at hr'
    exact Option.some.inj (hr.symm.trans hr')
  recorded p hp := (hv.records p hp).resolve_right id
  chunk := hd.chunk htexts hknown
  part p hp := by
    obtain ⟨view, root, hview, hroot, hwhole, -, hsame⟩ := hd.part hv.sound hp
    exact ⟨view, root, hview, hroot,
      (congrArg Storage.bytes? hsame).trans (hwhole.bytes?_view _ _)⟩

namespace Sample

/-- A machine that knows one class. -/
def machine : Machine :=
  { heap := (Heap.push {} (.namespace {})).registerNative ("torch.FloatStorage", .storage .float32) }

theorem codeless_machine : machine.Codeless where
  sources_eq := rfl
  tracer?_eq := rfl
  native {id f} hid := by
    have hroot : (Heap.push {} (.namespace {})).Native := by
      intro i g hi
      rw [Heap.get?_push] at hi
      split_ifs at hi <;> cases hi
    have hgrows := Heap.grows_register (Heap.push {} (.namespace {})) (.native (.storage .float32))
      "torch.FloatStorage" {}
    exact hroot.grows hgrows id f hid

def text (s : String) : Bytes := [0x58] ++ bytesOfNat 4 (Text.utf8 s).length ++ Text.utf8 s

/-- A reference to a storage of three elements, or to a view of it. -/
def reference (key : String) (view : Bytes) : Bytes :=
  [0x28] ++ text "storage" ++ encodeGlobal "torch" "FloatStorage" ++ text key ++ text "cpu" ++
    encodeInt 3 ++ view ++ [0x74, 0x51]

/-- A root that refers to a storage, to a view past its end, and to a storage whose key is not
listed. -/
def bytes : Bytes :=
  let version := [0x80, 0x02]
  let view := [0x28] ++ text "1" ++ encodeInt 2 ++ encodeInt 2 ++ [0x74]
  version ++ Source.magic ++ [0x2e] ++
  version ++ encodeInt 1001 ++ [0x2e] ++
  version ++ [0x7d, 0x28] ++ text "protocol_version" ++ encodeInt 1001 ++ [0x75, 0x2e] ++
  version ++ [0x7d, 0x28] ++ text "_modules" ++ [0x88] ++
    text "a" ++ reference "0" [0x4e] ++
    text "b" ++ reference "0" view ++
    text "c" ++ reference "2" [0x4e] ++ [0x75, 0x2e] ++
  version ++ [0x5d, 0x28] ++ text "0" ++ [0x65, 0x2e] ++
  bytesOfNat 8 3 ++ [1, 2, 3, 4, 5, 6, 7, 8, 9, 10, 11, 12]

theorem loads : ∃ loaded m', Restore.on machine {} (read (.ofStream bytes)) = (.ok loaded, m') := by
  have hok : (Restore.on machine {} (read (.ofStream bytes))).1.isOk := by decide +kernel
  rcases hrun : Restore.on machine {} (read (.ofStream bytes)) with ⟨_ | loaded, m'⟩
  · rw [hrun] at hok
    cases hok
  · exact ⟨loaded, m', hrun⟩

theorem keys {n : Noted} {texts : List String} {rest : Bytes}
    (h : Reads machine (.ofStream bytes) n texts rest) : texts = ["0"] := by
  have hkeys : ((readPickles resolve).outcome (.start bytes) ⟨machine, {}⟩).1.1.toOption.map
      (·.keys.map Value.keyName?) = some [some "0"] := by decide +kernel
  obtain ⟨_, a, _, _, hdata, hrun, -, htexts⟩ := h
  cases hdata
  rw [hrun] at hkeys
  have hsame := htexts.symm.trans (Option.some.inj hkeys)
  exact List.map_injective_iff.mpr (fun _ _ => Option.some.inj) hsame

end Sample

/-- A storage has bytes just where its key is listed, and then all of them; a view has the bytes of
its elements that its root has. -/
structure Supplied (n : Noted) (texts : List String) (h : Heap) : Prop where
  root : ∀ r ∈ n.resolutions, r.view? = none → ∃ s, h.storage? r.value = some s ∧
    (s.storage.bytes?.isSome ↔ r.rootKey ∈ texts) ∧
    ∀ {bytes}, s.storage.bytes? = some bytes →
      bytes.length = s.storage.size * s.storage.elementType.width
  view : ∀ r ∈ n.resolutions, r.view?.isSome → ∃ p ∈ n.table.pending, p.view = r.value ∧
    ∃ s root, h.storage? r.value = some s ∧ n.table.root? h p.rootKey = some root ∧
      (s.storage.bytes?.isSome ↔ p.rootKey ∈ texts) ∧
      ∀ {bytes}, s.storage.bytes? = some bytes →
        bytes.length = min (s.storage.size * s.storage.elementType.width)
          ((root.storage.size - p.offset) * s.storage.elementType.width)

theorem length_view {s s' : Storage} (hwhole : s.Whole) {offset size : Nat}
    (hs : s' = s.view offset size) {bytes : Bytes} (hbytes : s'.bytes? = some bytes) :
    bytes.length = min (s'.size * s'.elementType.width) ((s.size - offset) * s'.elementType.width) := by
  subst hs
  rw [hwhole.bytes?_view] at hbytes
  obtain ⟨whole, hshown, rfl⟩ := Option.map_eq_some_iff.mp hbytes
  rw [List.length_take, List.length_drop, hwhole.length_eq (hwhole.bytes?_eq ▸ hshown), Nat.sub_mul]
  rfl

theorem supplied {v : Workspace Noted} (hv : NotesAll ⟨v.machine, v.table.table⟩ v)
    (hd : Delivered v.table.table texts data h) : Supplied v.table texts h where
  root r hr hview := by
    have hkey := Resolution.get?_storages (hv.holds r hr) hview
    obtain ⟨s, hs, hwhole, hbytes⟩ := hd.root hkey
    have hvalue : h.storage? r.value = some s := by rwa [Table.root?, hkey] at hs
    refine ⟨s, hvalue, by rw [hbytes, isSome_given], fun hshown => ?_⟩
    exact hwhole.length_eq (hwhole.bytes?_eq ▸ hshown)
  view r hr hview := by
    obtain ⟨view, hview⟩ := Option.isSome_iff_exists.mp hview
    obtain ⟨p, hp, hvalue⟩ := hv.sound.view (Resolution.get?_views (hv.holds r hr) hview)
    obtain ⟨s, root, hs, hroot, hwhole, hbytes, hsame⟩ := hd.part hv.sound hp
    refine ⟨p, hp, hvalue, s, root, hvalue ▸ hs, hroot, ?_, fun hshown => length_view hwhole hsame hshown⟩
    rw [hsame, hwhole.bytes?_view, Option.isSome_map, hbytes, isSome_given]

/-- A load that succeeds may leave storages without bytes: those whose keys are not listed. -/
theorem read_supplies_listed {m m' : Machine} {s : Source} {loaded : Loaded} (hm : m.Codeless)
    (h : Restore.on m {} (read s) = (.ok loaded, m')) :
    ∃ n texts rest, Reads m s n texts rest ∧ Supplied n texts m'.heap := by
  obtain ⟨v, texts, rest, hreads, -, hnotes, hdelivered⟩ := exists_delivered hm h
  exact ⟨v.table, texts, rest, hreads, supplied hnotes hdelivered⟩

theorem read_supplies_listed_sample : ∃ loaded m' n rest,
    Restore.on Sample.machine {} (read (.ofStream Sample.bytes)) = (.ok loaded, m') ∧
      Reads Sample.machine (.ofStream Sample.bytes) n ["0"] rest ∧ Supplied n ["0"] m'.heap := by
  obtain ⟨loaded, m', hload⟩ := Sample.loads
  obtain ⟨n, texts, rest, hreads, hsupplied⟩ := read_supplies_listed Sample.codeless_machine hload
  obtain rfl := Sample.keys hreads
  exact ⟨loaded, m', n, rest, hload, hreads, hsupplied⟩

end ModelGraph.StreamLayout
