import Mathlib.Algebra.GroupWithZero.Nat
import ModelGraph.Proofs.Archive.References
import ModelGraph.Proofs.Archive.Storages

/-!
# Filling storages

The bytes after the pickles of a stream are cut into chunks, one for each key of the key list. Reading
them gives each listed storage the last chunk of its key; then each view is given its part of its root.
Nothing else changes.
-/

namespace ModelGraph.StreamLayout

open Restore Pickle

variable {t : Table} {h h' h'' : Heap}

/-- The keys of the table stand for storages on the heap. -/
def Table.Stored (t : Table) (h : Heap) : Prop :=
  ∀ key v, t.storages.get? key = some v → ∃ id s, v = .ref id ∧ h.get? id = some (.storage s)

theorem Table.Sound.stored (ht : t.Sound h) : t.Stored h := by
  intro key v hv
  obtain ⟨id, s, rfl, hid, -⟩ := ht.declared v
    (List.mem_append_left _ (OrderedMap.mem_values_of_get? hv))
  exact ⟨id, s, rfl, hid⟩

/-- The storages of the keys have got these bytes, and nothing else has changed. -/
structure Filled (t : Table) (given : String → Option Bytes) (h h' : Heap) : Prop where
  storage : ∀ {key id s}, t.storages.get? key = some (.ref id) → h.get? id = some (.storage s) →
    h'.get? id = some (.storage { s with storage := s.storage.refill (given key) })
  other : ∀ {id}, (∀ key, t.storages.get? key ≠ some (.ref id)) → h'.get? id = h.get? id

namespace Filled

theorem refl (t : Table) (h : Heap) : Filled t (fun _ => none) h h :=
  ⟨fun _ hid => hid, fun _ => rfl⟩

theorem trans {given given' : String → Option Bytes} (first : Filled t given h h')
    (second : Filled t given' h' h'') :
    Filled t (fun key => (given' key).or (given key)) h h'' where
  storage hkey hid := by
    rw [second.storage hkey (first.storage hkey hid), Storage.refill_refill]
  other hid := (second.other hid).trans (first.other hid)

theorem stored {given : String → Option Bytes} (hfilled : Filled t given h h')
    (ht : t.Stored h) : t.Stored h' := by
  intro key v hv
  obtain ⟨id, s, rfl, hid⟩ := ht key v hv
  exact ⟨id, _, rfl, hfilled.storage hv hid⟩

theorem modify (ht : t.storages.values.Nodup) {key : String} {id : Nat}
    (hkey : t.storages.get? key = some (.ref id)) (data : Bytes) :
    Filled t (fun other => if key = other then some data else none) h
      (h.modify id (onStorage (·.fill data))) where
  storage {other id' s} hother hid := by
    rw [Heap.get?_modify]
    by_cases heq : key = other
    · subst heq
      obtain rfl : id = id' := by simpa using hkey.symm.trans hother
      rw [if_pos rfl, hid, if_pos rfl]
      rfl
    · have hne : id ≠ id' := by
        rintro rfl
        exact heq (OrderedMap.eq_of_get?_of_nodup_values ht hkey hother)
      rw [if_neg hne, hid, if_neg heq]
      rfl
  other {id'} hid := by
    have hne : id ≠ id' := by
      rintro rfl
      exact hid key hkey
    rw [Heap.get?_modify, if_neg hne]

end Filled

/-! ## Chunks -/

/-- The chunks of the given lengths, each after an element count of eight bytes. -/
def cut : List Nat → Bytes → List Bytes
  | [], _ => []
  | length :: rest, data => (data.drop 8).take length :: cut rest (data.drop (8 + length))

/-- What the last pair with the key holds. -/
def lastOf : List (String × Bytes) → String → Option Bytes
  | [], _ => none
  | (key, data) :: rest, other => (lastOf rest other).or (if key = other then some data else none)

@[simp] theorem length_cut (lengths : List Nat) (data : Bytes) :
    (cut lengths data).length = lengths.length := by
  induction lengths generalizing data with
  | nil => rfl
  | cons length rest ih => simp [cut, ih]

theorem map_length_cut {lengths : List Nat} {data : Bytes}
    (h : (lengths.map (8 + ·)).sum ≤ data.length) :
    (cut lengths data).map List.length = lengths := by
  induction lengths generalizing data with
  | nil => rfl
  | cons length rest ih =>
      rw [List.map_cons, List.sum_cons] at h
      rw [cut, List.map_cons, ih (by rw [List.length_drop]; omega), List.length_take,
        List.length_drop, Nat.min_eq_left (by omega)]

theorem mem_of_lastOf {pairs : List (String × Bytes)} {key : String} {data : Bytes}
    (h : lastOf pairs key = some data) : (key, data) ∈ pairs := by
  induction pairs with
  | nil => cases h
  | cons pair rest ih =>
      rw [lastOf] at h
      rcases Option.or_eq_some_iff.mp h with h | ⟨-, h⟩
      · exact List.mem_cons_of_mem _ (ih h)
      · split_ifs at h with heq
        cases h
        rw [← heq]
        exact List.mem_cons_self

theorem isSome_lastOf (pairs : List (String × Bytes)) (key : String) :
    (lastOf pairs key).isSome ↔ key ∈ pairs.map (·.1) := by
  induction pairs with
  | nil => simp [lastOf]
  | cons pair rest ih =>
      rw [lastOf, Option.isSome_or, Bool.or_eq_true, ih, List.map_cons, List.mem_cons, or_comm]
      split_ifs with heq
      · simp [heq]
      · simp [Ne.symm heq]

theorem lastOf_of_mem {pairs : List (String × Bytes)} (hpairs : (pairs.map (·.1)).Nodup)
    {key : String} {data : Bytes} (h : (key, data) ∈ pairs) : lastOf pairs key = some data := by
  obtain ⟨found, hfound⟩ := Option.isSome_iff_exists.mp
    ((isSome_lastOf pairs key).mpr (List.mem_map_of_mem h))
  have heq := List.inj_on_of_nodup_map hpairs h (mem_of_lastOf hfound) rfl
  cases heq
  exact hfound

/-- The storage of a key. -/
def Table.root? (t : Table) (h : Heap) (key : String) : Option StorageObject :=
  (t.storages.get? key).bind h.storage?

theorem root?_eq_some {key : String} {id : Nat} {s : StorageObject}
    (hkey : t.storages.get? key = some (.ref id)) (hid : h.get? id = some (.storage s)) :
    t.root? h key = some s := by
  rw [Table.root?, hkey, Option.bind_some, Heap.storage?_eq_some_iff.mpr ⟨id, rfl, hid⟩]

/-- The bytes that the declared elements of a key's storage take. -/
def Table.length (t : Table) (h : Heap) (key : String) : Nat :=
  ((t.root? h key).map fun s => s.storage.size * s.storage.elementType.width).getD 0

theorem length_of_root? {key : String} {s : StorageObject} (hs : t.root? h key = some s) :
    t.length h key = s.storage.size * s.storage.elementType.width := by
  rw [Table.length, hs]
  rfl

theorem length_of_get? {key : String} {id : Nat} {s : StorageObject}
    (hkey : t.storages.get? key = some (.ref id)) (hid : h.get? id = some (.storage s)) :
    t.length h key = s.storage.size * s.storage.elementType.width :=
  length_of_root? (root?_eq_some hkey hid)

theorem Filled.length_eq {given : String → Option Bytes} (hfilled : Filled t given h h')
    (ht : t.Stored h) (key : String) : t.length h' key = t.length h key := by
  cases hkey : t.storages.get? key with
  | none => simp [Table.length, Table.root?, hkey]
  | some v =>
      obtain ⟨id, s, rfl, hid⟩ := ht _ v hkey
      rw [length_of_get? hkey hid, length_of_get? hkey (hfilled.storage hkey hid)]
      simp

theorem keyName?_of_keyText {key : Value} {text : String} (h : keyText key = .ok text) :
    key.keyName? = some text := by
  unfold keyText at h
  split at h <;> cases h
  assumption

theorem storageLength_ok {τ : Type} {v : Value} {s : StorageObject} {w w' : Workspace τ} {n : Nat}
    (hv : w.machine.heap.storage? v = some s)
    (h : (storageLength v).outcome w = (.ok n, w')) : s.storage.byteLength? = some n ∧ w' = w := by
  rw [storageLength, Restore.outcome_bind_ok (outcome_heap w), hv] at h
  dsimp only at h
  split at h <;> cases h
  exact ⟨by assumption, rfl⟩

theorem readStorage_ok {key : Value} {c c' : Cursor} {w w' : Workspace Table}
    (ht : w.table.Stored w.machine.heap)
    (h : (readStorage key).outcome c w = ((.ok (), c'), w')) :
    ∃ text id, key.keyName? = some text ∧ w.table.storages.get? text = some (.ref id) ∧
      let length := w.table.length w.machine.heap text
      length ≤ maxSize ∧ 8 + length ≤ c.rest.length ∧ c'.rest = c.rest.drop (8 + length) ∧
      w' = withHeap w (w.machine.heap.modify id
        (onStorage (·.fill ((c.rest.drop 8).take length)))) := by
  obtain ⟨text, htext, hfind⟩ := exists_of_outcome_ofExcept h
  obtain ⟨_, _, hget, hfound⟩ := exists_of_outcome_act hfind
  cases hget
  cases hkey : w.table.storages.get? text with
  | none =>
      rw [hkey] at hfound
      cases hfound
  | some v =>
      obtain ⟨id, s, rfl, hid⟩ := ht _ v hkey
      simp only [hkey] at hfound
      obtain ⟨_, _, hheap, hsigned⟩ := exists_of_outcome_act hfound
      cases hheap
      have hs : w.machine.heap.storage? (.ref id) = some s :=
        Heap.storage?_eq_some_iff.mpr ⟨id, rfl, hid⟩
      obtain ⟨word, c₁, w₁, hword, hcount⟩ := Reading.exists_of_outcome_bind hsigned
      obtain ⟨hlong, hword⟩ := exists_of_outcome_bytes hword
      cases hword
      obtain ⟨size, -, hdeclared⟩ := exists_of_outcome_ofExcept hcount
      split_ifs at hdeclared with hsize
      · cases hdeclared
      obtain ⟨length, w₁, hlength, hbytes⟩ := exists_of_outcome_act hdeclared
      obtain ⟨hwidth, hsame⟩ := storageLength_ok hs hlength
      obtain ⟨hdata, hfilled⟩ := exists_of_outcome_bytes hbytes
      rw [hsame, fillStorage, setStorage_ref, Reading.outcome_act] at hfilled
      cases hfilled
      obtain ⟨rfl, hbound⟩ := Storage.eq_of_byteLength? hwidth
      rw [List.length_drop] at hdata
      have hfits : 8 + s.storage.size * s.storage.elementType.width ≤ c.rest.length := by omega
      rw [← length_of_get? hkey hid] at hbound hfits ⊢
      exact ⟨text, id, keyName?_of_keyText htext, hkey, hbound, hfits, List.drop_drop, rfl⟩

/-- The keys are known, and their storages have got the chunks of the data. -/
structure Dealt (t : Table) (keys : List Value) (data : Bytes) (h : Heap) (texts : List String)
    (h' : Heap) : Prop where
  texts_eq : keys.map Value.keyName? = texts.map some
  known : ∀ text ∈ texts, ∃ v, t.storages.get? text = some v
  bounded : ∀ text ∈ texts, t.length h text ≤ maxSize
  enough : (texts.map fun text => 8 + t.length h text).sum ≤ data.length
  filled : Filled t (lastOf (texts.zip (cut (texts.map (t.length h)) data))) h h'

theorem Dealt.cons {key : Value} {text : String} {id : Nat} {keys : List Value} {data : Bytes}
    {texts : List String} (ht : t.Stored h) (hdistinct : t.storages.values.Nodup)
    (htext : key.keyName? = some text) (hid : t.storages.get? text = some (.ref id))
    (hbound : t.length h text ≤ maxSize) (hlong : 8 + t.length h text ≤ data.length)
    (hrest : Dealt t keys (data.drop (8 + t.length h text))
      (h.modify id (onStorage (·.fill ((data.drop 8).take (t.length h text))))) texts h') :
    Dealt t (key :: keys) data h (text :: texts) h' := by
  have hfirst := Filled.modify (h := h) hdistinct hid ((data.drop 8).take (t.length h text))
  have hlength := hfirst.length_eq ht
  obtain ⟨htexts, hknown, hbounded, henough, hfilled⟩ := hrest
  simp only [hlength] at hbounded henough
  rw [show t.length _ = t.length h from funext hlength] at hfilled
  refine ⟨by rw [List.map_cons, List.map_cons, htext, htexts], ?_, ?_, ?_, hfirst.trans hfilled⟩
  · exact List.forall_mem_cons.mpr ⟨⟨_, hid⟩, hknown⟩
  · exact List.forall_mem_cons.mpr ⟨hbound, hbounded⟩
  · rw [List.length_drop] at henough
    rw [List.map_cons, List.sum_cons]
    omega

theorem readStorages_ok {keys : List Value} {c c' : Cursor} {w w' : Workspace Table} {u : PUnit}
    (ht : w.table.Stored h) (hdistinct : w.table.storages.values.Nodup)
    (hread : (forIn keys PUnit.unit fun key _ => do
        readStorage key
        return ForInStep.yield PUnit.unit : Reading Table PUnit).outcome c (withHeap w h) =
      ((.ok u, c'), w')) :
    ∃ texts h', Dealt w.table keys c.rest h texts h' ∧ w' = withHeap w h' := by
  induction keys generalizing c h with
  | nil =>
      cases hread
      exact ⟨[], h, ⟨rfl, by simp, by simp, by simp, .refl _ _⟩, rfl⟩
  | cons key keys ih =>
      rw [List.forIn_cons, bind_assoc] at hread
      obtain ⟨_, c₁, w₁, hkey, hrest⟩ := Reading.exists_of_outcome_bind hread
      obtain ⟨text, id, htext, hid, hbound, hlong, hafter, rfl⟩ :=
        readStorage_ok (w := withHeap w h) ht hkey
      have hstored := (Filled.modify (h := h) hdistinct hid
        ((c.rest.drop 8).take (w.table.length h text))).stored ht
      obtain ⟨texts, h', hdealt, rfl⟩ := ih hstored hrest
      rw [hafter] at hdealt
      exact ⟨text :: texts, h', .cons ht hdistinct htext hid hbound hlong hdealt, rfl⟩

/-! ## Views -/

/-- The views are storages of their own, and their roots are stored. -/
structure Waiting (t : Table) (h : Heap) (views : List PendingView) : Prop where
  stored : t.Stored h
  view : ∀ p ∈ views, ∃ id s, p.view = .ref id ∧ h.get? id = some (.storage s)
  root : ∀ p ∈ views, ∃ v, t.storages.get? p.rootKey = some v
  distinct : (views.map (·.view)).Nodup
  apart : ∀ p ∈ views, ∀ key, t.storages.get? key ≠ some p.view

/-- The views have got their parts of the roots, and nothing else has changed. -/
structure Viewed (t : Table) (views : List PendingView) (h h' : Heap) : Prop where
  view : ∀ p ∈ views, ∀ {id s root}, p.view = .ref id → h.get? id = some (.storage s) →
    t.root? h p.rootKey = some root →
    h'.get? id = some (.storage { s with storage := root.storage.view p.offset s.storage.size })
  other : ∀ {id}, (∀ p ∈ views, p.view ≠ .ref id) → h'.get? id = h.get? id

theorem outcome_fillView {w : Workspace Table} {p : PendingView} {id : Nat} {root : StorageObject}
    (hview : p.view = .ref id) (hroot : w.table.root? h p.rootKey = some root) :
    (fillView p).outcome (withHeap w h) = (.ok (), withHeap w (h.modify id
      (onStorage fun view => root.storage.view p.offset view.size))) := by
  obtain ⟨v, hv, hs⟩ := Option.bind_eq_some_iff.mp hroot
  unfold fillView
  rw [Restore.outcome_bind_ok (outcome_get _)]
  simp only [withHeap, hv, hview]
  rw [Restore.outcome_bind_ok (Restore.outcome_heap _)]
  simp only [hs]
  rfl

section

variable {p : PendingView} {views : List PendingView} {id : Nat} {change : Object → Object}
  (hwaiting : Waiting t h (p :: views)) (hid : p.view = .ref id)
include hwaiting hid

theorem Waiting.get?_of_root {key : String} {rootId : Nat}
    (hroot : t.storages.get? key = some (.ref rootId)) :
    (h.modify id change).get? rootId = h.get? rootId := by
  rw [Heap.get?_modify, if_neg]
  rintro rfl
  exact hwaiting.apart p List.mem_cons_self key (hroot.trans (congrArg some hid.symm))

theorem Waiting.get?_of_view {q : PendingView} (hq : q ∈ views) {viewId : Nat}
    (hview : q.view = .ref viewId) : (h.modify id change).get? viewId = h.get? viewId := by
  rw [Heap.get?_modify, if_neg]
  rintro rfl
  have hnodup := hwaiting.distinct
  rw [List.map_cons, List.nodup_cons] at hnodup
  exact hnodup.1 (List.mem_map.mpr ⟨q, hq, hview.trans hid.symm⟩)

theorem Waiting.root?_eq (key : String) : t.root? (h.modify id change) key = t.root? h key := by
  cases hkey : t.storages.get? key with
  | none => simp [Table.root?, hkey]
  | some v =>
      obtain ⟨rootId, s, rfl, hs⟩ := hwaiting.stored key v hkey
      rw [root?_eq_some hkey hs, root?_eq_some hkey ((hwaiting.get?_of_root hid hkey).trans hs)]

theorem Waiting.tail : Waiting t (h.modify id change) views where
  stored key v hkey := by
    obtain ⟨rootId, s, rfl, hs⟩ := hwaiting.stored key v hkey
    exact ⟨rootId, s, rfl, (hwaiting.get?_of_root hid hkey).trans hs⟩
  view q hq := by
    obtain ⟨viewId, s, hview, hs⟩ := hwaiting.view q (List.mem_cons_of_mem _ hq)
    exact ⟨viewId, s, hview, (hwaiting.get?_of_view hid hq hview).trans hs⟩
  root q hq := hwaiting.root q (List.mem_cons_of_mem _ hq)
  distinct := (List.nodup_cons.mp hwaiting.distinct).2
  apart q hq := hwaiting.apart q (List.mem_cons_of_mem _ hq)

theorem Viewed.cons {root : StorageObject} (hroot : t.root? h p.rootKey = some root)
    (hrest : Viewed t views (h.modify id
      (onStorage fun view => root.storage.view p.offset view.size)) h') :
    Viewed t (p :: views) h h' where
  view q hq {viewId s found} hview hs hfound := by
    rcases List.mem_cons.mp hq with rfl | hq
    · obtain rfl : id = viewId := Value.ref.inj (hid.symm.trans hview)
      obtain rfl : root = found := Option.some.inj (hroot.symm.trans hfound)
      have hnodup := hwaiting.distinct
      rw [List.map_cons, List.nodup_cons] at hnodup
      rw [hrest.other fun r hr heq => hnodup.1 (List.mem_map.mpr ⟨r, hr, heq.trans hid.symm⟩),
        Heap.get?_modify, if_pos rfl, hs]
      rfl
    · exact hrest.view q hq hview ((hwaiting.get?_of_view hid hq hview).trans hs)
        ((hwaiting.root?_eq hid _).trans hfound)
  other {other} hother := by
    rw [hrest.other fun q hq => hother q (List.mem_cons_of_mem _ hq), Heap.get?_modify, if_neg]
    rintro rfl
    exact hother p List.mem_cons_self hid

end

theorem outcome_fillViews {w : Workspace Table} {views : List PendingView} {c : Cursor}
    (hwaiting : Waiting w.table h views) :
    ∃ h', Viewed w.table views h h' ∧
      (forIn views PUnit.unit fun p _ => do
        Reading.act (fillView p)
        return ForInStep.yield PUnit.unit : Reading Table PUnit).outcome c (withHeap w h) =
      ((.ok PUnit.unit, c), withHeap w h') := by
  induction views generalizing h with
  | nil => exact ⟨h, ⟨by simp, fun _ => rfl⟩, rfl⟩
  | cons p views ih =>
      obtain ⟨id, s, hid, hs⟩ := hwaiting.view p List.mem_cons_self
      obtain ⟨v, hv⟩ := hwaiting.root p List.mem_cons_self
      obtain ⟨rootId, root, rfl, hrootId⟩ := hwaiting.stored _ v hv
      have hroot := root?_eq_some hv hrootId
      obtain ⟨h', hviewed, hrest⟩ := ih (hwaiting.tail hid)
      refine ⟨h', hviewed.cons hwaiting hid hroot, ?_⟩
      rw [List.forIn_cons, bind_assoc,
        Reading.outcome_bind_ok (outcome_act_of (outcome_fillView hid hroot) c)]
      exact hrest

end ModelGraph.StreamLayout
