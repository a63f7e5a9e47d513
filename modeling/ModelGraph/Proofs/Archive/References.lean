import ModelGraph.Archive.Stream
import ModelGraph.Proofs.Machine.Fresh
import ModelGraph.Proofs.OrderedMap
import ModelGraph.Proofs.Pickle.Agreement

/-!
# References of a stream

While the root of a stream is loaded, each reference to a storage is noted with what it is resolved
to. The notes show what the table of storages and views means: it gives each key one storage of its
own, which waits for its bytes.
-/

namespace ModelGraph.StreamLayout

open Restore Pickle

/-! ## Noting references -/

/-- The part of a reference that asks for a view. -/
structure ViewReference where
  key : String
  offset : Value

/-- A reference to a storage and what it was resolved to. -/
structure Resolution where
  rootKey : String
  view? : Option ViewReference
  value : Value

/-- The table of a load that notes references, the first one first. -/
structure Noted where
  table : Table := {}
  resolutions : List Resolution := []

def note (r : Resolution) : Restore Noted Unit :=
  modify fun w => { w with table := { w.table with resolutions := w.table.resolutions ++ [r] } }

/-- Runs an action on the table beside the notes. -/
def unnoted {α : Type} (action : Restore Table α) : Restore Noted α :=
  ExceptT.mk fun w =>
    let (result, inner) := action.run ⟨w.machine, w.table.table⟩
    (result, ⟨inner.machine, { w.table with table := inner.table }⟩)

/-- Resolves a persistent id as `resolve` does, with references to storages noted. -/
def resolveNoting (id : Value) : Restore Noted Value := do
  let parts ← items id
  match parts with
  | .str "module" :: rest => return rest.headD .none
  | .str "storage" :: type :: key :: _ :: size :: view :: _ =>
    let rootKey ← ofExcept (keyText key)
    let root ← unnoted (rootStorage rootKey type size)
    match ← items view with
    | [key, offset, size] =>
      let key ← ofExcept (keyText key)
      let made ← unnoted (viewStorage key rootKey type offset size)
      note { rootKey, view? := some { key, offset }, value := made }
      return made
    | _ =>
      note { rootKey, view? := none, value := root }
      return root
  | .str "storage" :: _ => throw (.format .storageReference)
  | _ => throw (.format (.persistentKind (← describe id)))

/-! ## Tables -/

namespace Table

/-- The storages and views in a table. -/
def objects (t : Table) : List Value := t.storages.values ++ t.pending.map (·.view)

/-- Each key has a storage of its own, without data so far, and each view has a root. -/
structure Sound (t : Table) (h : Heap) : Prop where
  declared : ∀ v ∈ t.objects, ∃ id s, v = .ref id ∧ h.get? id = some (.storage s) ∧
    (Object.storage s).New False
  distinct : t.objects.Nodup
  keys : t.storages.keys.Nodup
  view : ∀ {key v}, t.views.get? key = some v → ∃ p ∈ t.pending, p.view = v
  root : ∀ p ∈ t.pending, ∃ v, t.storages.get? p.rootKey = some v

/-- The second table still has what the first one has. -/
structure Extends (t t' : Table) : Prop where
  storages : ∀ {key v}, t.storages.get? key = some v → t'.storages.get? key = some v
  views : ∀ {key v}, t.views.get? key = some v → t'.views.get? key = some v

theorem Extends.refl (t : Table) : t.Extends t := ⟨id, id⟩

variable {t : Table} {h h' : Heap}

theorem sound_empty (h : Heap) : ({} : Table).Sound h where
  declared v hv := by cases hv
  distinct := List.nodup_nil
  keys := List.nodup_nil
  view hv := by cases hv
  root p hp := by cases hp

theorem Sound.grows (ht : t.Sound h) (hgrows : h.Grows False h') : t.Sound h' where
  declared v hv := by
    obtain ⟨id, s, rfl, hid, hs⟩ := ht.declared v hv
    exact ⟨id, s, rfl, hgrows.get?_storage hid, hs⟩
  distinct := ht.distinct
  keys := ht.keys
  view := ht.view
  root := ht.root

theorem Sound.notMem (ht : t.Sound h) {id : Nat} (hid : h.size ≤ id) : .ref id ∉ t.objects := by
  intro hmem
  obtain ⟨other, s, heq, hother, -⟩ := ht.declared _ hmem
  cases heq
  exact absurd (Heap.lt_size_of_get? hother) (Nat.not_lt_of_le hid)

/-- A storage that was just made. -/
structure Made (h h' : Heap) (v : Value) : Prop where
  grows : h.Grows False h'
  storage : ∃ id s, v = .ref id ∧ h.size ≤ id ∧ h'.get? id = some (.storage s)

theorem Made.declared {v : Value} (hv : Made h h' v) :
    ∃ id s, v = .ref id ∧ h'.get? id = some (.storage s) ∧ (Object.storage s).New False := by
  obtain ⟨id, s, rfl, hle, hid⟩ := hv.storage
  exact ⟨id, s, rfl, hid, hv.grows.new hle hid⟩

theorem Made.notMem {v : Value} (hv : Made h h' v) (ht : t.Sound h) : v ∉ t.objects := by
  obtain ⟨id, s, rfl, hle, -⟩ := hv.storage
  exact ht.notMem hle

/-- The table with another storage. -/
def addStorage (t : Table) (key : String) (v : Value) : Table :=
  { t with storages := t.storages.insert key v }

/-- The table with another view. -/
def addView (t : Table) (key : String) (p : PendingView) : Table :=
  { t with views := t.views.insert key p.view, pending := t.pending ++ [p] }

theorem extends_addStorage {key : String} (hkey : t.storages.get? key = none) (v : Value) :
    t.Extends (t.addStorage key v) where
  storages {other found} hfound := by
    have hne : other ≠ key := by
      rintro rfl
      rw [hkey] at hfound
      cases hfound
    rw [addStorage, OrderedMap.get?_insert_of_ne _ hne, hfound]
  views := id

theorem extends_addView {key : String} (hkey : t.views.get? key = none) (p : PendingView) :
    t.Extends (t.addView key p) where
  storages := id
  views {other found} hfound := by
    have hne : other ≠ key := by
      rintro rfl
      rw [hkey] at hfound
      cases hfound
    rw [addView, OrderedMap.get?_insert_of_ne _ hne, hfound]

theorem objects_addStorage {key : String} (hkey : t.storages.get? key = none) (v : Value) :
    (t.addStorage key v).objects.Perm (v :: t.objects) := by
  rw [objects, addStorage, OrderedMap.values_insert_of_get? hkey, List.append_assoc]
  exact List.perm_middle

theorem objects_addView (t : Table) (key : String) (p : PendingView) :
    (t.addView key p).objects.Perm (p.view :: t.objects) := by
  rw [objects, addView, List.map_append, ← List.append_assoc]
  exact List.perm_append_singleton _ _

theorem Sound.addStorage (ht : t.Sound h) {key : String} (hkey : t.storages.get? key = none)
    {v : Value} (hv : Made h h' v) : (t.addStorage key v).Sound h' where
  declared w hw := by
    rcases List.mem_cons.mp ((objects_addStorage hkey v).mem_iff.mp hw) with rfl | hw
    · exact hv.declared
    · exact (ht.grows hv.grows).declared w hw
  distinct := (objects_addStorage hkey v).nodup_iff.mpr
    (List.nodup_cons.mpr ⟨hv.notMem ht, ht.distinct⟩)
  keys := by
    rw [Table.addStorage, OrderedMap.keys_insert_of_get? hkey, List.nodup_append]
    refine ⟨ht.keys, by simp, fun other hother added hadded => ?_⟩
    rw [List.mem_singleton.mp hadded]
    exact ne_of_mem_of_not_mem hother (OrderedMap.notMem_keys_of_get? hkey)
  view := ht.view
  root p hp := by
    obtain ⟨root, hroot⟩ := ht.root p hp
    exact ⟨root, (extends_addStorage hkey v).storages hroot⟩

theorem Sound.addView (ht : t.Sound h) {p : PendingView} (hp : Made h h' p.view) (key : String)
    (hroot : ∃ v, t.storages.get? p.rootKey = some v) : (t.addView key p).Sound h' where
  declared w hw := by
    rcases List.mem_cons.mp ((t.objects_addView key p).mem_iff.mp hw) with rfl | hw
    · exact hp.declared
    · exact (ht.grows hp.grows).declared w hw
  distinct := (t.objects_addView key p).nodup_iff.mpr
    (List.nodup_cons.mpr ⟨hp.notMem ht, ht.distinct⟩)
  keys := ht.keys
  view {other v} hv := by
    rw [Table.addView, OrderedMap.get?_insert] at hv
    split_ifs at hv
    · cases hv
      exact ⟨p, List.mem_append_right _ (List.mem_singleton_self p), rfl⟩
    · obtain ⟨q, hq, heq⟩ := ht.view hv
      exact ⟨q, List.mem_append_left _ hq, heq⟩
  root q hq := by
    rcases List.mem_append.mp hq with hq | hq
    · exact ht.root q hq
    · rw [List.mem_singleton.mp hq]
      exact hroot

end Table

/-! ## Storages and views are made -/

/-- The second workspace has what the first one has. -/
structure Advances (w w' : Workspace Table) : Prop where
  grows : w.machine.Grows w'.machine
  table : w.table.Extends w'.table
  sound : w'.table.Sound w'.machine.heap

variable {τ : Type}

theorem made_of_newStorage {w w' : Workspace τ} (hm : w.machine.Codeless) {type v : Value} {n : Nat}
    (h : (newStorage type n).outcome w = (.ok v, w')) :
    ∃ m, w' = { w with machine := m } ∧ w.machine.Grows m ∧
      Table.Made w.machine.heap m.heap v := by
  have hcall : ∃ x : Exec Value, callValue type [.ofSize n] = (.exec x : Restore τ Value) ∧
      Adds x ∧ Fresh x := by
    have hscalars : ∀ v ∈ [Value.ofSize n], v.Scalar := by simp [Value.scalar_ofSize]
    unfold callValue
    split
    · exact ⟨_, rfl, Adds.invoke .standard _ _, Fresh.invoke .standard (.ofDepth _) _ hscalars⟩
    · exact ⟨_, rfl, Adds.Host.standard.call _ _ _, Fresh.ofDepth _ _ _ hscalars⟩
  obtain ⟨x, hx, hadds, hfresh⟩ := hcall
  obtain ⟨made, w₁, hmade, hrest⟩ := exists_of_outcome_bind h
  rw [hx, outcome_exec] at hmade
  have hgrows := hadds hm
  rcases hxm : x.outcome w.machine with ⟨e | found, m⟩ <;> rw [hxm] at hmade hgrows
  · cases hmade
  cases hmade
  rw [outcome_bind_ok (outcome_heap _)] at hrest
  dsimp only at hrest
  split at hrest
  · next hstorage =>
      cases hrest
      obtain ⟨s, hs⟩ := Option.isSome_iff_exists.mp hstorage
      obtain ⟨id, rfl, hid⟩ := Heap.storage?_eq_some_iff.mp hs
      exact ⟨m, rfl, hgrows, hgrows.heap, id, s, rfl, hfresh hm hxm, hid⟩
  · cases hrest

theorem exists_of_ofExcept {α : Type} {result : Except LoadError α} {w w' : Workspace τ} {a : α}
    (h : (ofExcept result : Restore τ α).outcome w = (.ok a, w')) : result = .ok a ∧ w' = w := by
  cases result with
  | ok b =>
      cases h
      exact ⟨rfl, rfl⟩
  | error e => cases h

variable {w w' : Workspace Table} (hm : w.machine.Codeless) (ht : w.table.Sound w.machine.heap)
include hm ht

theorem advances_rootStorage {key : String} {type size v : Value}
    (h : (rootStorage key type size).outcome w = (.ok v, w')) :
    Advances w w' ∧ w'.table.storages.get? key = some v ∧ w'.table.pending = w.table.pending := by
  obtain ⟨_, _, hget, hrest⟩ := exists_of_outcome_bind h
  cases hget
  cases hkey : w.table.storages.get? key with
  | some found =>
      rw [hkey] at hrest
      cases hrest
      exact ⟨⟨.refl _, .refl _, ht⟩, hkey, rfl⟩
  | none =>
      rw [hkey] at hrest
      obtain ⟨count, w₁, hcount, hmaking⟩ := exists_of_outcome_bind hrest
      obtain ⟨-, rfl⟩ := exists_of_ofExcept hcount
      obtain ⟨made, w₂, hmade, hinserting⟩ := exists_of_outcome_bind hmaking
      obtain ⟨m, rfl, hgrows, hmade⟩ := made_of_newStorage hm hmade
      cases hinserting
      exact ⟨⟨hgrows, Table.extends_addStorage hkey v, ht.addStorage hkey hmade⟩,
        OrderedMap.get?_insert_self _ _ _, rfl⟩

theorem advances_viewStorage {key rootKey : String} {type offset size v : Value}
    (hroot : ∃ root, w.table.storages.get? rootKey = some root)
    (h : (viewStorage key rootKey type offset size).outcome w = (.ok v, w')) :
    Advances w w' ∧ w'.table.views.get? key = some v ∧ ∀ p ∈ w'.table.pending,
      p ∈ w.table.pending ∨
        (p.view = v ∧ p.rootKey = rootKey ∧ declaredCount offset = .ok p.offset) := by
  obtain ⟨_, _, hget, hrest⟩ := exists_of_outcome_bind h
  cases hget
  cases hkey : w.table.views.get? key with
  | some found =>
      rw [hkey] at hrest
      cases hrest
      exact ⟨⟨.refl _, .refl _, ht⟩, hkey, fun p hp => .inl hp⟩
  | none =>
      rw [hkey] at hrest
      obtain ⟨count, w₁, hcount, hmaking⟩ := exists_of_outcome_bind hrest
      obtain ⟨-, rfl⟩ := exists_of_ofExcept hcount
      obtain ⟨made, w₂, hmade, hplacing⟩ := exists_of_outcome_bind hmaking
      obtain ⟨m, rfl, hgrows, hmade⟩ := made_of_newStorage hm hmade
      obtain ⟨place, w₃, hplace, hinserting⟩ := exists_of_outcome_bind hplacing
      obtain ⟨hoffset, rfl⟩ := exists_of_ofExcept hplace
      cases hinserting
      let p : PendingView := { view := v, rootKey, offset := place }
      refine ⟨⟨hgrows, Table.extends_addView hkey p, ht.addView (p := p) hmade key hroot⟩,
        OrderedMap.get?_insert_self _ _ _, fun q hq => ?_⟩
      rcases List.mem_append.mp hq with hq | hq
      · exact .inl hq
      · rw [List.mem_singleton.mp hq]
        exact .inr ⟨rfl, rfl, hoffset⟩

omit hm ht

/-! ## What the notes say -/

/-- The table still resolves the reference as it was resolved. -/
def Resolution.Holds (r : Resolution) (t : Table) : Prop :=
  match r.view? with
  | none => t.storages.get? r.rootKey = some r.value
  | some view => t.views.get? view.key = some r.value

theorem Resolution.get?_storages {r : Resolution} {t : Table} (h : r.Holds t)
    (hview : r.view? = none) : t.storages.get? r.rootKey = some r.value := by
  rwa [Resolution.Holds, hview] at h

theorem Resolution.get?_views {r : Resolution} {t : Table} (h : r.Holds t) {view : ViewReference}
    (hview : r.view? = some view) : t.views.get? view.key = some r.value := by
  rwa [Resolution.Holds, hview] at h

/-- The view was recorded as the reference asks. -/
def Resolution.Records (r : Resolution) (p : PendingView) : Prop :=
  r.value = p.view ∧ r.rootKey = p.rootKey ∧
    ∃ view, r.view? = some view ∧ declaredCount view.offset = .ok p.offset

theorem Resolution.Holds.extends {r : Resolution} {t t' : Table} (h : r.Holds t)
    (htable : t.Extends t') : r.Holds t' := by
  unfold Resolution.Holds at h ⊢
  split at h
  · exact htable.storages h
  · exact htable.views h

/-- A workspace, and the same one with references noted. All notes hold, and all views that wait for
bytes are noted, except for those that satisfy `Unnoted`. -/
structure Notes (Unnoted : PendingView → Prop) (w : Workspace Table) (v : Workspace Noted) :
    Prop where
  workspace_eq : w = ⟨v.machine, v.table.table⟩
  codeless : v.machine.Codeless
  sound : v.table.table.Sound v.machine.heap
  holds : ∀ r ∈ v.table.resolutions, r.Holds v.table.table
  records : ∀ p ∈ v.table.table.pending, (∃ r ∈ v.table.resolutions, r.Records p) ∨ Unnoted p

/-- Every view is noted. -/
abbrev NotesAll : Workspace Table → Workspace Noted → Prop := Notes fun _ => False

theorem lasting_notesAll : Lasting NotesAll where
  machine_eq h := by rw [h.workspace_eq]
  codeless h := h.codeless
  grows h hgrows :=
    { workspace_eq := by rw [h.workspace_eq]
      codeless := h.codeless.grows hgrows
      sound := h.sound.grows hgrows.heap
      holds := h.holds
      records := h.records }

theorem agree_unnoted {α : Type} (action : Restore Table α) (Pre : Table → Prop)
    (Post : α → Table → Prop) (Unnoted : α → PendingView → Prop)
    (haction : ∀ {w w' a}, w.machine.Codeless → w.table.Sound w.machine.heap → Pre w.table →
      action.outcome w = (.ok a, w') → Advances w w' ∧ Post a w'.table ∧
        ∀ p ∈ w'.table.pending, p ∈ w.table.pending ∨ Unnoted a p) :
    Agree (fun w v => NotesAll w v ∧ Pre w.table)
      (fun a w v => Notes (Unnoted a) w v ∧ Post a w.table) action (unnoted action) := by
  rintro _ ⟨m, t, resolutions⟩ ⟨⟨rfl, hm, ht, hholds, hrecords⟩, hpre⟩
  have hsame : (unnoted action).outcome ⟨m, t, resolutions⟩ =
      ((action.outcome ⟨m, t⟩).1,
        ⟨(action.outcome ⟨m, t⟩).2.machine, (action.outcome ⟨m, t⟩).2.table, resolutions⟩) := rfl
  rw [hsame]
  refine ⟨rfl, fun a ha => ?_⟩
  rcases hw : action.outcome ⟨m, t⟩ with ⟨result, w'⟩
  rw [hw] at ha
  obtain rfl : result = .ok a := ha
  obtain ⟨hadvances, hpost, hpending⟩ := haction hm ht hpre hw
  refine ⟨⟨rfl, hm.grows hadvances.grows, hadvances.sound,
    fun r hr => (hholds r hr).extends hadvances.table, fun p hp => ?_⟩, hpost⟩
  rcases hpending p hp with hold | hnew
  · exact .inl ((hrecords p hold).resolve_right id)
  · exact .inr hnew

theorem agree_rootStorage (key : String) (type size : Value) :
    Agree NotesAll (fun root w v => NotesAll w v ∧ w.table.storages.get? key = some root)
      (rootStorage key type size) (unnoted (rootStorage key type size)) := by
  have hroot := agree_unnoted (rootStorage key type size) (fun _ => True)
    (fun root t => t.storages.get? key = some root) (fun _ _ => False) fun hm ht _ h => by
      obtain ⟨hadvances, hfound, hpending⟩ := advances_rootStorage hm ht h
      exact ⟨hadvances, hfound, fun p hp => .inl (hpending ▸ hp)⟩
  exact fun w v h => hroot ⟨h, trivial⟩

theorem agree_note {Unnoted : PendingView → Prop} (r : Resolution) :
    Agree (fun w v => Notes Unnoted w v ∧ r.Holds w.table ∧ ∀ p, Unnoted p → r.Records p)
      (fun _ => NotesAll) (Pure.pure r.value) (note r >>= fun _ => Pure.pure r.value) := by
  rintro _ ⟨m, t, resolutions⟩ ⟨⟨rfl, hm, ht, hholds, hrecords⟩, hr, hrest⟩
  refine ⟨rfl, fun _ _ => ⟨rfl, hm, ht, fun other hother => ?_, fun p hp => .inl ?_⟩⟩
  · rcases List.mem_append.mp hother with hother | hother
    · exact hholds other hother
    · rw [List.mem_singleton.mp hother]
      exact hr
  · rcases hrecords p hp with ⟨other, hother, hrecord⟩ | hp
    · exact ⟨other, List.mem_append_left _ hother, hrecord⟩
    · exact ⟨r, List.mem_append_right _ (List.mem_singleton_self r), hrest p hp⟩

theorem agree_viewStorage (key rootKey : String) (type offset size root : Value) :
    Agree (fun w v => NotesAll w v ∧ w.table.storages.get? rootKey = some root)
      (fun made w v => Notes (fun p => p.view = made ∧ p.rootKey = rootKey ∧
          declaredCount offset = .ok p.offset) w v ∧ w.table.views.get? key = some made)
      (viewStorage key rootKey type offset size)
      (unnoted (viewStorage key rootKey type offset size)) :=
  agree_unnoted _ (fun t => t.storages.get? rootKey = some root)
    (fun made t => t.views.get? key = some made)
    (fun made p => p.view = made ∧ p.rootKey = rootKey ∧ declaredCount offset = .ok p.offset)
    fun hm ht hroot h => advances_viewStorage hm ht ⟨root, hroot⟩ h

theorem agree_resolve (id : Value) :
    Agree NotesAll (fun _ => NotesAll) (resolve id) (resolveNoting id) := by
  have hmachine {w v} (h : NotesAll w v) : w.machine = v.machine := lasting_notesAll.machine_eq h
  refine .bind (.items hmachine id) fun parts => .of_eq fun noting hnoting => ?_
  split
  · exact hnoting ▸ .pure fun _ _ h => h
  · subst hnoting
    refine .bind (.ofExcept _) fun rootKey => .bind (agree_rootStorage _ _ _) fun root => ?_
    refine .bind (.items (fun h => hmachine h.1) _) fun view => .of_eq fun noting hnoting => ?_
    split
    · next viewKey offset size =>
        subst hnoting
        refine .bind (.ofExcept _) fun key => .bind_right (agree_viewStorage _ _ _ _ _ root) fun made =>
          fun w v h => ?_
        refine agree_note { rootKey, view? := some { key, offset }, value := made } ⟨h.1, h.2, ?_⟩
        rintro p ⟨hview, hroot, hoffset⟩
        exact ⟨hview.symm, hroot.symm, _, rfl, hoffset⟩
    · next hother =>
        split at hnoting
        · exact (hother _ _ _ rfl).elim
        · subst hnoting
          intro w v h
          exact agree_note { rootKey, view? := none, value := root } ⟨h.1, h.2, fun _ h => h.elim⟩
  · next hshort =>
      split at hnoting
      · next heq => exact absurd heq (by simp)
      · next heq =>
          cases heq
          exact (hshort _ _ _ _ _ _ rfl).elim
      · exact hnoting ▸ .throw _
      · next hother => exact (hother _ rfl).elim
  · next hmodule hlong hstorage =>
      split at hnoting
      · exact (hmodule _ rfl).elim
      · exact (hlong _ _ _ _ _ _ rfl).elim
      · exact (hstorage _ rfl).elim
      · exact hnoting ▸ .bind (.describe hmachine id) fun _ => .throw _

/-! ## The pickles of a stream -/

/-- What the five pickles of a stream give. -/
structure Announced where
  root : Value
  littleEndian : Bool
  /-- The keys of the storages whose bytes follow. -/
  keys : List Value

/-- Reads the five pickles, with a given resolver for the root. -/
def readPickles {τ : Type} (resolver : Value → Restore τ Value) : Reading τ Announced := do
  let _ ← load
  let declared ← load
  if declared.int? ≠ some protocol then
    throw (.protocol (.version (← Reading.act (describe declared))))
  let system ← load
  let littleEndian ← ofExcept ((← Reading.act heap).checkSystem system protocol)
  let root ← loadWith resolver
  if root.isNone then throw (.format .absentRoot)
  let keys ← load
  return { root, littleEndian, keys := ← Reading.act (items keys) }

/-- Reads the bytes of the storages, and fills the views from them. -/
def deliver (a : Announced) : Reading Table Loaded := do
  for key in a.keys do readStorage key
  for p in (← Reading.act get).table.pending do Reading.act (fillView p)
  return { content := ← ofExcept ((← Reading.act heap).classify a.root), littleEndian := a.littleEndian }

theorem readStream_eq : readStream = readPickles resolve >>= deliver := by
  unfold readStream readPickles deliver
  have hite {α β : Type} (p : Prop) [Decidable p] (x y : Reading Table α) (f : α → Reading Table β) :
      (if p then x else y) >>= f = if p then x >>= f else y >>= f := by
    split <;> rfl
  simp only [bind_assoc, pure_bind, hite]

theorem agree_readPickles :
    Pickle.Agree NotesAll (readPickles resolve) (readPickles resolveNoting) := by
  have hmachine {w v} (h : NotesAll w v) : w.machine = v.machine := lasting_notesAll.machine_eq h
  have hload := Pickle.Agree.load lasting_notesAll
  have hroot := Pickle.Agree.loadWith lasting_notesAll agree_resolve
  refine hload.bind fun _ => hload.bind fun declared => ?_
  extract_lets rest rest'
  have hrest (u : Unit) : Pickle.Agree NotesAll (rest u) (rest' u) := by
    refine hload.bind fun system => (Pickle.Agree.act (.heap hmachine)).bind fun h => ?_
    refine (Pickle.Agree.ofExcept _).bind fun _ => hroot.bind fun root => ?_
    extract_lets finish finish'
    have hfinish (u : Unit) : Pickle.Agree NotesAll (finish u) (finish' u) :=
      hload.bind fun keys => (Pickle.Agree.act (.items hmachine keys)).bind fun _ => .pure _
    split
    · exact (Pickle.Agree.throw _).bind hfinish
    · exact hfinish ()
  split
  · exact (Pickle.Agree.act (.describe hmachine declared)).bind fun _ =>
      (Pickle.Agree.throw _).bind hrest
  · exact hrest ()

end ModelGraph.StreamLayout
