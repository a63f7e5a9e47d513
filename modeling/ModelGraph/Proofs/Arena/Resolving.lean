import ModelGraph.Archive.Bundle
import ModelGraph.Proofs.Arena.Loading

/-!
# Resolvers that keep the arena

A resolver refuses what it is asked, or makes a storage the first time it is asked for a key and gives the
same storage from then on. Both answer with values that are on the heap, and outside of an enclave.
-/

namespace ModelGraph

open Enclave
open Pickle (TableRule)

variable {τ α β : Type} {rule : TableRule τ} {c : Enclave} {h : Heap} {post : Heap → α → Prop}
  {next : Heap → β → Prop}

namespace Enclave.Sound

theorem pure {a : α} (ha : post h a) : c.Sound rule h post (Pure.pure a) := by
  intro w hw
  refine ⟨hw.leaves, fun b hb => ?_⟩
  cases hb
  exact hw.heap_eq ▸ ha

theorem throw (e : LoadError) : c.Sound rule h post (MonadExcept.throw e : Restore τ α) :=
  fun _ hw => ⟨hw.leaves, fun _ ha => by cases ha⟩

theorem bind {x : Restore τ α} {f : α → Restore τ β} (hx : c.Sound rule h post x)
    (hf : ∀ h' a, h.KeepsKinds h' → post h' a → c.Sound rule h' next (f a)) :
    c.Sound rule h next (x >>= f) := by
  intro w hw
  obtain ⟨hleaves, hresult⟩ := hx hw
  rw [Restore.outcome_bind]
  rcases hxw : x.outcome w with ⟨e | a, w'⟩ <;> rw [hxw] at hleaves hresult
  · exact ⟨hleaves, fun _ ha => by cases ha⟩
  · obtain ⟨hleaves', hresult'⟩ := hf _ a hleaves.keeps (hresult a rfl) hleaves.admits
    exact ⟨hleaves.trans hleaves', hresult'⟩

theorem ofExcept {result : Except LoadError α} (hresult : ∀ a, result = .ok a → post h a) :
    c.Sound rule h post (MonadExcept.ofExcept result) := by
  cases result with
  | ok a => exact pure (hresult a rfl)
  | error e => exact throw e

theorem exec {x : Exec α} (hx : Tame c h post x) : c.Sound rule h post (Restore.exec x) := by
  intro w hw
  obtain ⟨-, hwell, hkeeps, hresult⟩ := hx hw.wellFormed hw.heap_eq
  rw [Restore.outcome_exec]
  refine ⟨⟨hwell, hkeeps, rule.mono hkeeps hw.table⟩, fun a ha => hresult a ?_⟩
  rcases hxw : (x.outcome w.machine).1 with e | b <;> rw [hxw] at ha <;> cases ha
  rfl

/-- Looking at the workspace. -/
theorem look {x : Restore τ α} (view : Workspace τ → α) (hx : ∀ w, x.outcome w = (.ok (view w), w))
    {f : α → Restore τ β} (hf : ∀ w, c.Admits rule h w → c.Sound rule h next (f (view w))) :
    c.Sound rule h next (x >>= f) := by
  intro w hw
  rw [Restore.outcome_bind_ok (hx w)]
  exact hf w hw hw

end Enclave.Sound

/-- The resolver that refuses everything keeps to any rule. -/
theorem Pickle.answers_refuse : c.Answers rule Pickle.refuse := fun _ _ _ => .throw _

namespace Restore

theorem sound_newStorage {type : Value} (htype : c.Outside type) (size : Nat) :
    c.Sound rule h c.Has (newStorage type size) := by
  have hall {h : Heap} : c.HasAll h [.ofSize size] := hasAll_cons (has_ofSize size) hasAll_nil
  have hcall : c.Sound rule h c.Has (Pickle.callValue type [.ofSize size]) := by
    unfold Pickle.callValue
    split
    · exact .exec (AlikeHosts.standard.invoke _ hall).left
    · exact .exec (AlikeHosts.standard.call htype c.outsideIf_none (hasAll_values hall)).left
  refine hcall.bind fun h₁ made _ hmade => ?_
  refine .look (·.machine.heap) (fun _ => rfl) fun _ _ => ?_
  split
  · exact .pure hmade
  · exact .throw _

theorem sound_setStorage {target : Value} (htarget : c.Outside target) (change : Storage → Storage) :
    c.Sound rule h Anything (setStorage target change) := by
  unfold setStorage
  split
  · refine .exec (Tame.modifyHeap fun hh => hh.modify htarget (fun o => by cases o <;> rfl) fun o ho => ?_)
    cases o with
    | storage s => exact .of_nil rfl rfl
    | _ => exact ho
  · exact .pure trivial

end Restore

namespace Bundle

open Restore

/-- The storages that have been made for a pickle are on the heap and outside. -/
def tableRule (c : Enclave) : TableRule Table where
  holds h table := c.HasAll h table.values
  mono hkeeps htable := htable.mono hkeeps

theorem sound_remember (key : String) {made : Value} (hmade : c.Has h made) :
    c.Sound (tableRule c) h Anything
      (modify fun w => { w with table := w.table.insert key made } : Restore Table PUnit) := by
  intro w hw
  refine ⟨⟨hw.wellFormed, hw.heap_eq ▸ .refl _, ?_⟩, fun _ _ => trivial⟩
  intro v hv
  obtain ⟨e, he, rfl⟩ := List.mem_map.mp hv
  change c.Has w.machine.heap e.2
  rw [hw.heap_eq]
  rcases OrderedMap.mem_insertEntry he with rfl | he
  · exact hmade
  · exact hw.table _ (List.mem_map_of_mem he)

/-- A storage that is not in the table yet is made, filled and put there. -/
theorem answers_resolve (s : Source) (base : String) : c.Answers (tableRule c) (resolve s base) := by
  have hsuch {α : Type} (result : Except LoadError α) {h : Heap} :
      c.Sound (tableRule c) h Anything (MonadExcept.ofExcept result : Restore Table α) :=
    .ofExcept fun _ _ => trivial
  intro h id hid
  unfold resolve
  refine .look (fun w => (w.machine.heap.items? id).getD []) (fun _ => rfl) fun w hw => ?_
  have hitems := hw.wellFormed.closed.getItems hid.outside
  split
  · next type key _ size _ heq =>
    have htype : c.Outside type := (hitems type (heq ▸ by simp)).outside
    extract_lets storage
    have hstorage : c.Sound (tableRule c) h c.Has (storage ()) := by
      refine (hsuch (keyText key)).bind fun h₁ key _ _ => .look (fun w => w) (fun _ => rfl) fun w hw => ?_
      split
      · next v hv =>
          have hhas : c.Has w.machine.heap v := hw.leaves.table v (OrderedMap.mem_values_of_get? hv)
          exact .pure (hw.heap_eq ▸ hhas)
      · refine (hsuch (declaredCount size)).bind fun h₂ count _ _ => ?_
        refine (sound_newStorage htype count).bind fun h₃ made _ hmade => ?_
        refine (hsuch _).bind fun h₄ data hkeeps₄ _ => ?_
        refine (sound_setStorage hmade.outside _).bind fun h₅ _ hkeeps₅ _ => ?_
        have hmade₅ := (hmade.mono hkeeps₄).mono hkeeps₅
        exact (sound_remember key hmade₅).bind fun h₆ _ hkeeps₆ _ => .pure (hmade₅.mono hkeeps₆)
    have hfails {h : Heap} (e : LoadError) :
        c.Sound (tableRule c) h (fun _ _ => False) (throw e : Restore Table PUnit) := .throw e
    split
    · refine .look (·.machine.heap.describe _) (fun _ => rfl) fun _ _ => ?_
      exact (hfails _).bind fun _ _ _ hnever => hnever.elim
    · exact hstorage
  · exact .look (·.machine.heap.describe id) (fun _ => rfl) fun _ _ => .throw _

end Bundle

end ModelGraph
