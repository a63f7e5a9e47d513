import ModelGraph.Proofs.Arena.Tame

/-!
# Making and restoring instances is tame

New instances hold their class and the arguments they are made of; a saved state is merged into objects
that are there already. An array that takes the place of the record of its making stays an instance.
-/

namespace ModelGraph

open Exec Enclave

namespace Tame

variable {c : Enclave} {h : Heap}

/-! ## Instances -/

theorem convert (type : String) {v : Value} (hv : c.Outside v) : Tame c h c.Has (Exec.convert type v) := by
  unfold Exec.convert
  split
  · exact pure (has_of_scalar v.scalar_toWhole)
  · exact pure (has_of_scalar v.scalar_toFloat)
  · exact pure trivial
  · exact pure trivial
  · exact pure trivial
  · exact .afterDescribe fun _ => pure trivial
  · exact emptyDict
  · exact .afterItems hv fun _ hitems => list hitems

theorem setUp (constructor : Constructor) {target : Value} (htarget : c.Outside target)
    {arguments : List Value} (hall : c.HasAll h arguments) :
    Tame c h Anything (Exec.setUp constructor target arguments) := by
  have harg := has_argument hall
  unfold Exec.setUp
  dsimp only
  split
  · exact done
  · exact done
  · exact done
  · exact done
  · exact setAttribute htarget _ (harg 0)
  · refine (setAttribute htarget _ (harg 0)).bind fun h' _ hkeeps _ => ?_
    split
    · exact setAttribute htarget _ ((harg 1).mono hkeeps)
    · exact done
  · refine setAttributes htarget ?_
    have hgrad : c.Has h (if (argument arguments 1).isNone then .bool true else argument arguments 1) := by
      split
      · trivial
      · exact harg 1
    simp [harg, hgrad]
  · refine setAttributes htarget ?_
    simp [harg]
  · split
    · exact unsupported _
    · refine setAttributes htarget ?_
      simp [harg]

theorem construct {id : Nat} (hid : ¬ c.inside id) {arguments : List Value} (hall : c.HasAll h arguments) :
    Tame c h c.Has (Exec.construct id arguments) := by
  have harg := has_argument hall
  refine .afterHeap fun _ => ?_
  split
  · exact typeFault _
  · next hc =>
      have hclass : ∀ made, some id = some made → c.Has h (.ref made) := fun made heq =>
        Option.some.inj heq ▸ ⟨Heap.has_of_class? hc, hid⟩
      split
      · exact made (.of_nil rfl rfl)
      · refine (record _ _ hclass).bind fun h' v hkeeps hv => ?_
        refine (setUp _ hv.outside (hall.mono hkeeps)).bind fun h'' _ hkeeps' _ => ?_
        exact pure (hv.mono hkeeps')
      · exact record _ _ hclass
      · exact convert _ (harg 0).outside
      · split
        · exact .afterItems (harg 0).outside fun _ hitems => list hitems
        · exact .afterItems (harg 0).outside fun _ hitems => list hitems
        · exact emptyDict
        · exact pure trivial

/-! ## Saved states -/

theorem restoreArray {target : Value} (htarget : c.Outside target) {shape type data : Value}
    (hshape : c.Has h shape) (htype : c.Has h type) (hdata : c.Has h data) :
    Tame c h Anything (Exec.restoreArray target shape type data) := by
  refine .afterHeap fun _ => .view (fun m => ?_) fun name => ?_
  · unfold Exec.className?
    split
    · exact ⟨_, rfl⟩
    · exact ⟨_, rfl⟩
  split
  extract_lets width restore
  have hrestore {h' : Heap} {data : Value} (hkeeps : h.KeepsKinds h') (hdata : c.Has h' data) :
      Tame c h' Anything (restore data) := by
    dsimp only [restore]
    split
    · refine modifyHeap fun hh => hh.modify htarget (fun o => by cases o <;> rfl) fun o ho => ?_
      cases o with
      | «instance» i =>
          refine .of_parts (fun v hv => ?_) rfl
          obtain ⟨e, he, rfl⟩ := List.mem_map.mp hv
          have hfields : ∀ e ∈ [("dtype", type), ("shape", shape), ("data", data)], c.Has h' e.2 := by
            simp [htype.mono hkeeps, hshape.mono hkeeps, hdata]
          exact hfields e (OrderedMap.mem_entries_ofList he)
      | _ => exact ho
    · exact done
  split
  · dsimp only
    split
    · have hfault (fault : TypeFault) : Tame c h c.Has (Exec.typeFault fault : Exec Value) := typeFault fault
      exact (hfault _).bind fun _ _ hkeeps hdata => hrestore hkeeps hdata
    · exact (bytes _).bind fun _ _ hkeeps hdata => hrestore hkeeps hdata
  · exact (pure hdata).bind fun _ _ hkeeps hdata => hrestore hkeeps hdata

theorem restoreLayout (constructor : Option Constructor) {target : Value} (htarget : c.Outside target)
    {state : List Value} (hstate : c.HasAll h state) :
    Tame c h Anything (Exec.restoreLayout constructor target state) := by
  have hmem {v : Value} (hv : v ∈ state) : c.Has h v := hstate v hv
  unfold Exec.restoreLayout
  split
  · exact (setAttribute htarget _ (hmem (by simp))).bind fun _ _ _ _ => done
  · exact (setAttribute htarget _ (hmem (by simp))).bind fun _ _ _ _ => done
  · refine (setAttributes htarget ?_).bind fun _ _ _ _ => done
    simp [hmem]
  · exact (restoreArray htarget (hmem (by simp)) (hmem (by simp)) (hmem (by simp))).bind
      fun _ _ _ _ => done
  · exact unsupported _
  · split
    · exact unsupported _
    · refine (setAttributes htarget fun e he => ?_).bind fun _ _ _ _ => done
      exact hmem (List.of_mem_zip he).2
  · exact done

theorem mergeState {target state : Value} (htarget : c.Outside target) (hstate : c.Outside state) :
    Tame c h Anything (Exec.mergeState target state) := by
  refine .afterHeap fun hh => ?_
  split
  · exact mergeEntries htarget (hh.dict? hstate ‹_›)
  · next items _ hitems =>
      have hall := hh.items? hstate hitems
      split
      · refine (Alike.forIn items fun h' item hkeeps hitem => .afterHeap fun hh' => ?_).bind
          fun _ _ _ _ => done
        split
        · exact (mergeEntries htarget (hh'.dict? (hall item hitem).outside ‹_›)).bind fun _ _ _ _ => done
        · exact done
      · refine setAttributes htarget fun e he => ?_
        obtain ⟨i, hi, rfl⟩ := List.mem_mapIdx.mp he
        exact hall _ (List.getElem_mem hi)
  · exact done

end Tame

end ModelGraph
