import Mathlib.Data.Finset.Card
import Mathlib.Data.Finset.Range
import Mathlib.Logic.Relation
import ModelGraph.Graph.ModuleTree

/-!
# What walks visit

A walk visits what can be reached, each object once, if its limit is not below the number of objects.
Neither the order of what is waiting nor that of what follows an object matters.
-/

open Relation

namespace ModelGraph

variable {next : Nat → List Nat} {seen queue visited : List Nat}

theorem mem_unseen {items : List Nat} {i : Nat} : i ∈ unseen seen items ↔ i ∈ items ∧ i ∉ seen := by
  simp [unseen]

theorem nodup_eraseDups : (items : List Nat) → items.eraseDups.Nodup
  | [] => List.nodup_nil
  | i :: rest => by
      rw [List.eraseDups_cons, List.nodup_cons]
      exact ⟨by simp, nodup_eraseDups (rest.filter fun j => !j == i)⟩
termination_by items => items.length
decreasing_by exact Nat.lt_succ_of_le (List.length_filter_le _ rest)

theorem nodup_unseen (seen items : List Nat) : (unseen seen items).Nodup := by
  unfold unseen
  exact nodup_eraseDups _

/-- A walk that goes on until nothing waits: some order of what waits, with the items that follow the
one visited and are not seen yet. -/
inductive Visits (next : Nat → List Nat) : (seen queue visited : List Nat) → Prop
  | done (seen : List Nat) : Visits next seen [] []
  | visit {seen queue waiting visited new : List Nat} {id : Nat} (hnodup : new.Nodup)
      (hnew : ∀ i, i ∈ new ↔ i ∈ next id ∧ i ∉ seen) (hwaiting : waiting.Perm (queue ++ new))
      (rest : Visits next (seen ++ new) waiting visited) :
      Visits next seen (id :: queue) (id :: visited)

namespace Visits

theorem queue_subset (h : Visits next seen queue visited) : queue ⊆ visited := by
  induction h with
  | done => exact List.nil_subset _
  | visit _ _ hwaiting _ ih =>
      intro i hi
      obtain rfl | hi := List.mem_cons.mp hi
      · exact List.mem_cons_self
      · exact List.mem_cons_of_mem _ (ih (hwaiting.mem_iff.mpr (List.mem_append_left _ hi)))

theorem closed (h : Visits next seen queue visited) {i j : Nat} (hi : i ∈ visited)
    (hj : j ∈ next i) : j ∈ seen ∨ j ∈ visited := by
  induction h with
  | done => cases hi
  | @visit seen _ _ _ _ _ _ hnew hwaiting rest ih =>
      have hadded {j : Nat} (hj : j ∈ _) : j ∈ _ :=
        rest.queue_subset (hwaiting.mem_iff.mpr (List.mem_append_right _ hj))
      obtain rfl | hi := List.mem_cons.mp hi
      · by_cases hseen : j ∈ seen
        · exact .inl hseen
        · exact .inr (List.mem_cons_of_mem _ (hadded ((hnew j).mpr ⟨hj, hseen⟩)))
      · obtain hj | hj := ih hi
        · obtain hj | hj := List.mem_append.mp hj
          · exact .inl hj
          · exact .inr (List.mem_cons_of_mem _ (hadded hj))
        · exact .inr (List.mem_cons_of_mem _ hj)

theorem reachable (h : Visits next seen queue visited) {i : Nat} (hi : i ∈ visited) :
    ∃ q ∈ queue, ReflTransGen (fun a b => b ∈ next a) q i := by
  induction h with
  | done => cases hi
  | visit _ hnew hwaiting _ ih =>
      obtain rfl | hi := List.mem_cons.mp hi
      · exact ⟨_, List.mem_cons_self, .refl⟩
      · obtain ⟨q, hq, hpath⟩ := ih hi
        obtain hq | hq := List.mem_append.mp (hwaiting.mem_iff.mp hq)
        · exact ⟨q, List.mem_cons_of_mem _ hq, hpath⟩
        · exact ⟨_, List.mem_cons_self, .head ((hnew q).mp hq).1 hpath⟩

theorem nodup (h : Visits next seen queue visited) (hqueue : queue.Nodup) (hseen : queue ⊆ seen) :
    visited.Nodup ∧ ∀ i ∈ visited, i ∈ queue ∨ i ∉ seen := by
  induction h with
  | done => simp
  | @visit seen queue waiting visited new id hnodup hnew hwaiting _ ih =>
      obtain ⟨hid, hqueue⟩ := List.nodup_cons.mp hqueue
      have hapart : ∀ i ∈ new, i ∉ seen := fun i hi => ((hnew i).mp hi).2
      have hdisjoint : List.Disjoint queue new := fun i hi hnew =>
        hapart i hnew (hseen (List.mem_cons_of_mem _ hi))
      obtain ⟨hvisited, hold⟩ := ih
        (hwaiting.nodup_iff.mpr (List.Nodup.append hqueue hnodup hdisjoint)) (by
          intro i hi
          obtain hi | hi := List.mem_append.mp (hwaiting.mem_iff.mp hi)
          · exact List.mem_append_left _ (hseen (List.mem_cons_of_mem _ hi))
          · exact List.mem_append_right _ hi)
      have hwhere : ∀ i ∈ visited, i ∈ queue ∨ i ∉ seen := by
        intro i hi
        obtain hi | hi := hold i hi
        · obtain hi | hi := List.mem_append.mp (hwaiting.mem_iff.mp hi)
          · exact .inl hi
          · exact .inr (hapart i hi)
        · exact .inr fun hmem => hi (List.mem_append_left _ hmem)
      constructor
      · rw [List.nodup_cons]
        refine ⟨?_, hvisited⟩
        intro hmem
        obtain hmem | hmem := hwhere id hmem
        · exact hid hmem
        · exact hmem (hseen List.mem_cons_self)
      · intro i hi
        obtain rfl | hi := List.mem_cons.mp hi
        · exact .inl List.mem_cons_self
        · exact (hwhere i hi).imp_left (List.mem_cons_of_mem _)

/-- From one object a walk visits what is reached from it. -/
theorem mem_iff {root i : Nat} (h : Visits next [root] [root] visited) :
    i ∈ visited ↔ ReflTransGen (fun a b => b ∈ next a) root i := by
  constructor
  · intro hi
    obtain ⟨q, hq, hpath⟩ := h.reachable hi
    rwa [List.mem_singleton.mp hq] at hpath
  · intro hpath
    have hroot : root ∈ visited := h.queue_subset List.mem_cons_self
    induction hpath with
    | refl => exact hroot
    | tail _ hstep ih =>
        obtain hj | hj := h.closed ih hstep
        · rwa [List.mem_singleton.mp hj]
        · exact hj

theorem nodup_of_root {root : Nat} (h : Visits next [root] [root] visited) : visited.Nodup :=
  (h.nodup (List.nodup_singleton root) (List.Subset.refl _)).1

end Visits

/-! ## Limits -/

/-- How many visits are left: what waits, and the objects below a bound that are not seen. -/
def remainingVisits (bound : Nat) (seen queue : List Nat) : Nat :=
  ((Finset.range bound).filter (· ∉ seen)).card + queue.length

theorem remainingVisits_visit (bound id : Nat) (queue : List Nat) {new waiting : List Nat} (hnodup : new.Nodup)
    (hnew : ∀ i ∈ new, i < bound ∧ i ∉ seen) (hwaiting : waiting.Perm (queue ++ new)) :
    remainingVisits bound (seen ++ new) waiting + 1 = remainingVisits bound seen (id :: queue) := by
  have hsplit : (Finset.range bound).filter (· ∉ seen) =
      (Finset.range bound).filter (· ∉ seen ++ new) ∪ new.toFinset := by
    ext i
    simp only [Finset.mem_filter, Finset.mem_range, Finset.mem_union, List.mem_toFinset,
      List.mem_append]
    have := hnew i
    tauto
  have hdisjoint : Disjoint ((Finset.range bound).filter (· ∉ seen ++ new)) new.toFinset := by
    rw [Finset.disjoint_left]
    intro i hi hmem
    exact (Finset.mem_filter.mp hi).2 (List.mem_append_right _ (List.mem_toFinset.mp hmem))
  unfold remainingVisits
  rw [hsplit, Finset.card_union_of_disjoint hdisjoint, List.toFinset_card_of_nodup hnodup,
    hwaiting.length_eq, List.length_append, List.length_cons]
  omega

variable {bound : Nat}

theorem visits_breadthFirst (hbound : ∀ i, ∀ j ∈ next i, j < bound) {limit : Nat}
    (hlimit : remainingVisits bound seen queue ≤ limit) :
    Visits next seen queue (breadthFirst next limit seen queue) := by
  induction limit generalizing seen queue with
  | zero =>
      cases queue with
      | nil => exact .done seen
      | cons id queue => simp [remainingVisits] at hlimit
  | succ limit ih =>
      cases queue with
      | nil => exact .done seen
      | cons id queue =>
          have hnew : ∀ i, i ∈ unseen seen (next id) ↔ i ∈ next id ∧ i ∉ seen := fun i => mem_unseen
          refine .visit (nodup_unseen seen (next id)) hnew (.refl _) (ih ?_)
          have hleft := remainingVisits_visit bound id queue (nodup_unseen seen (next id))
            (fun i hi => ⟨hbound id i ((hnew i).mp hi).1, ((hnew i).mp hi).2⟩) (.refl _)
          omega

theorem visits_depthFirst (hbound : ∀ i, ∀ j ∈ next i, j < bound) {limit : Nat}
    (hlimit : remainingVisits bound seen queue ≤ limit) :
    Visits next seen queue (depthFirst next limit seen queue) := by
  induction limit generalizing seen queue with
  | zero =>
      cases queue with
      | nil => exact .done seen
      | cons id queue => simp [remainingVisits] at hlimit
  | succ limit ih =>
      cases queue with
      | nil => exact .done seen
      | cons id queue =>
          have hnodup := List.nodup_reverse.mpr (nodup_unseen seen (next id).reverse)
          have hnew : ∀ i, i ∈ (unseen seen (next id).reverse).reverse ↔ i ∈ next id ∧ i ∉ seen := by
            intro i
            rw [List.mem_reverse, mem_unseen, List.mem_reverse]
          refine .visit hnodup hnew List.perm_append_comm (ih ?_)
          have hleft := remainingVisits_visit bound id queue hnodup
            (fun i hi => ⟨hbound id i ((hnew i).mp hi).1, ((hnew i).mp hi).2⟩) List.perm_append_comm
          omega

theorem remainingVisits_root (bound root : Nat) : remainingVisits bound [root] [root] ≤ bound + 1 := by
  have hle : ((Finset.range bound).filter (· ∉ [root])).card ≤ bound := by
    simpa using Finset.card_filter_le (Finset.range bound) (· ∉ [root])
  unfold remainingVisits
  simpa using hle

end ModelGraph
