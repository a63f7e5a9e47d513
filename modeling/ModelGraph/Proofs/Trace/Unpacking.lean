import Mathlib.Data.List.Basic
import ModelGraph.Proofs.OrderedMap
import ModelGraph.Proofs.Trace.Matching

/-!
# Packed records among arguments

A packed record at the front of the arguments is replaced by what is packed in it. If no other argument
is packed, and nothing in the record, the front stays what it is from then on, whatever parameters look
at it; and the naming of tensors packs nothing.
-/

namespace ModelGraph

open Exec

variable {m m' : Machine}

namespace Heap

/-- The fields of a record that stands for the values packed in it. -/
def packed? (h : Heap) (v : Value) : Option Fields :=
  ((h.instance? v).filter fun i => i.module = "__torch__.torch.classes.quantized" ∨
    i.module = "__torch__.torch.classes.xnnpack").map (·.fields)

theorem packed?_of_instance {h : Heap} {v : Value} {i : Instance} (hinstance : h.instance? v = some i)
    (hmodule : i.module = "__torch__.torch.classes.quantized" ∨
      i.module = "__torch__.torch.classes.xnnpack") : h.packed? v = some i.fields := by
  unfold packed?
  rw [hinstance, Option.filter_some, if_pos (decide_eq_true hmodule)]
  rfl

/-- At most one argument is a packed record, and nothing in it is packed again. -/
structure LonePacked (h : Heap) (arguments : List PendingArgument) : Prop where
  atMostOne : (arguments.filter fun a => (h.packed? a.2).isSome).length ≤ 1
  flat : ∀ {a fields}, a ∈ arguments → h.packed? a.2 = some fields →
    ∀ e ∈ fields.entries, h.packed? e.2 = none

namespace LonePacked

variable {h : Heap} {arguments rest : List PendingArgument} {first : PendingArgument}

theorem of_none (hnone : ∀ a ∈ arguments, h.packed? a.2 = none) : h.LonePacked arguments where
  atMostOne := by
    rw [List.filter_eq_nil_iff.mpr fun a ha => by simp [hnone a ha]]
    exact Nat.zero_le 1
  flat ha hpacked := by
    rw [hnone _ ha] at hpacked
    cases hpacked

theorem tail (hlone : h.LonePacked (first :: rest)) : h.LonePacked rest where
  atMostOne := Nat.le_trans (List.Sublist.length_le ((List.sublist_cons_self first rest).filter _))
    hlone.atMostOne
  flat ha := hlone.flat (List.mem_cons_of_mem _ ha)

theorem none_after (hlone : h.LonePacked (first :: rest)) {fields : Fields}
    (hfirst : h.packed? first.2 = some fields) : ∀ a ∈ rest, h.packed? a.2 = none := by
  have hcount := hlone.atMostOne
  rw [List.filter_cons_of_pos (by simp [hfirst]), List.length_cons] at hcount
  have hnil : rest.filter (fun a => (h.packed? a.2).isSome) = [] :=
    List.length_eq_zero_iff.mp (by omega)
  simpa using hnil

theorem spread (hlone : h.LonePacked (first :: rest)) {fields : Fields}
    (hfirst : h.packed? first.2 = some fields) {unpacked : List PendingArgument}
    (hparts : ∀ a ∈ unpacked, a ∈ rest ∨ a.2 = .none ∨ ∃ name, (name, a.2) ∈ fields.entries) :
    ∀ a ∈ unpacked, h.packed? a.2 = none := by
  intro a ha
  obtain ha | hnone | ⟨name, hmem⟩ := hparts a ha
  · exact hlone.none_after hfirst a ha
  · rw [hnone]
    rfl
  · exact hlone.flat List.mem_cons_self hfirst _ hmem

end LonePacked

theorem packed_part (fields : Fields) (name : String) :
    (fields.get? name).getD .none = .none ∨
      ∃ name', (name', (fields.get? name).getD .none) ∈ fields.entries := by
  cases hget : fields.get? name with
  | none => exact .inl rfl
  | some v => exact .inr ⟨name, OrderedMap.mem_entries_of_get? hget⟩

/-- Unpacking leaves no packed record at the front. -/
theorem unpackFront_ok {h : Heap} {arguments rest : List PendingArgument} {next : PendingArgument}
    (hlone : h.LonePacked arguments) (hunpack : unpackFront h arguments = .ok (next :: rest)) :
    h.LonePacked (next :: rest) ∧ h.packed? next.2 = none := by
  have hdone (hnone : ∀ a ∈ next :: rest, h.packed? a.2 = none) :
      h.LonePacked (next :: rest) ∧ h.packed? next.2 = none :=
    ⟨.of_none hnone, hnone next List.mem_cons_self⟩
  cases arguments with
  | nil => cases hunpack
  | cons first others =>
      obtain ⟨keyword, front⟩ := first
      unfold unpackFront at hunpack
      dsimp only at hunpack
      cases hinstance : h.instance? front with
      | none =>
          rw [hinstance] at hunpack
          cases hunpack
          exact ⟨hlone, by simp [packed?, hinstance]⟩
      | some i =>
          rw [hinstance] at hunpack
          dsimp only at hunpack
          split_ifs at hunpack with hquantized hname hxnnpack hname'
          · refine hdone (hlone.spread (packed?_of_instance hinstance (.inl hquantized)) ?_)
            rw [← Except.ok.inj hunpack]
            rintro a (_ | ⟨_, _ | ⟨_, ha⟩⟩)
            · exact .inr (packed_part i.fields "weight")
            · exact .inr (packed_part i.fields "bias")
            · exact .inl ha
          · refine hdone (hlone.spread (packed?_of_instance hinstance (.inr hxnnpack)) ?_)
            rw [← Except.ok.inj hunpack]
            intro a ha
            obtain ha | ha := List.mem_append.mp ha
            · exact .inl ha
            · obtain ⟨e, he, rfl⟩ := List.mem_map.mp ha
              exact .inr (.inr ⟨e.1, List.mem_of_mem_filter he⟩)
          · cases hunpack
            exact ⟨hlone, by simp [packed?, hinstance, hquantized, hxnnpack]⟩

theorem unpackFront_of_none {h : Heap} {next : PendingArgument} {rest : List PendingArgument}
    (hnext : h.packed? next.2 = none) : unpackFront h (next :: rest) = .ok (next :: rest) := by
  obtain ⟨keyword, front⟩ := next
  unfold unpackFront
  dsimp only
  cases hinstance : h.instance? front with
  | none => rfl
  | some i =>
      have hmodule : i.module ≠ "__torch__.torch.classes.quantized" ∧
          i.module ≠ "__torch__.torch.classes.xnnpack" := by
        simpa [packed?, hinstance] using hnext
      dsimp only
      rw [if_neg hmodule.1, if_neg hmodule.2]

/-- The second heap has no packed records but those of the first, with the same fields. -/
def KeepsPacked (h h' : Heap) : Prop :=
  ∀ v fields, h'.packed? v = some fields → h.packed? v = some fields

namespace KeepsPacked

variable {h h' h'' : Heap}

theorem refl (h : Heap) : h.KeepsPacked h := fun _ _ hpacked => hpacked

theorem trans (first : h.KeepsPacked h') (second : h'.KeepsPacked h'') : h.KeepsPacked h'' :=
  fun v fields hpacked => first v fields (second v fields hpacked)

theorem push_record (h : Heap) :
    h.KeepsPacked (h.push (.instance { module := "", name := "" })) := by
  intro v fields hpacked
  cases v with
  | ref id =>
      unfold packed? instance? object? at hpacked ⊢
      simp only [Value.ref?, Option.bind_some, get?_push] at hpacked ⊢
      split_ifs at hpacked with hid
      · simp at hpacked
      · exact hpacked
  | _ => cases hpacked

theorem modifyTag (h : Heap) (id : Nat) (change : Tag → Tag) :
    h.KeepsPacked (h.modifyTag id change) := by
  intro v fields hpacked
  cases v with
  | ref other =>
      unfold packed? instance? object? Heap.modifyTag at hpacked
      unfold packed? instance? object?
      simp only [Value.ref?, Option.bind_some, get?, modify, Array.getElem?_modify] at hpacked ⊢
      split_ifs at hpacked with hid
      · rcases hobject : h.objects[other]? with _ | o <;> rw [hobject] at hpacked
        · cases hpacked
        · cases o <;> first | exact hpacked | simpa using hpacked
      · exact hpacked
  | _ => cases hpacked

theorem lonePacked (hkeeps : h.KeepsPacked h') {arguments : List PendingArgument}
    (hlone : h.LonePacked arguments) : h'.LonePacked arguments where
  atMostOne := by
    apply Nat.le_trans _ hlone.atMostOne
    apply List.Sublist.length_le
    apply List.monotone_filter_right
    intro a ha
    obtain ⟨fields, hpacked⟩ := Option.isSome_iff_exists.mp ha
    rw [hkeeps _ _ hpacked]
    rfl
  flat ha hpacked e he := by
    have hnone := hlone.flat ha (hkeeps _ _ hpacked) e he
    cases hpacked' : h'.packed? e.2 with
    | none => rfl
    | some fields =>
        rw [hkeeps _ _ hpacked'] at hnone
        cases hnone

end KeepsPacked

end Heap

theorem heap_freshName (m : Machine) : (freshName.outcome m).2.heap = m.heap := by
  rw [Machine.freshName_eq]
  rfl

theorem keepsPacked_name {object : Nat} {named : TracedValue}
    (h : (do
      match ((← heap).tag? object).bind (·.name?) with
      | some name => return ⟨name, object⟩
      | none =>
        let name ← freshName
        modifyHeap (·.modifyTag object fun t => { t with name? := some name })
        return ⟨name, object⟩ : Exec TracedValue).outcome m = (.ok named, m')) :
    m.heap.KeepsPacked m'.heap := by
  rw [outcome_bind_ok (outcome_heap m)] at h
  split at h
  · cases h
    exact .refl _
  · obtain ⟨name, m₁, hname, h⟩ := outcome_bind_eq_ok h
    have hheap := heap_freshName m
    rw [hname] at hheap
    cases h
    rw [← hheap]
    exact Heap.KeepsPacked.modifyTag m₁.heap object _

theorem keepsPacked_nameInput {v : Value} {named : TracedValue}
    (h : (nameInput v).outcome m = (.ok named, m')) : m.heap.KeepsPacked m'.heap := by
  unfold nameInput at h
  rw [outcome_bind_ok (outcome_heap m)] at h
  dsimp only at h
  split at h
  · exact keepsPacked_name h
  · obtain ⟨made, m₁, hmade, h⟩ := outcome_bind_eq_ok h
    cases hmade
    exact (Heap.KeepsPacked.push_record m.heap).trans (keepsPacked_name h)

theorem keepsPacked_nameInputs {values : List Value} {named : List TracedValue}
    (h : (values.mapM nameInput).outcome m = (.ok named, m')) : m.heap.KeepsPacked m'.heap := by
  induction values generalizing m named with
  | nil =>
      cases h
      exact .refl _
  | cons value rest ih =>
      rw [List.mapM_cons] at h
      obtain ⟨first, m₁, hfirst, h⟩ := outcome_bind_eq_ok h
      obtain ⟨others, m₂, hothers, h⟩ := outcome_bind_eq_ok h
      cases h
      exact (keepsPacked_nameInput hfirst).trans (ih hothers)

end ModelGraph
