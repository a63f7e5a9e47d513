import ModelGraph.Proofs.Object.Names
import ModelGraph.Proofs.Object.Paths

/-!
# Bound names

A dotted name that was bound means the value it was bound to, if each object on its path takes
attributes. The one exception is a path that comes back to the attribute which it sets: there the
binding changes the path itself. Nothing else that was there is changed.
-/

namespace ModelGraph.Heap

variable {h h' : Heap} {a b : Nat} {y : String} {path : List String}

theorem Grows.isSome_fields? {code : Prop} (hgrows : h.Grows code h') (ha : (h.fields? a).isSome) :
    (h'.fields? a).isSome := by
  obtain ⟨fields, hfields⟩ := Option.isSome_iff_exists.mp ha
  obtain ⟨o, ho, hown⟩ := Option.bind_eq_some_iff.mp hfields
  obtain ⟨o', ho', heq⟩ := hgrows.exists_get? ho
  rw [fields?, ho', Option.bind_some, ← Object.isSome_fields?_frame, heq, Object.isSome_fields?_frame,
    hown]
  rfl

/-- After the binding a clear path means the value, or what the rest of the path means from the value
where it has passed the same attribute before. -/
theorem resolve?_bindPath (hfields : (h.fields? a).isSome) (hclear : h.Clear a path) {v : Value}
    (hv : v ≠ .none) (around : Scope) :
    (h.bindPath (.ref a) path v).resolve? (a :: around) path = some v ∨
      ∃ rest, h.PassedBefore a path rest ∧
        (h.bindPath (.ref a) path v).resolve? (a :: around) path =
          (h.bindPath (.ref a) path v).follow? v rest := by
  obtain ⟨p, last, rest, b, hp, hwalk, hlast, hrest⟩ := exists_passage_bindPath hclear v
  have hgrows : h.Grows False (h.bindPath (.ref a) path v) := grows_bindPath _ _ _ _
  have hmeans := resolve?_of_passage (hgrows.isSome_fields? hfields) hwalk hlast around rest
  rw [← hp] at hmeans
  rcases hrest with rfl | hpassed
  · refine .inl (hmeans.trans (if_neg fun hnone => hv ?_))
    cases v <;> first | rfl | cases hnone
  · exact .inr ⟨rest, hpassed, hmeans⟩

/-- What was there keeps its attributes, up to those on the path. -/
theorem exists_edge?_bindPath (hpath : path ≠ []) (v : Value) {u : Value} (hy : h.edge? a y = some u) :
    ∃ u', (h.bindPath (.ref b) path v).edge? a y = some u' ∧
      (u' = u ∨ ∃ p, p ++ [y] <+: path ∧ h.walk? b p = some a) := by
  obtain ⟨p, x, w, hp, -, hget⟩ := get?_bindPath h b hpath v
  obtain ⟨o, ho, hown⟩ := Option.bind_eq_some_iff.mp hy
  rw [edge?, hget a (lt_size_of_get? ho), ho]
  by_cases hwalk : h.walk? b p = some a
  · rw [if_pos hwalk, Option.map_some, Option.bind_some, Object.own?_setOwn]
    by_cases hxy : x = y
    · subst hxy
      exact ⟨w, if_pos ⟨rfl, Object.takes_of_own? hown⟩, .inr ⟨p, hp, hwalk⟩⟩
    · exact ⟨u, by rw [if_neg fun h => hxy h.1, hown], .inl rfl⟩
  · exact ⟨u, by rw [if_neg hwalk, Option.bind_some, hown], .inl rfl⟩

/-- A bound name means the value it was bound to, where each object on its path takes attributes and
the path does not pass the attribute that it sets before its end; if it does, the rest of the path
goes on from the value. Of the objects that were there one is changed, in one attribute on the
path. -/
theorem resolve?_bind (hfields : (h.fields? a).isSome) (around : Scope) (name : String) {v : Value}
    (hv : v ≠ .none) :
    (h.Clear a (Script.dotParts name) →
      (h.bind (a :: around) (Script.dotParts name) v).resolve? (a :: around) (Script.dotParts name) =
          some v ∨
        ∃ rest, h.PassedBefore a (Script.dotParts name) rest ∧
          (h.bind (a :: around) (Script.dotParts name) v).resolve? (a :: around)
              (Script.dotParts name) =
            (h.bind (a :: around) (Script.dotParts name) v).follow? v rest) ∧
    (∃ p x w, p ++ [x] <+: Script.dotParts name ∧ ∀ b o, h.get? b = some o →
      (h.bind (a :: around) (Script.dotParts name) v).get? b =
        some (if h.walk? a p = some b then o.setOwn x w else o)) ∧
    ∀ b y u, h.edge? b y = some u → ∃ u',
      (h.bind (a :: around) (Script.dotParts name) v).edge? b y = some u' ∧
        (u' = u ∨ ∃ p, p ++ [y] <+: Script.dotParts name ∧ h.walk? a p = some b) := by
  refine ⟨fun hclear => resolve?_bindPath hfields hclear hv around, ?_,
    fun b y u hy => exists_edge?_bindPath (dotParts_ne_nil name) v hy⟩
  obtain ⟨p, x, w, hp, -, hget⟩ := get?_bindPath h a (dotParts_ne_nil name) v
  refine ⟨p, x, w, hp, fun b o ho => (hget b (lt_size_of_get? ho)).trans ?_⟩
  rw [ho]
  split_ifs <;> rfl

namespace Bound

/-- A namespace that leads to a dictionary, in which a name stands for nothing. -/
def heap : Heap := ⟨#[
  .namespace { fields := ⟨[("torch", .ref 1)]⟩ },
  .dict ⟨[(.str "nn", .none)]⟩]⟩

/-- A namespace that leads to a record with itself in a field. -/
def loop : Heap := ⟨#[
  .namespace { fields := ⟨[("n", .ref 1)]⟩ },
  .instance { module := "m", name := "N", fields := ⟨[("a", .ref 1)]⟩ }]⟩

end Bound

theorem resolve?_bind_through_dictionary :
    (Bound.heap.fields? 0).isSome ∧ Value.int 7 ≠ .none ∧
    Bound.heap.Clear 0 (Script.dotParts "torch.nn.Module") ∧
    (Bound.heap.bind [0] (Script.dotParts "torch.nn.Module") (.int 7)).resolve? [0]
      (Script.dotParts "torch.nn.Module") = some (.int 7) := by
  have hparts : Script.dotParts "torch.nn.Module" = ["torch", "nn", "Module"] := by decide +kernel
  have hfields : (Bound.heap.fields? 0).isSome := rfl
  have hclear : Bound.heap.Clear 0 (Script.dotParts "torch.nn.Module") := by
    rw [hparts]
    refine ⟨⟨_, rfl, rfl⟩, fun next hnext => ?_⟩
    cases hnext
    exact ⟨⟨_, rfl, rfl⟩, nofun⟩
  refine ⟨hfields, nofun, hclear, ?_⟩
  refine ((resolve?_bind hfields [] "torch.nn.Module" (v := .int 7) nofun).1 hclear).resolve_right ?_
  -- The path is not there to its end, so it does not come back.
  rintro ⟨rest, ⟨-, front, p, last, b, hfront, -, hend, -⟩, -⟩
  have heq : front = ["torch", "nn"] := by
    simpa [hparts] using (congrArg List.dropLast hfront).symm
  have hnone : Bound.heap.walk? 0 ["torch", "nn"] = none := rfl
  rw [heq, hnone] at hend
  cases hend

/-- A path that passes the attribute which it sets leads elsewhere afterwards. -/
theorem not_resolve?_bind_of_loop :
    ¬∀ (h : Heap) (a : Nat) (around : Scope) (name : String) (v : Value), (h.fields? a).isSome →
      (∀ part ∈ Script.dotParts name, part ≠ "") → v ≠ .none →
      (h.bind (a :: around) (Script.dotParts name) v).resolve? (a :: around) (Script.dotParts name) =
        some v := by
  intro hmeans
  have hloop : (Bound.loop.bind [0] (Script.dotParts "n.a.a") (.int 5)).resolve? [0]
      (Script.dotParts "n.a.a") = none := by decide +kernel
  have hparts : ∀ part ∈ Script.dotParts "n.a.a", part ≠ "" := by decide +kernel
  have hfound := hmeans Bound.loop 0 [] "n.a.a" (.int 5) rfl hparts nofun
  rw [hloop] at hfound
  cases hfound

end ModelGraph.Heap
