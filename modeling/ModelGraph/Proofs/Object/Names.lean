import Mathlib.Data.List.Basic
import Mathlib.Data.List.TakeWhile
import ModelGraph.Object.Basic

/-!
# Dotted names

The parts of a name determine it, and a name without dots is the last part of a longer one.
-/

namespace ModelGraph

theorem dotParts_ne_nil (name : String) : Script.dotParts name ≠ [] := by
  simp [Script.dotParts, List.splitOn_ne_nil]

theorem dotParts_eq_singleton {s : String} (hs : '.' ∉ s.toList) : Script.dotParts s = [s] := by
  rw [Script.dotParts, List.splitOn_eq_singleton hs, List.map_singleton, String.ofList_toList]

theorem dotParts_append (a b : String) :
    Script.dotParts (a ++ "." ++ b) = Script.dotParts a ++ Script.dotParts b := by
  have hdot : ".".toList = ['.'] := rfl
  rw [Script.dotParts, String.toList_append, String.toList_append, hdot, List.append_assoc,
    List.singleton_append, List.splitOn_append_cons_self, List.map_append]
  rfl

theorem dotParts_injective : Function.Injective Script.dotParts := by
  intro s s' heq
  have hinjective : Function.Injective String.ofList := fun _ _ => String.ofList_injective
  have hsplit := List.map_injective_iff.mpr hinjective heq
  have hchars := congrArg (['.'].intercalate ·) hsplit
  simp only [List.intercalate_splitOn] at hchars
  exact String.toList_injective hchars

theorem splitQualified_append {module name : String} (hname : '.' ∉ name.toList) :
    splitQualified (module ++ "." ++ name) = (module, name) := by
  have hdot : ".".toList = ['.'] := rfl
  have hreverse : (module ++ "." ++ name).toList.reverse =
      name.toList.reverse ++ '.' :: module.toList.reverse := by
    simp [String.toList_append, hdot]
  have hlast : (name.toList.reverse ++ '.' :: module.toList.reverse).takeWhile (· != '.') =
      name.toList.reverse := by
    rw [List.takeWhile_append_of_pos fun c hc => by simpa using ne_of_mem_of_not_mem (by simpa using hc) hname]
    simp
  unfold splitQualified
  simp only [hreverse, hlast, List.drop_left, List.reverse_reverse, String.ofList_toList]

/-- A name has no dot, or is cut at its last one. -/
theorem splitQualified_cases (name : String) :
    ('.' ∉ name.toList ∧ splitQualified name = ("", name)) ∨
      ∃ module member, name = module ++ "." ++ member ∧ '.' ∉ member.toList ∧
        splitQualified name = (module, member) := by
  by_cases hdot : '.' ∈ name.toList
  · obtain ⟨last, rest, hreverse, hlast⟩ := List.eq_append_cons_of_mem (List.mem_reverse.mpr hdot)
    have hname : name = String.ofList rest.reverse ++ "." ++ String.ofList last.reverse := by
      apply String.toList_injective
      rw [← List.reverse_reverse name.toList, hreverse]
      simp [String.toList_append]
    have hmember : '.' ∉ (String.ofList last.reverse).toList := by simpa using hlast
    refine .inr ⟨_, _, hname, hmember, ?_⟩
    rw [hname]
    exact splitQualified_append hmember
  · have hlast : name.toList.reverse.takeWhile (· != '.') = name.toList.reverse :=
      List.takeWhile_eq_self_iff.mpr fun c hc => by
        simpa using ne_of_mem_of_not_mem (List.mem_reverse.mp hc) hdot
    refine .inl ⟨hdot, ?_⟩
    unfold splitQualified
    simp only [hlast, List.drop_length]

theorem eq_or_eq_append_of_mem_getLast?_dotParts {name part : String}
    (hpart : part ∈ (Script.dotParts name).getLast?) :
    name = part ∨ ∃ module, name = module ++ "." ++ part := by
  rcases splitQualified_cases name with ⟨hdot, -⟩ | ⟨module, member, heq, hdot, -⟩
  · rw [dotParts_eq_singleton hdot, List.getLast?_singleton, Option.mem_some] at hpart
    exact .inl hpart
  · rw [heq, dotParts_append, dotParts_eq_singleton hdot, List.getLast?_concat, Option.mem_some] at hpart
    exact .inr ⟨module, hpart ▸ heq⟩

end ModelGraph
