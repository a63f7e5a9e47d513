import Mathlib.Data.List.Basic
import Mathlib.Data.List.Induction
import Mathlib.Data.List.TakeWhile
import ModelGraph.Operator.Catalog
import ModelGraph.Proofs.OrderedMap

/-!
# Catalogs by what was inserted

A catalog is read off the schemas inserted into it: under a name stands the schema that was inserted
last, and beside it the overloads of that name as they came, repetitions included. An operator
without a schema of its own therefore lists its overloads once each, as they are found under their
own names, exactly if none was inserted twice. Answers that are remembered between insertions are
those that the schemas inserted so far give.
-/

namespace ModelGraph.Operator

namespace Catalog

/-! ## Names of overloads -/

/-- The name is that of an operator, a colon and a suffix. -/
def IsOverload (name base : String) : Prop :=
  ':' ∉ base.toList ∧ ∃ suffix, name = base ++ ":" ++ suffix

theorem overloadBase?_append {base : String} (hbase : ':' ∉ base.toList) (suffix : String) :
    overloadBase? (base ++ ":" ++ suffix) = some base := by
  have hname : (base ++ ":" ++ suffix).toList = base.toList ++ ':' :: suffix.toList := by
    simp [String.toList_append]
  have hall : ∀ c ∈ base.toList, (!(c == ':')) = true := fun c hc => by
    simpa using ne_of_mem_of_not_mem hc hbase
  have hbefore : (base.toList ++ ':' :: suffix.toList).takeWhile (fun c => !(c == ':')) =
      base.toList := by
    rw [List.takeWhile_append_of_pos hall]
    simp
  have hafter : (base.toList ++ ':' :: suffix.toList).dropWhile (fun c => !(c == ':')) =
      ':' :: suffix.toList := by
    rw [List.dropWhile_append_of_pos hall]
    simp
  simp [overloadBase?, splitAtFirst, hname, hbefore, hafter]

theorem overloadBase?_eq_none {name : String} (hname : ':' ∉ name.toList) :
    overloadBase? name = none := by
  have hafter : name.toList.dropWhile (fun c => !(c == ':')) = [] :=
    List.dropWhile_eq_nil_iff.mpr fun c hc => by simpa using ne_of_mem_of_not_mem hc hname
  simp [overloadBase?, splitAtFirst, hafter]

theorem overloadBase?_eq_some_iff {name base : String} :
    overloadBase? name = some base ↔ IsOverload name base := by
  constructor
  · intro hname
    by_cases hcolon : ':' ∈ name.toList
    · obtain ⟨before, after, hsplit, hbefore⟩ := List.eq_append_cons_of_mem hcolon
      have heq : name = String.ofList before ++ ":" ++ String.ofList after := by
        apply String.toList_injective
        simp [hsplit, String.toList_append]
      have hbase : ':' ∉ (String.ofList before).toList := by simpa using hbefore
      rw [heq, overloadBase?_append hbase] at hname
      cases hname
      exact ⟨hbase, _, heq⟩
    · rw [overloadBase?_eq_none hcolon] at hname
      cases hname
  · rintro ⟨hbase, suffix, rfl⟩
    exact overloadBase?_append hbase suffix

instance (name base : String) : Decidable (IsOverload name base) :=
  decidable_of_iff (overloadBase? name = some base) overloadBase?_eq_some_iff

/-! ## One insertion -/

/-- What is known under a name; of an unknown one, nothing. -/
def entry (c : Catalog) (name : String) : CatalogEntry := (c.types.get? name).getD {}

theorem schemas_eq (c : Catalog) (name : String) :
    c.schemas name = (c.entry name).schema.elim (c.entry name).overloads fun s => [s] := by
  unfold schemas entry
  cases c.types.get? name with
  | none => rfl
  | some e => cases h : e.schema <;> simp [h]

theorem primary?_eq (c : Catalog) (name : String) :
    c.primary? name = (c.entry name).schema.or (c.entry name).overloads.head? := by
  unfold primary? entry
  cases c.types.get? name <;> rfl

theorem attribute?_eq (c : Catalog) (type name : String) :
    c.attribute? type name =
      (((c.primary? type).map (·.parameters)).getD []).reverse.find? (·.name = name) := by
  unfold attribute?
  cases c.primary? type <;> rfl

theorem entry_insert (c : Catalog) (s : Schema) (name : String) :
    (c.insert s).entry name =
      { schema := if s.name = name then some s else (c.entry name).schema
        overloads := if IsOverload s.name name then (c.entry name).overloads ++ [s]
          else (c.entry name).overloads } := by
  unfold insert entry
  simp only [← overloadBase?_eq_some_iff]
  cases overloadBase? s.name with
  | none =>
      simp only [OrderedMap.update, OrderedMap.get?_insert]
      by_cases hname : name = s.name
      · simp [hname]
      · simp [hname, Ne.symm hname]
  | some base =>
      simp only [OrderedMap.update, OrderedMap.get?_insert, Option.some.injEq]
      by_cases hname : name = s.name <;> by_cases hbase : name = base
      · simp [← hname, ← hbase]
      · simp [hname, Ne.symm (hname ▸ hbase), hname ▸ hbase]
      · simp [hname, Ne.symm hname, ← hbase]
      · simp [hname, Ne.symm hname, hbase, Ne.symm hbase]

/-! ## All insertions -/

theorem ofList_concat (inserted : List Schema) (s : Schema) :
    ofList (inserted ++ [s]) = (ofList inserted).insert s :=
  List.foldl_concat ..

/-- The schema that was inserted last under a name. -/
def latest? (inserted : List Schema) (name : String) : Option Schema :=
  inserted.reverse.find? (·.name = name)

/-- The overloads of an operator, as they were inserted. -/
def overloads (inserted : List Schema) (base : String) : List Schema :=
  inserted.filter fun s => IsOverload s.name base

theorem entry_ofList (inserted : List Schema) (name : String) :
    (ofList inserted).entry name = ⟨latest? inserted name, overloads inserted name⟩ := by
  induction inserted using List.reverseRecOn with
  | nil => rfl
  | append_singleton inserted s ih =>
      rw [ofList_concat, entry_insert, ih, CatalogEntry.mk.injEq]
      constructor
      · by_cases hname : s.name = name <;> simp [latest?, hname]
      · by_cases hname : IsOverload s.name name <;> simp [overloads, hname]

theorem latest?_eq_none_iff {inserted : List Schema} {name : String} :
    latest? inserted name = none ↔ ∀ s ∈ inserted, s.name ≠ name := by
  simp [latest?]

theorem latest?_eq_some {inserted : List Schema} {name : String} {s : Schema}
    (hs : latest? inserted name = some s) : s ∈ inserted ∧ s.name = name :=
  ⟨List.mem_reverse.mp (List.mem_of_find?_eq_some hs), by simpa using List.find?_some hs⟩

theorem mem_overloads {inserted : List Schema} {base : String} {s : Schema} :
    s ∈ overloads inserted base ↔ s ∈ inserted ∧ IsOverload s.name base := by
  simp [overloads]

/-- A schema stands alone under its own name: the one inserted last under it. -/
theorem schemas_ofList_of_mem {inserted : List Schema} {s : Schema} (hs : s ∈ inserted) :
    ∃ newest ∈ inserted, newest.name = s.name ∧ latest? inserted s.name = some newest ∧
      (ofList inserted).schemas s.name = [newest] := by
  cases hlatest : latest? inserted s.name with
  | none => exact absurd rfl (latest?_eq_none_iff.mp hlatest s hs)
  | some newest =>
      obtain ⟨hmem, hname⟩ := latest?_eq_some hlatest
      refine ⟨newest, hmem, hname, rfl, ?_⟩
      rw [schemas_eq, entry_ofList, hlatest]
      rfl

/-- What an operator without a schema of its own lists: its overloads in the order of insertion. Each
is found alone under its own name, in its last version, and so both look-ups agree exactly if no
overload was inserted twice. -/
theorem schemas_ofList_base {inserted : List Schema} {base : String}
    (hown : ∀ s ∈ inserted, s.name ≠ base) :
    (ofList inserted).schemas base = overloads inserted base ∧
    (∀ s ∈ overloads inserted base, ∃ newest ∈ overloads inserted base,
      latest? inserted s.name = some newest ∧ (ofList inserted).schemas s.name = [newest]) ∧
    (((overloads inserted base).map (·.name)).Nodup ↔
      (((ofList inserted).schemas base).map (·.name)).Nodup ∧
      ∀ s ∈ (ofList inserted).schemas base, (ofList inserted).schemas s.name = [s]) := by
  have hlist : (ofList inserted).schemas base = overloads inserted base := by
    rw [schemas_eq, entry_ofList, latest?_eq_none_iff.mpr hown]
    rfl
  have hnewest : ∀ s ∈ overloads inserted base, ∃ newest ∈ overloads inserted base,
      newest.name = s.name ∧ latest? inserted s.name = some newest ∧
        (ofList inserted).schemas s.name = [newest] := by
    intro s hs
    obtain ⟨hmem, hover⟩ := mem_overloads.mp hs
    obtain ⟨newest, hnewest, hname, hlatest, hfound⟩ := schemas_ofList_of_mem hmem
    exact ⟨newest, mem_overloads.mpr ⟨hnewest, hname ▸ hover⟩, hname, hlatest, hfound⟩
  refine ⟨hlist, fun s hs => ?_, ?_⟩
  · obtain ⟨newest, hmem, -, hlatest, hfound⟩ := hnewest s hs
    exact ⟨newest, hmem, hlatest, hfound⟩
  · rw [hlist]
    refine ⟨fun hnodup => ⟨hnodup, fun s hs => ?_⟩, And.left⟩
    obtain ⟨newest, hmem, hname, -, hfound⟩ := hnewest s hs
    rw [hfound, List.inj_on_of_nodup_map hnodup hmem hs hname]

namespace Repeated

/-- Two versions of one overload. -/
def older : Schema := { name := "torch.add:Tensor", inputs := [.named "self"] }

def newer : Schema := { name := "torch.add:Tensor", inputs := [.named "input"] }

end Repeated

/-- An overload that was inserted twice is listed twice, and found in its last version only. -/
theorem schemas_ofList_base_repeated :
    (∀ s ∈ [Repeated.older, Repeated.newer], s.name ≠ "torch.add") ∧
    (ofList [Repeated.older, Repeated.newer]).schemas "torch.add" =
      [Repeated.older, Repeated.newer] ∧
    (ofList [Repeated.older, Repeated.newer]).schemas Repeated.older.name = [Repeated.newer] := by
  have hown : ∀ s ∈ [Repeated.older, Repeated.newer], s.name ≠ "torch.add" := by
    simp [Repeated.older, Repeated.newer]
  have hover : IsOverload "torch.add:Tensor" "torch.add" := ⟨by decide, "Tensor", rfl⟩
  have hlist : overloads [Repeated.older, Repeated.newer] "torch.add" =
      [Repeated.older, Repeated.newer] := by
    simp [overloads, Repeated.older, Repeated.newer, hover]
  obtain ⟨hfound, hnewest, -⟩ := schemas_ofList_base hown
  obtain ⟨newest, -, hlatest, halone⟩ := hnewest Repeated.older (by simp [hlist])
  have hlast : latest? [Repeated.older, Repeated.newer] Repeated.older.name = some Repeated.newer := by
    simp [latest?, Repeated.older, Repeated.newer]
  cases hlatest.symm.trans hlast
  exact ⟨hown, hfound.trans hlist, halone⟩

/-! ## Remembered answers -/

/-- What is asked of a catalog. -/
inductive Request where
  | insert (schema : Schema)
  | lookup (type name : String)

/-- The answers of a catalog that remembers them, one for each look-up. -/
def Cached.serve : Cached → List Request → List (Option Parameter)
  | _, [] => []
  | c, .insert s :: rest => (c.insert s).serve rest
  | c, .lookup type name :: rest => (c.lookup type name).1 :: (c.lookup type name).2.serve rest

/-- The schema of a type: the last of its own name, else its first overload. -/
def primaryOf? (inserted : List Schema) (type : String) : Option Schema :=
  (latest? inserted type).or (overloads inserted type).head?

/-- The last slot of a name among the inputs and then the attributes of a type. -/
def slot? (inserted : List Schema) (type name : String) : Option Parameter :=
  (primaryOf? inserted type).bind fun s => (s.inputs ++ s.attributes).reverse.find? (·.name = name)

/-- The answers that the schemas inserted so far give. -/
def answersAfter : List Schema → List Request → List (Option Parameter)
  | _, [] => []
  | inserted, .insert s :: rest => answersAfter (inserted ++ [s]) rest
  | inserted, .lookup type name :: rest => slot? inserted type name :: answersAfter inserted rest

theorem attribute?_ofList (inserted : List Schema) (type name : String) :
    (ofList inserted).attribute? type name = slot? inserted type name := by
  rw [attribute?, primary?_eq, entry_ofList]
  rfl

namespace Cached

/-- What is remembered is what the catalog says. -/
def Faithful (c : Cached) : Prop :=
  ∀ {type name answer}, c.answers.get? (type, name) = some answer →
    answer = c.catalog.attribute? type name

theorem faithful_empty (c : Catalog) : Faithful ⟨c, .empty⟩ := nofun

/-- Of several slots with one name the last is remembered. -/
theorem get?_remember (type : String) (slots : List Parameter)
    (answers : OrderedMap (String × String) (Option Parameter)) (type' name : String) :
    (slots.foldl (fun answers slot => answers.insert (type, slot.name) (some slot)) answers).get?
        (type', name) =
      if type' = type then ((slots.reverse.find? (·.name = name)).map some).or (answers.get? (type', name))
      else answers.get? (type', name) := by
  induction slots using List.reverseRecOn with
  | nil => simp
  | append_singleton slots slot ih =>
      rw [List.foldl_concat, OrderedMap.get?_insert, ih]
      by_cases htype : type' = type <;> by_cases hname : slot.name = name
      · simp [htype, hname]
      · simp [htype, hname, Ne.symm hname]
      · simp [htype]
      · simp [htype]

/-- A look-up gives what the catalog says and remembers nothing else. -/
theorem lookup_of_faithful {c : Cached} (hc : c.Faithful) (type name : String) :
    (c.lookup type name).1 = c.catalog.attribute? type name ∧ (c.lookup type name).2.Faithful ∧
      (c.lookup type name).2.catalog = c.catalog := by
  unfold lookup
  cases hknown : c.answers.get? (type, name) with
  | some answer => exact ⟨hc hknown, hc, rfl⟩
  | none =>
      refine ⟨?_, ?_, rfl⟩
      · simp only [get?_remember, OrderedMap.get?_insert_self, attribute?_eq, ite_true]
        cases List.find? _ _ <;> rfl
      · intro type' name' answer hanswer
        simp only [get?_remember] at hanswer
        by_cases htype : type' = type
        · subst htype
          rw [if_pos rfl] at hanswer
          rw [attribute?_eq]
          cases hslot : List.find? (·.name = name')
              (((c.catalog.primary? type').map (·.parameters)).getD []).reverse with
          | some slot =>
              rw [hslot] at hanswer
              cases hanswer
              rfl
          | none =>
              -- Without such a slot the answer is the new miss or an old one.
              rw [hslot, Option.map_none, Option.none_or, OrderedMap.get?_insert] at hanswer
              split at hanswer
              · cases hanswer
                rfl
              · rw [hc hanswer, attribute?_eq, hslot]
        · rw [if_neg htype, OrderedMap.get?_insert_of_ne _ (by simp [htype])] at hanswer
          exact hc hanswer

theorem serve_of_faithful (requests : List Request) {c : Cached} {inserted : List Schema}
    (hc : c.Faithful) (hcatalog : c.catalog = ofList inserted) :
    c.serve requests = answersAfter inserted requests := by
  induction requests generalizing c inserted with
  | nil => rfl
  | cons r rest ih =>
      cases r with
      | insert s =>
          have hinsert : (c.insert s).catalog = ofList (inserted ++ [s]) := by
            rw [ofList_concat, ← hcatalog]
            rfl
          rw [serve, answersAfter]
          exact ih (faithful_empty (c.catalog.insert s)) hinsert
      | lookup type name =>
          obtain ⟨hanswer, hfaithful, hkeeps⟩ := lookup_of_faithful hc type name
          rw [serve, answersAfter, hanswer, ih hfaithful (hkeeps.trans hcatalog), hcatalog,
            attribute?_ofList]

end Cached

/-- A catalog that remembers its answers gives those of the schemas inserted so far, at every time. -/
theorem serve_ofList (inserted : List Schema) (requests : List Request) :
    Cached.serve ⟨ofList inserted, .empty⟩ requests = answersAfter inserted requests :=
  Cached.serve_of_faithful requests (Cached.faithful_empty _) rfl

end Catalog

end ModelGraph.Operator
