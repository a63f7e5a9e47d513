import Mathlib.Data.List.Induction
import ModelGraph.Proofs.Object.Frame
import ModelGraph.Proofs.OrderedMap

/-!
# Paths of names

Binding a dotted name changes the heap along one path: it sets one attribute, and makes namespaces
where the path has none so far. Where attributes lead to each object from one place at most, a name
that is bound to a new object means it from then on, and the other names keep what they mean.
-/

namespace ModelGraph

namespace Object

/-- An own attribute. -/
def own? (o : Object) (name : String) : Option Value :=
  match o with
  | .dict d => d.get? (.str name)
  | o => o.fields?.bind (·.get? name)

/-- The object with an own attribute set, if it takes attributes. -/
def setOwn (o : Object) (name : String) (value : Value) : Object :=
  match o with
  | .dict d => .dict (d.insert (.str name) value)
  | o => o.mapFields (·.insert name value)

/-- Whether the object takes attributes. -/
def takes : Object → Bool
  | .dict _ => true
  | o => o.fields?.isSome

theorem own?_setOwn (o : Object) (x y : String) (v : Value) :
    (o.setOwn x v).own? y = if x = y ∧ o.takes then some v else o.own? y := by
  cases o <;> simp [setOwn, own?, takes, mapFields, fields?, OrderedMap.get?_insert, eq_comm (a := y)]

theorem takes_of_own? {o : Object} {x : String} {v : Value} (hx : o.own? x = some v) : o.takes := by
  cases o <;> first | rfl | cases hx

theorem own?_of_fields? {o : Object} {fields : Fields} (ho : o.fields? = some fields) (x : String) :
    o.own? x = fields.get? x := by
  cases o <;> cases ho <;> rfl

theorem isSome_fields?_frame (o : Object) : o.frame.fields?.isSome = o.fields?.isSome := by
  cases o <;> rfl

theorem takes_frame (o : Object) : o.frame.takes = o.takes := by
  cases o <;> rfl

end Object

namespace Heap

/-- An own attribute of an object. -/
def edge? (h : Heap) (a : Nat) (x : String) : Option Value := (h.get? a).bind (·.own? x)

/-- Whether an object takes attributes. -/
def Takes (h : Heap) (a : Nat) : Prop := ∃ o, h.get? a = some o ∧ o.takes

/-- Where a path of attributes leads. -/
def walk? (h : Heap) : Nat → List String → Option Nat
  | a, [] => some a
  | a, x :: path =>
    match h.edge? a x with
    | some (.ref next) => h.walk? next path
    | _ => none

variable {h h' : Heap} {a b i j next : Nat} {x y : String} {v : Value} {path : List String}

theorem ownAttribute?_ref (h : Heap) (a : Nat) (x : String) :
    h.ownAttribute? (.ref a) x = h.edge? a x := by
  have hobject : h.object? (.ref a) = h.get? a := rfl
  rw [ownAttribute?, hobject, edge?]
  cases h.get? a with
  | none => rfl
  | some o => cases o <;> rfl

theorem lt_size_of_edge? (hx : h.edge? a x = some v) : a < h.size := by
  obtain ⟨o, ho, -⟩ := Option.bind_eq_some_iff.mp hx
  exact lt_size_of_get? ho

theorem edge?_eq_none_of_le (ha : h.size ≤ a) (x : String) : h.edge? a x = none := by
  rw [edge?, get?_eq_none_of_le ha]
  rfl

theorem Grows.takes {code : Prop} (hgrows : h.Grows code h') (ha : h.Takes a) : h'.Takes a := by
  obtain ⟨o, ho, htakes⟩ := ha
  obtain ⟨o', ho', heq⟩ := hgrows.exists_get? ho
  exact ⟨o', ho', by rw [← Object.takes_frame, heq, Object.takes_frame, htakes]⟩

theorem walk?_cons (hx : h.edge? a x = some (.ref next)) (path : List String) :
    h.walk? a (x :: path) = h.walk? next path := by
  rw [walk?, hx]

theorem walk?_eq_some_cons :
    h.walk? a (x :: path) = some i ↔
      ∃ next, h.edge? a x = some (.ref next) ∧ h.walk? next path = some i := by
  rw [walk?]
  constructor
  · intro hpath
    split at hpath
    · exact ⟨_, by assumption, hpath⟩
    · cases hpath
  · rintro ⟨next, hx, hpath⟩
    rw [hx]
    exact hpath

theorem walk?_append {path' : List String} (hpath : h.walk? a path = some b) :
    h.walk? a (path ++ path') = h.walk? b path' := by
  induction path generalizing a with
  | nil =>
      cases hpath
      rfl
  | cons x path ih =>
      obtain ⟨next, hx, hrest⟩ := walk?_eq_some_cons.mp hpath
      rw [List.cons_append, walk?_cons hx, ih hrest]

theorem walk?_eq_some_concat :
    h.walk? a (path ++ [x]) = some i ↔
      ∃ b, h.walk? a path = some b ∧ h.edge? b x = some (.ref i) := by
  induction path generalizing a with
  | nil =>
      rw [List.nil_append, walk?_eq_some_cons]
      constructor
      · rintro ⟨next, hx, hnext⟩
        cases hnext
        exact ⟨a, rfl, hx⟩
      · rintro ⟨b, hb, hx⟩
        cases hb
        exact ⟨i, hx, rfl⟩
  | cons y path ih =>
      rw [List.cons_append, walk?_eq_some_cons]
      simp only [walk?_eq_some_cons, ih]
      constructor
      · rintro ⟨next, hy, b, hb, hx⟩
        exact ⟨b, ⟨next, hy, hb⟩, hx⟩
      · rintro ⟨b, ⟨next, hy, hb⟩, hx⟩
        exact ⟨next, hy, b, hb, hx⟩

/-- Where all that leads on still does, paths lead where they led. -/
theorem walk?_of_edges (hedges : ∀ {b y k}, h.edge? b y = some (.ref k) → h'.edge? b y = some (.ref k))
    (hpath : h.walk? a path = some i) : h'.walk? a path = some i := by
  induction path generalizing a with
  | nil => exact hpath
  | cons x path ih =>
      obtain ⟨next, hx, hrest⟩ := walk?_eq_some_cons.mp hpath
      exact walk?_eq_some_cons.mpr ⟨next, hedges hx, ih hrest⟩

/-! ## What a dotted name means -/

theorem follow?_of_edge? (hx : h.edge? a x = some v) (rest : List String) :
    h.follow? (.ref a) (x :: rest) = h.follow? v rest := by
  have hattribute : h.attribute? (.ref a) x = some v := by
    rw [attribute?, ownAttribute?_ref, hx]
    rfl
  rw [follow?, if_neg (by simp [Value.isNone]), hattribute, Option.bind_some]

theorem follow?_append (hpath : h.walk? a path = some b) (rest : List String) :
    h.follow? (.ref a) (path ++ rest) = h.follow? (.ref b) rest := by
  induction path generalizing a with
  | nil =>
      cases hpath
      rfl
  | cons x path ih =>
      obtain ⟨next, hx, hrest⟩ := walk?_eq_some_cons.mp hpath
      rw [List.cons_append, follow?_of_edge? hx, ih hrest]

/-- A name is looked up in the innermost object of a scope if that has it. -/
theorem resolve?_of_edge? (ha : (h.fields? a).isSome) (hx : h.edge? a x = some v) (around : Scope)
    (rest : List String) : h.resolve? (a :: around) (x :: rest) = h.follow? (.ref a) (x :: rest) := by
  obtain ⟨fields, hfields⟩ := Option.isSome_iff_exists.mp ha
  obtain ⟨o, ho, hown⟩ := Option.bind_eq_some_iff.mp hfields
  have hfield : (h.fields? a).bind (·.get? x) = some v := by
    rw [edge?, ho, Option.bind_some, Object.own?_of_fields? hown] at hx
    rw [hfields, Option.bind_some, hx]
  rw [resolve?, lookup?, List.findSome?_cons, hfield, follow?_of_edge? hx]
  rfl

theorem resolve?_of_passage (ha : (h.fields? a).isSome) (hpath : h.walk? a path = some b)
    (hx : h.edge? b x = some v) (around : Scope) (rest : List String) :
    h.resolve? (a :: around) (path ++ x :: rest) = h.follow? v rest := by
  cases path with
  | nil =>
      cases hpath
      rw [List.nil_append, resolve?_of_edge? ha hx, follow?_of_edge? hx]
  | cons y path =>
      obtain ⟨next, hy, -⟩ := walk?_eq_some_cons.mp hpath
      rw [List.cons_append, resolve?_of_edge? ha hy, ← List.cons_append, follow?_append hpath,
        follow?_of_edge? hx]

/-- A path from a namespace is what its dotted name means there. -/
theorem resolve?_of_walk? {n : Namespace} (ha : h.get? a = some (.namespace n))
    (hpath : h.walk? a (x :: path) = some i) : h.resolve? [a] (x :: path) = some (.ref i) := by
  obtain ⟨next, hx, -⟩ := walk?_eq_some_cons.mp hpath
  have hfields : (h.fields? a).isSome := by
    rw [fields?, ha]
    rfl
  rw [resolve?_of_edge? hfields hx, ← List.append_nil (x :: path), follow?_append hpath]
  rfl

/-! ## Single changes -/

theorem edge?_push (h : Heap) (o : Object) (a : Nat) (y : String) :
    (h.push o).edge? a y = if a = h.size then o.own? y else h.edge? a y := by
  rw [edge?, get?_push]
  split_ifs <;> rfl

theorem edge?_push_namespace (h : Heap) (a : Nat) (y : String) :
    (h.push (.namespace {})).edge? a y = h.edge? a y := by
  rw [edge?_push]
  split_ifs with ha
  · rw [edge?_eq_none_of_le (Nat.le_of_eq ha.symm)]
    rfl
  · rfl

theorem edge?_setAttribute (h : Heap) (a b : Nat) (x y : String) (v : Value) :
    (h.setAttribute (.ref b) x v).edge? a y =
      if b = a ∧ x = y then (h.get? a).bind (fun o => if o.takes then some v else none)
      else h.edge? a y := by
  have hset : h.setAttribute (.ref b) x v = h.modify b (·.setOwn x v) := rfl
  rw [hset, edge?, get?_modify]
  by_cases hba : b = a
  · subst hba
    rw [if_pos rfl, edge?]
    cases hget : h.get? b with
    | none => simp
    | some o =>
        simp only [Option.map_some, Option.bind_some, Object.own?_setOwn, true_and]
        by_cases hxy : x = y
        · subst hxy
          by_cases htakes : o.takes
          · simp [htakes]
          · cases hown : o.own? x with
            | none => simp [htakes]
            | some v => exact absurd (Object.takes_of_own? hown) htakes
        · simp [hxy]
  · rw [if_neg hba, if_neg fun h => hba h.1, edge?]

theorem edge?_setAttribute_self (hb : h.Takes b) (x : String) (v : Value) :
    (h.setAttribute (.ref b) x v).edge? b x = some v := by
  obtain ⟨o, ho, htakes⟩ := hb
  rw [edge?_setAttribute, if_pos ⟨rfl, rfl⟩, ho, Option.bind_some, if_pos htakes]

theorem edge?_setAttribute_of_ne (hne : ¬(b = a ∧ x = y)) :
    (h.setAttribute (.ref b) x v).edge? a y = h.edge? a y := by
  rw [edge?_setAttribute, if_neg hne]

/-- An attribute after one was set: the new one or an old one. -/
theorem edge?_of_setAttribute {w : Value} (hy : (h.setAttribute (.ref b) x v).edge? a y = some w) :
    (b = a ∧ x = y ∧ w = v) ∨ h.edge? a y = some w := by
  rw [edge?_setAttribute] at hy
  split_ifs at hy with heq
  · obtain ⟨o, -, ho⟩ := Option.bind_eq_some_iff.mp hy
    split_ifs at ho
    cases ho
    exact .inl ⟨heq.1, heq.2, rfl⟩
  · exact .inr hy

/-- The heap with a new namespace under a name. -/
def nest (h : Heap) (a : Nat) (x : String) : Heap :=
  (h.push (.namespace {})).setAttribute (.ref a) x (.ref h.size)

theorem child_of_edge? (hx : h.edge? a x = some (.ref next)) :
    h.child (.ref a) x = (.ref next, h) := by
  rw [child, ownAttribute?_ref, hx]

theorem child_of_absent (hx : ∀ next, h.edge? a x ≠ some (.ref next)) :
    h.child (.ref a) x = (.ref h.size, h.nest a x) := by
  rw [child, ownAttribute?_ref]
  split
  · next next hnext => exact absurd hnext (hx next)
  · rfl

theorem bindPath_cons (hpath : path ≠ []) (target : Value) :
    h.bindPath target (x :: path) v =
      (h.child target x).2.bindPath (h.child target x).1 path v := by
  cases path with
  | nil => contradiction
  | cons => rfl

/-! ## Heaps without sharing -/

/-- Attributes lead to objects, to each from one place at most, and to the first one from none. -/
structure Tree (h : Heap) : Prop where
  linked : ∀ {a x v}, h.edge? a x = some v → ∃ j, v = .ref j ∧ 0 < j ∧ j < h.size
  unique : ∀ {a b x y j}, h.edge? a x = some (.ref j) → h.edge? b y = some (.ref j) → a = b ∧ x = y

/-- No attribute leads to the object. -/
def Unlinked (h : Heap) (j : Nat) : Prop := ∀ a x, h.edge? a x ≠ some (.ref j)

namespace Tree

variable (ht : h.Tree)
include ht

theorem unlinked_of_le (hj : h.size ≤ j) : h.Unlinked j := by
  intro a x hx
  obtain ⟨k, hk, -, hlt⟩ := ht.linked hx
  cases hk
  exact absurd hlt (Nat.not_lt_of_le hj)

/-- An object without attributes, or with ones that lead to different unlinked objects. -/
theorem push {o : Object}
    (hlinked : ∀ {x v}, o.own? x = some v → ∃ j, v = .ref j ∧ 0 < j ∧ j < h.size ∧ h.Unlinked j)
    (hunique : ∀ {x y j}, o.own? x = some (.ref j) → o.own? y = some (.ref j) → x = y) :
    (h.push o).Tree where
  linked {a x v} hx := by
    rw [edge?_push] at hx
    rw [size_push]
    split_ifs at hx
    · obtain ⟨j, rfl, hpos, hlt, -⟩ := hlinked hx
      exact ⟨j, rfl, hpos, Nat.lt_succ_of_lt hlt⟩
    · obtain ⟨j, rfl, hpos, hlt⟩ := ht.linked hx
      exact ⟨j, rfl, hpos, Nat.lt_succ_of_lt hlt⟩
  unique {a b x y j} hx hy := by
    rw [edge?_push] at hx hy
    split_ifs at hx hy with ha hb hb
    · exact ⟨ha.trans hb.symm, hunique hx hy⟩
    · obtain ⟨k, heq, -, -, hk⟩ := hlinked hx
      cases heq
      exact absurd hy (hk b y)
    · obtain ⟨k, heq, -, -, hk⟩ := hlinked hy
      cases heq
      exact absurd hx (hk a x)
    · exact ht.unique hx hy

theorem setAttribute (hpos : 0 < j) (hlt : j < h.size) (hj : h.Unlinked j) (b : Nat) (z : String) :
    (h.setAttribute (.ref b) z (.ref j)).Tree where
  linked {a x v} hx := by
    have hsize : (h.setAttribute (.ref b) z (.ref j)).size = h.size := size_modify _ _ _
    rw [hsize]
    rcases edge?_of_setAttribute hx with ⟨-, -, rfl⟩ | hx
    · exact ⟨j, rfl, hpos, hlt⟩
    · exact ht.linked hx
  unique {a c x y k} hx hy := by
    rcases edge?_of_setAttribute hx with ⟨rfl, rfl, heq⟩ | hx <;>
      rcases edge?_of_setAttribute hy with ⟨rfl, rfl, heq'⟩ | hy
    · exact ⟨rfl, rfl⟩
    · cases heq
      exact absurd hy (hj c y)
    · cases heq'
      exact absurd hx (hj a x)
    · exact ht.unique hx hy

theorem nest (hpos : 0 < h.size) (a : Nat) (x : String) : (h.nest a x).Tree := by
  have hblank {y : String} {v : Value} : (Object.namespace {}).own? y ≠ some v := fun hy => by cases hy
  have hpush : (h.push (.namespace {})).Tree :=
    ht.push (fun hy => absurd hy hblank) fun hy => absurd hy hblank
  refine hpush.setAttribute hpos (by simp) (fun b y hy => ?_) a x
  rw [edge?_push_namespace] at hy
  exact ht.unlinked_of_le (Nat.le_refl _) b y hy

/-- There is one path to each object. -/
theorem eq_of_walk? {path' : List String} (hpath : h.walk? 0 path = some i)
    (hpath' : h.walk? 0 path' = some i) : path = path' := by
  have hroot {p : List String} {x : String} (hp : h.walk? 0 (p ++ [x]) = some 0) : False := by
    obtain ⟨b, -, hx⟩ := walk?_eq_some_concat.mp hp
    obtain ⟨j, heq, hpos, -⟩ := ht.linked hx
    cases heq
    exact Nat.lt_irrefl 0 hpos
  induction path using List.reverseRecOn generalizing path' i with
  | nil =>
      cases hpath
      rcases List.eq_nil_or_concat path' with rfl | ⟨p, x, rfl⟩
      · rfl
      · rw [List.concat_eq_append] at hpath'
        exact (hroot hpath').elim
  | append_singleton p x ih =>
      rcases List.eq_nil_or_concat path' with rfl | ⟨p', x', rfl⟩
      · cases hpath'
        exact (hroot hpath).elim
      · rw [List.concat_eq_append] at hpath' ⊢
        obtain ⟨b, hb, hx⟩ := walk?_eq_some_concat.mp hpath
        obtain ⟨b', hb', hx'⟩ := walk?_eq_some_concat.mp hpath'
        obtain ⟨rfl, rfl⟩ := ht.unique hx hx'
        rw [ih hb hb']

end Tree

/-! ## Binding a name -/

theorem grows_push_namespace (h : Heap) : h.Grows False (h.push (.namespace {})) :=
  grows_push h (o := .namespace {}) trivial

theorem grows_nest (h : Heap) (a : Nat) (x : String) : h.Grows False (h.nest a x) :=
  (grows_push_namespace h).trans (grows_setAttribute _ _ _ _)

theorem edge?_nest_self (ha : h.Takes a) (x : String) :
    (h.nest a x).edge? a x = some (.ref h.size) :=
  edge?_setAttribute_self ((grows_push_namespace h).takes ha) x _

/-- Nothing leads on from a new namespace. -/
theorem edge?_nest_size (ha : a < h.size) (x y : String) : (h.nest a x).edge? h.size y = none := by
  rw [nest, edge?_setAttribute_of_ne fun h => Nat.ne_of_lt ha h.1, edge?_push_namespace]
  exact edge?_eq_none_of_le (Nat.le_refl _) y

@[simp] theorem size_nest (h : Heap) (a : Nat) (x : String) : (h.nest a x).size = h.size + 1 := by
  simp [nest, setAttribute]

theorem takes_nest_size (h : Heap) (a : Nat) (x : String) : (h.nest a x).Takes h.size := by
  have hgrows : (h.push (.namespace {})).Grows False (h.nest a x) := grows_setAttribute _ _ _ _
  exact hgrows.takes ⟨.namespace {}, get?_push_size h _, rfl⟩

theorem get?_nest (ha : a < h.size) (b : Nat) (x : String) :
    (h.nest b x).get? a = if b = a then (h.get? a).map (·.setOwn x (.ref h.size)) else h.get? a := by
  have hset : h.nest b x = (h.push (.namespace {})).modify b (·.setOwn x (.ref h.size)) := rfl
  rw [hset, get?_modify]
  split_ifs with heq
  · rw [heq, get?_push_of_lt ha]
  · exact get?_push_of_lt ha _

/-- From a new namespace no path leads to what was there. -/
theorem le_of_walk?_nest {b c : Nat} (hc : h.size ≤ c) (hpath : (h.nest b x).walk? c path = some a) :
    h.size ≤ a := by
  induction path generalizing c with
  | nil =>
      cases hpath
      exact hc
  | cons y path ih =>
      obtain ⟨next, hy, hrest⟩ := walk?_eq_some_cons.mp hpath
      refine ih ?_ hrest
      rcases edge?_of_setAttribute hy with ⟨-, -, heq⟩ | hold
      · cases heq
        exact Nat.le_refl _
      · rw [edge?_push_namespace, edge?_eq_none_of_le hc] at hold
        cases hold

/-- Binding sets one attribute of one object that was there: at the end of the path, or where the
path leads to no object yet. -/
theorem get?_bindPath (h : Heap) (b : Nat) (hpath : path ≠ []) (v : Value) :
    ∃ p x w, p ++ [x] <+: path ∧
      (p ++ [x] = path ∨ ∀ a next, h.walk? b p = some a → h.edge? a x ≠ some (.ref next)) ∧
      ∀ a < h.size, (h.bindPath (.ref b) path v).get? a =
        if h.walk? b p = some a then (h.get? a).map (·.setOwn x w) else h.get? a := by
  induction path generalizing h b with
  | nil => contradiction
  | cons x path ih =>
      cases path with
      | nil =>
          refine ⟨[], x, v, List.prefix_refl _, .inl rfl, fun a _ => ?_⟩
          have hset : h.bindPath (.ref b) [x] v = h.modify b (·.setOwn x v) := rfl
          simp only [walk?, Option.some.injEq]
          rw [hset, get?_modify]
          split_ifs with heq
          · rw [heq]
          · rfl
      | cons x' path =>
          rw [bindPath_cons (by simp)]
          by_cases hx : ∃ next, h.edge? b x = some (.ref next)
          · obtain ⟨next, hx⟩ := hx
            obtain ⟨p, z, w, hp, hplace, hget⟩ := ih h next (by simp)
            rw [child_of_edge? hx]
            refine ⟨x :: p, z, w, by simpa using hp, ?_, fun a ha => ?_⟩
            · simpa [walk?_cons hx] using hplace
            · rw [walk?_cons hx]
              exact hget a ha
          · have habsent (next : Nat) : h.edge? b x ≠ some (.ref next) := fun h => hx ⟨next, h⟩
            obtain ⟨p, z, w, -, -, hget⟩ := ih (h.nest b x) h.size (by simp)
            rw [child_of_absent habsent]
            refine ⟨[], x, .ref h.size, by simp, .inr ?_, fun a ha => ?_⟩
            · intro a next ha
              cases ha
              exact habsent next
            · have hapart : (h.nest b x).walk? h.size p ≠ some a := fun hwalk =>
                Nat.not_le_of_lt ha (le_of_walk?_nest (Nat.le_refl _) hwalk)
              rw [hget a (by simp; omega), if_neg hapart, get?_nest ha]
              simp only [walk?, Option.some.injEq]

/-- An attribute stays unless the path ends in it. -/
theorem edge?_bindPath (hy : h.edge? a y = some (.ref i)) (b : Nat) (path : List String) (v : Value) :
    (h.bindPath (.ref b) path v).edge? a y = some (.ref i) ∨
      ∃ p, path = p ++ [y] ∧ h.walk? b p = some a := by
  by_cases hpath : path = []
  · rw [hpath]
    exact .inl hy
  obtain ⟨p, x, w, -, hplace, hget⟩ := get?_bindPath h b hpath v
  rw [edge?, hget a (lt_size_of_edge? hy)]
  by_cases hwalk : h.walk? b p = some a
  · by_cases hxy : x = y
    · subst hxy
      rcases hplace with heq | habsent
      · exact .inr ⟨p, heq.symm, hwalk⟩
      · exact absurd hy (habsent a i hwalk)
    · obtain ⟨o, ho, hown⟩ := Option.bind_eq_some_iff.mp hy
      left
      rw [if_pos hwalk, ho, Option.map_some, Option.bind_some, Object.own?_setOwn,
        if_neg fun h => hxy h.1, hown]
  · left
    rwa [if_neg hwalk]

/-- A path stays unless it goes on from what is bound. -/
theorem walk?_bindPath_of_apart {q : List String} (ht : h.Tree) (hq : h.walk? 0 q = some i)
    (hpath : ¬path <+: q) :
    (h.bindPath (.ref 0) path v).walk? 0 q = some i := by
  have hrest {p q : List String} {a : Nat} (hp : h.walk? 0 p = some a) (hq : h.walk? a q = some i)
      (hpath : ¬path <+: p ++ q) : (h.bindPath (.ref 0) path v).walk? a q = some i := by
    induction q generalizing p a with
    | nil => exact hq
    | cons y q ih =>
        obtain ⟨next, hy, hnext⟩ := walk?_eq_some_cons.mp hq
        have hkept : (h.bindPath (.ref 0) path v).edge? a y = some (.ref next) := by
          refine (edge?_bindPath hy 0 path v).resolve_right ?_
          rintro ⟨p', rfl, hp'⟩
          rw [ht.eq_of_walk? hp' hp] at hpath
          exact hpath ⟨q, by simp⟩
        refine walk?_eq_some_cons.mpr ⟨next, hkept, ih (p := p ++ [y]) ?_ hnext (by simpa using hpath)⟩
        exact walk?_eq_some_concat.mpr ⟨a, hp, hy⟩
  exact hrest (p := []) rfl hq hpath

/-- Each object on the path takes attributes, as far as the path is there. -/
def Clear (h : Heap) : Nat → List String → Prop
  | _, [] => False
  | a, [_] => h.Takes a
  | a, x :: path => h.Takes a ∧ ∀ next, h.edge? a x = some (.ref next) → h.Clear next path

theorem clear_of_blank (ha : h.Takes a) (hblank : ∀ y, h.edge? a y = none) (hpath : path ≠ []) :
    h.Clear a path := by
  cases path with
  | nil => contradiction
  | cons x path =>
      cases path with
      | nil => exact ha
      | cons x' path => exact ⟨ha, fun next hx => by rw [hblank] at hx; cases hx⟩

theorem Clear.takes (hclear : h.Clear a path) : h.Takes a := by
  cases path with
  | nil => exact hclear.elim
  | cons x path =>
      cases path with
      | nil => exact hclear
      | cons => exact hclear.1

theorem Clear.lt_size (hclear : h.Clear a path) : a < h.size := by
  obtain ⟨o, ho, -⟩ := hclear.takes
  exact lt_size_of_get? ho

/-- The attribute that is set at the end of the path is passed on the way there, and `rest` is what
comes after that. -/
def PassedBefore (h : Heap) (a : Nat) (path rest : List String) : Prop :=
  rest ≠ [] ∧ ∃ front p last b, path = front ++ [last] ∧ path = p ++ last :: rest ∧
    h.walk? a front = some b ∧ h.walk? a p = some b

theorem PassedBefore.cons {rest : List String} (hx : h.edge? a x = some (.ref next))
    (hpassed : h.PassedBefore next path rest) : h.PassedBefore a (x :: path) rest := by
  obtain ⟨hrest, front, p, last, b, hfront, hp, hend, hway⟩ := hpassed
  refine ⟨hrest, x :: front, x :: p, last, b, ?_, ?_, ?_, ?_⟩
  · rw [hfront, List.cons_append]
  · rw [hp, List.cons_append]
  · rw [walk?_cons hx, hend]
  · rw [walk?_cons hx, hway]

theorem not_passedBefore_of_blank {rest : List String} (hblank : ∀ y, h.edge? a y = none) :
    ¬h.PassedBefore a path rest := by
  have hnil {p : List String} {b : Nat} (hp : h.walk? a p = some b) : p = [] := by
    cases p with
    | nil => rfl
    | cons y p =>
        obtain ⟨next, hy, -⟩ := walk?_eq_some_cons.mp hp
        rw [hblank] at hy
        cases hy
  rintro ⟨hrest, front, p, last, b, hfront, hp, hend, hway⟩
  rw [hfront, hnil hend, hnil hway] at hp
  exact hrest (List.cons.inj hp).2.symm

/-- The end of a path that is there gets the value. -/
theorem edge?_bindPath_end (hpath : h.walk? b path = some a) (ha : h.Takes a) (x : String) (v : Value) :
    (h.bindPath (.ref b) (path ++ [x]) v).edge? a x = some v := by
  induction path generalizing b with
  | nil =>
      cases hpath
      exact edge?_setAttribute_self ha x v
  | cons y path ih =>
      obtain ⟨next, hy, hrest⟩ := walk?_eq_some_cons.mp hpath
      rw [List.cons_append, bindPath_cons (by simp), child_of_edge? hy]
      exact ih hrest

/-- After the binding a clear path leads to the value: at its end, or where it has passed the same
attribute before. -/
theorem exists_passage_bindPath (hclear : h.Clear b path) (v : Value) :
    ∃ p last rest a, path = p ++ last :: rest ∧ (h.bindPath (.ref b) path v).walk? b p = some a ∧
      (h.bindPath (.ref b) path v).edge? a last = some v ∧
      (rest = [] ∨ h.PassedBefore b path rest) := by
  induction path generalizing h b with
  | nil => exact hclear.elim
  | cons x path ih =>
      cases path with
      | nil => exact ⟨[], x, [], b, rfl, rfl, edge?_setAttribute_self hclear x v, .inl rfl⟩
      | cons x' path =>
          have htakes := hclear.takes
          have hb := hclear.lt_size
          rw [bindPath_cons (by simp)]
          by_cases hx : ∃ next, h.edge? b x = some (.ref next)
          · obtain ⟨next, hx⟩ := hx
            have hrest := hclear.2 next hx
            rw [child_of_edge? hx]
            rcases edge?_bindPath hx next (x' :: path) v with hkept | ⟨front, hfront, hback⟩
            · obtain ⟨p, last, rest, a, hp, hwalk, hlast, hrest⟩ := ih hrest
              refine ⟨x :: p, last, rest, a, by rw [hp, List.cons_append], ?_, hlast,
                hrest.imp_right (.cons hx)⟩
              rw [walk?_cons hkept, hwalk]
            · -- The path comes back to its beginning, where its first name is set at the end.
              refine ⟨[], x, x' :: path, b, rfl, rfl, ?_, .inr ⟨by simp, x :: front, [], x, b, ?_, rfl, ?_, rfl⟩⟩
              · rw [hfront]
                exact edge?_bindPath_end hback htakes x v
              · rw [hfront, List.cons_append]
              · rw [walk?_cons hx, hback]
          · have habsent (next : Nat) : h.edge? b x ≠ some (.ref next) := fun h => hx ⟨next, h⟩
            have hblank (y : String) : (h.nest b x).edge? h.size y = none := edge?_nest_size hb x y
            have hclear : (h.nest b x).Clear h.size (x' :: path) :=
              clear_of_blank (takes_nest_size h b x) hblank (by simp)
            rw [child_of_absent habsent]
            obtain ⟨p, last, rest, a, hp, hwalk, hlast, hrest⟩ := ih hclear
            have hkept := (edge?_bindPath (edge?_nest_self htakes x) h.size (x' :: path) v).resolve_right
              fun ⟨_, _, hback⟩ => Nat.not_le_of_lt hb (le_of_walk?_nest (Nat.le_refl _) hback)
            refine ⟨x :: p, last, rest, a, by rw [hp, List.cons_append], ?_, hlast,
              .inl (hrest.resolve_right (not_passedBefore_of_blank hblank))⟩
            rw [walk?_cons hkept, hwalk]

/-- Where each object is reached by one path, a clear path leads to what is bound. -/
theorem walk?_bindPath {q : List String} (ht : h.Tree) (hq : h.walk? 0 q = some a)
    (hclear : h.Clear a path) : (h.bindPath (.ref a) path (.ref j)).walk? a path = some j := by
  obtain ⟨p, last, rest, b, hp, hwalk, hlast, hrest⟩ := exists_passage_bindPath hclear (.ref j)
  have hend : rest = [] := hrest.resolve_right fun ⟨hne, front, p', x, c, hfront, hp', hc, hc'⟩ => by
    have heq := ht.eq_of_walk? ((walk?_append hq).trans hc) ((walk?_append hq).trans hc')
    rw [List.append_cancel_left heq, hp'] at hfront
    exact hne (List.cons.inj (List.append_cancel_left hfront)).2
  subst hend
  exact hp ▸ walk?_eq_some_concat.mpr ⟨b, hp ▸ hwalk, hp ▸ hlast⟩

/-! ## Registration -/

variable {names : List String} {o : Object}

/-- A heap without sharing below a namespace, in which the given names lead to objects that take
attributes. -/
structure Open (names : List String) (h : Heap) : Prop where
  tree : h.Tree
  root : ∃ n, h.get? 0 = some (.namespace n)
  takes : ∀ {a x j}, x ∈ names → h.edge? a x = some (.ref j) → h.Takes j

theorem Open.pos (hopen : h.Open names) : 0 < h.size := by
  obtain ⟨n, hn⟩ := hopen.root
  exact lt_size_of_get? hn

theorem Grows.exists_namespace {code : Prop} (hgrows : h.Grows code h')
    (ha : ∃ n, h.get? a = some (.namespace n)) : ∃ n, h'.get? a = some (.namespace n) := by
  obtain ⟨n, hn⟩ := ha
  obtain ⟨o, ho, heq⟩ := hgrows.exists_get? hn
  cases o <;> first | exact ⟨_, ho⟩ | cases heq

theorem Open.push (hopen : h.Open names)
    (hlinked : ∀ {x v}, o.own? x = some v → x ∉ names ∧ ∃ j, v = .ref j ∧ 0 < j ∧ j < h.size ∧
      h.Unlinked j)
    (hunique : ∀ {x y j}, o.own? x = some (.ref j) → o.own? y = some (.ref j) → x = y) :
    (h.push o).Open names where
  tree := hopen.tree.push (fun hx => (hlinked hx).2) hunique
  root := by
    obtain ⟨n, hn⟩ := hopen.root
    exact ⟨n, (get?_push_of_lt hopen.pos o).trans hn⟩
  takes {a x j} hx hedge := by
    rw [edge?_push] at hedge
    split_ifs at hedge
    · exact absurd hx (hlinked hedge).1
    · obtain ⟨o', ho', htakes⟩ := hopen.takes hx hedge
      exact ⟨o', (get?_push_of_lt (lt_size_of_get? ho') o).trans ho', htakes⟩

theorem Open.push_blank (hopen : h.Open names) (ho : ∀ x, o.own? x = none) :
    (h.push o).Open names :=
  hopen.push (fun hx => by rw [ho] at hx; cases hx) fun hx => by rw [ho] at hx; cases hx

theorem Open.setAttribute (hopen : h.Open names) (hpos : 0 < j) (hlt : j < h.size)
    (hj : h.Unlinked j) (b : Nat) {z : String} (htakes : z ∈ names → h.Takes j) :
    (h.setAttribute (.ref b) z (.ref j)).Open names := by
  have hgrows : h.Grows False (h.setAttribute (.ref b) z (.ref j)) := grows_setAttribute _ _ _ _
  refine ⟨hopen.tree.setAttribute hpos hlt hj b z, hgrows.exists_namespace hopen.root, ?_⟩
  intro a x k hx hedge
  refine hgrows.takes ?_
  rcases edge?_of_setAttribute hedge with ⟨-, rfl, heq⟩ | hedge
  · cases heq
    exact htakes hx
  · exact hopen.takes hx hedge

theorem Open.nest (hopen : h.Open names) (a : Nat) (x : String) : (h.nest a x).Open names := by
  have hpush : (h.push (.namespace {})).Open names := hopen.push_blank fun _ => rfl
  refine hpush.setAttribute hopen.pos (by simp) (fun b y hy => ?_) a
    (fun _ => ⟨.namespace {}, get?_push_size h _, rfl⟩)
  rw [edge?_push_namespace] at hy
  exact hopen.tree.unlinked_of_le (Nat.le_refl _) b y hy

theorem Unlinked.nest (hj : h.Unlinked j) (hlt : j < h.size) (a : Nat) (x : String) :
    (h.nest a x).Unlinked j := by
  intro b y hy
  rcases edge?_of_setAttribute hy with ⟨-, -, heq⟩ | hy
  · cases heq
    exact Nat.lt_irrefl _ hlt
  · rw [edge?_push_namespace] at hy
    exact hj b y hy

theorem Open.bindPath (hopen : h.Open names) (hpos : 0 < j) (hlt : j < h.size) (hj : h.Unlinked j)
    (a : Nat) {path : List String} (htakes : ∀ z ∈ path.getLast?, z ∈ names → h.Takes j) :
    (h.bindPath (.ref a) path (.ref j)).Open names := by
  induction path generalizing h a with
  | nil => exact hopen
  | cons x path ih =>
      cases path with
      | nil => exact hopen.setAttribute hpos hlt hj a (htakes x rfl)
      | cons x' path =>
          rw [bindPath_cons (by simp)]
          by_cases hx : ∃ next, h.edge? a x = some (.ref next)
          · obtain ⟨next, hx⟩ := hx
            rw [child_of_edge? hx]
            exact ih hopen hlt hj next htakes
          · rw [child_of_absent fun next hnext => hx ⟨next, hnext⟩]
            exact ih (hopen.nest a x) (Nat.lt_of_lt_of_le hlt (grows_nest h a x).size_le)
              (hj.nest hlt a x) h.size fun z hz hnames => (grows_nest h a x).takes (htakes z hz hnames)

/-- The heap with a new object under a dotted name. -/
def enter (h : Heap) (o : Object) (path : List String) : Heap :=
  (h.push o).bindPath (.ref 0) path (.ref h.size)

theorem grows_enter {code : Prop} (h : Heap) (ho : o.New code) (path : List String) :
    h.Grows code (h.enter o path) :=
  (grows_push h ho).trans (grows_bindPath _ _ _ _)

/-- The name means an object that is this one as far as no script changes it. -/
def Means (h : Heap) (path : List String) (o : Object) : Prop :=
  ∃ i, h.walk? 0 path = some i ∧ (h.get? i).map Object.frame = some o.frame

section

variable (hopen : h.Open names)
  (hlinked : ∀ {x v}, o.own? x = some v → x ∉ names ∧ ∃ j, v = .ref j ∧ 0 < j ∧ j < h.size ∧
    h.Unlinked j)
  (hunique : ∀ {x y j}, o.own? x = some (.ref j) → o.own? y = some (.ref j) → x = y)
include hopen hlinked hunique

theorem Open.enter {path : List String} (htakes : ∀ z ∈ path.getLast?, z ∈ names → o.takes) :
    (h.enter o path).Open names := by
  refine (hopen.push hlinked hunique).bindPath hopen.pos (by simp) (fun a x hx => ?_) 0
    fun z hz hnames => ⟨o, get?_push_size h o, htakes z hz hnames⟩
  rw [edge?_push] at hx
  split_ifs at hx
  · obtain ⟨-, j, heq, -, hlt, -⟩ := hlinked hx
    cases heq
    exact Nat.lt_irrefl _ hlt
  · exact hopen.tree.unlinked_of_le (Nat.le_refl _) a x hx

/-- Other names keep what they mean. -/
theorem Means.enter {path' : List String} {o' : Object} (hmeans : h.Means path' o')
    (hpath : ¬path <+: path') : (h.enter o path).Means path' o' := by
  obtain ⟨i, hwalk, hi⟩ := hmeans
  have hlt : i < h.size := by
    obtain ⟨found, hfound, -⟩ := Option.map_eq_some_iff.mp hi
    exact lt_size_of_get? hfound
  have hpush : (h.push o).walk? 0 path' = some i := by
    refine walk?_of_edges (fun {b y k} hy => ?_) hwalk
    rw [edge?_push, if_neg (Nat.ne_of_lt (lt_size_of_edge? hy)), hy]
  have hgrows : (h.push o).Grows False (h.enter o path) := grows_bindPath _ _ _ _
  refine ⟨i, walk?_bindPath_of_apart (hopen.push hlinked hunique).tree hpush hpath, ?_⟩
  rw [hgrows.frame_of_lt (by simp; omega), get?_push_of_lt hlt, hi]

/-- What is entered is what its name means. -/
theorem means_enter (hclear : (h.push o).Clear 0 path) : (h.enter o path).Means path o := by
  have hgrows : (h.push o).Grows False (h.enter o path) := grows_bindPath _ _ _ _
  refine ⟨h.size, walk?_bindPath (q := []) (hopen.push hlinked hunique).tree rfl hclear, ?_⟩
  rw [hgrows.frame_of_lt (by simp), get?_push_size]
  rfl

end

end Heap

end ModelGraph
