import ModelGraph.Proofs.Script.Stage

/-!
# Reading primaries

Names, literals and displays are read at once; calls, subscripts and attributes go on after what they
belong to. The loops over items with commas between them are alike, so one induction is about them
all.
-/

namespace ModelGraph.Script

open Parse

/-! ## Items with commas between them -/

@[simp] theorem commas_nil : commas [] = [] := rfl

@[simp] theorem commas_singleton (run : List Token) : commas [run] = run := by
  simp [commas]

@[simp] theorem commas_cons_cons (first second : List Token) (others : List (List Token)) :
    commas (first :: second :: others) = first ++ .op "," :: commas (second :: others) := by
  simp [commas]

/-- A reader of items up to a closing mark, which is left. It is given what it has read so far, and
every round takes one from its bound. -/
structure ItemLoop (α β γ : Type) where
  loop : Nat → List α → Parse γ
  close : String
  result : List α → γ
  run : β → List Token
  value : β → α

namespace ItemLoop

variable {α β γ : Type} (l : ItemLoop α β γ)

/-- One round reads an item; a comma leads to the next round. -/
def ReadsItem (b : β) : Prop :=
  ∀ fuel line done ts, 20 * (l.run b).length ≤ fuel →
    next ts = .op "," ∨ next ts = .op l.close →
    l.loop (fuel + 1) done (placed line (l.run b) ++ ts) =
      if next ts = .op "," then l.loop fuel (l.value b :: done) ts.tail
      else .ok (l.result (l.value b :: done), ts)

/-- The closing mark ends the loop. -/
def Closes : Prop :=
  ∀ fuel done ts, next ts = .op l.close → l.loop (fuel + 1) done ts = .ok (l.result done, ts)

theorem loop_commas {l : ItemLoop α β γ} (hcomma : l.close ≠ ",") (hcloses : l.Closes)
    {items : List β} (hitems : ∀ b ∈ items, l.ReadsItem b) (fuel line : Nat) (done : List α)
    (ts : List Placed) (hfuel : 20 * (commas (items.map l.run)).length < fuel)
    (hts : next ts = .op l.close) :
    l.loop fuel done (placed line (commas (items.map l.run)) ++ ts) =
      .ok (l.result ((items.map l.value).reverse ++ done), ts) := by
  induction items generalizing fuel done with
  | nil =>
      obtain ⟨fuel, rfl⟩ := Nat.exists_eq_succ_of_ne_zero (Nat.ne_zero_of_lt hfuel)
      simpa using hcloses fuel done ts hts
  | cons b items ih =>
      obtain ⟨fuel, rfl⟩ := Nat.exists_eq_succ_of_ne_zero (Nat.ne_zero_of_lt hfuel)
      have hitem := hitems b (by simp)
      cases items with
      | nil =>
          have hend : next ts ≠ .op "," := by simp [hts, hcomma]
          have hread := hitem fuel line done ts (by simpa using Nat.le_of_lt_succ hfuel) (Or.inr hts)
          simpa [hend] using hread
      | cons b' items =>
          simp only [List.map_cons, commas_cons_cons, List.length_append, List.length_cons] at hfuel
          have hread := hitem fuel line done
            (⟨.op ",", line⟩ :: (placed line (commas ((b' :: items).map l.run)) ++ ts)) (by omega)
            (Or.inl rfl)
          have hrest := ih (fun b hb => hitems b (List.mem_cons_of_mem _ hb)) fuel
            (l.value b :: done) (by simp only [List.map_cons]; omega)
          simp only [next_cons, if_true, List.tail_cons] at hread
          rw [hrest] at hread
          simpa using hread

end ItemLoop

namespace Surface

/-- A comma or a closing mark ends an expression. -/
theorem ends_item {close : String} (hclose : bond (.op close) = some 0) {ts : List Placed}
    (h : next ts = .op "," ∨ next ts = .op close) (place : Nat) : Ends place ts := by
  rcases h with h | h
  · exact ⟨0, by rw [h]; rfl, Nat.zero_le _⟩
  · exact ⟨0, by rw [h, hclose]; rfl, Nat.zero_le _⟩

def listLoop : ItemLoop Expr Surface (List Expr) where
  loop := listItems
  close := "]"
  result := List.reverse
  run := tokens
  value := lower

def tupleLoop : ItemLoop Expr Surface (List Expr) where
  loop := tupleItems
  close := ")"
  result := List.reverse
  run := tokens
  value := lower

def dictLoop : ItemLoop (Expr × Expr) (Surface × Surface) (List (Expr × Expr)) where
  loop := dictEntries
  close := "\x7d"
  result := List.reverse
  run entry := entry.1.tokens ++ .op ":" :: entry.2.tokens
  value entry := (entry.1.lower, entry.2.lower)

def argumentLoop :
    ItemLoop (Option String × Expr) (Option Identifier × Surface) (List (Option String × Expr)) where
  loop := callArguments
  close := ")"
  result := List.reverse
  run := argument
  value a := (a.1.map (·.name), a.2.lower)

/-- The loop over indices, with no slice among what it has read. -/
def indexLoop : ItemLoop Expr Surface (List IndexPart) where
  loop fuel done := indexParts fuel (done.map .index)
  close := "]"
  result done := (done.map .index).reverse
  run := tokens
  value := lower

theorem readsItem_list {e : Surface} (h : e.Understood) : listLoop.ReadsItem e := by
  intro fuel line done ts hfuel hts
  have hends := ends_item (by rfl) hts 0
  have hread := h.whole fuel line ts hfuel hends
  have hclose := e.begins_tokens.next_ne (t := .op "]") (by simp [opens]) line ts
  have hfor : next ts ≠ .name "for" := hends.next_ne (by decide)
  change listItems (fuel + 1) done (placed line e.tokens ++ ts) =
    if next ts = .op "," then listItems fuel (e.lower :: done) ts.tail
    else .ok ((e.lower :: done).reverse, ts)
  by_cases hcomma : next ts = .op "," <;> simp [listItems, hclose, hread, hfor, hcomma]

theorem readsItem_tuple {e : Surface} (h : e.Understood) : tupleLoop.ReadsItem e := by
  intro fuel line done ts hfuel hts
  have hends := ends_item (by rfl) hts 0
  have hread := h.whole fuel line ts hfuel hends
  have hclose := e.begins_tokens.next_ne (t := .op ")") (by simp [opens]) line ts
  change tupleItems (fuel + 1) done (placed line e.tokens ++ ts) =
    if next ts = .op "," then tupleItems fuel (e.lower :: done) ts.tail
    else .ok ((e.lower :: done).reverse, ts)
  by_cases hcomma : next ts = .op "," <;> simp [tupleItems, hclose, hread, hcomma]

theorem readsItem_dict {key value : Surface} (hkey : key.Understood)
    (hvalue : value.Understood) : dictLoop.ReadsItem (key, value) := by
  intro fuel line done ts hfuel hts
  simp only [dictLoop, List.length_append, List.length_cons] at hfuel
  have hends := ends_item (by rfl) hts 0
  have hreadKey := hkey.whole fuel line (⟨.op ":", line⟩ :: (placed line value.tokens ++ ts))
    (by omega) (ends_cons rfl (Nat.le_refl 0))
  have hreadValue := hvalue.whole fuel line ts (by omega) hends
  have hclose := key.begins_tokens.next_ne (t := .op "\x7d") (by simp [opens]) line
  have hfor : next ts ≠ .name "for" := hends.next_ne (by decide)
  change dictEntries (fuel + 1) done (placed line (key.tokens ++ .op ":" :: value.tokens) ++ ts) =
    if next ts = .op "," then dictEntries fuel ((key.lower, value.lower) :: done) ts.tail
    else .ok (((key.lower, value.lower) :: done).reverse, ts)
  by_cases hcomma : next ts = .op "," <;>
    simp [dictEntries, hclose, hreadKey, hreadValue, hfor, hcomma]

theorem readsItem_argument (keyword : Option Identifier) {value : Surface} (h : value.Understood) :
    argumentLoop.ReadsItem (keyword, value) := by
  intro fuel line done ts hfuel hts
  have hends := ends_item (by rfl) hts 0
  have hfor : next ts ≠ .name "for" := hends.next_ne (by decide)
  have hequals : next ts ≠ .op "=" := by rcases hts with hts | hts <;> simp [hts, argumentLoop]
  have hbegins := value.begins_tokens
  change callArguments (fuel + 1) done (placed line (argument (keyword, value)) ++ ts) =
    if next ts = .op "," then
      callArguments fuel ((keyword.map (·.name), value.lower) :: done) ts.tail
    else .ok (((keyword.map (·.name), value.lower) :: done).reverse, ts)
  cases keyword with
  | none =>
      have hread := h.whole fuel line ts hfuel hends
      have hclose := hbegins.next_ne (t := .op ")") (by simp [opens]) line ts
      have hstar := hbegins.next_ne (t := .op "*") (by simp [opens]) line ts
      have hstars := hbegins.next_ne (t := .op "**") (by simp [opens]) line ts
      have hname := hbegins.argumentName? line hequals
      by_cases hcomma : next ts = .op "," <;>
        simp [callArguments, argument, hclose, hstar, hstars, hname, hread, hfor, hcomma]
  | some keyword =>
      simp only [argumentLoop, argument, List.length_cons] at hfuel
      have hread := h.whole fuel line ts (by omega) hends
      have hkeyword := keyword.not_keyword
      by_cases hcomma : next ts = .op "," <;>
        simp [callArguments, argument, argumentName?, hkeyword, hread, hfor, hcomma]

theorem mayFollow_index (done : List Expr) (e : Expr) :
    mayFollow (done.map .index) (.index e) = true := by
  simp [mayFollow]

theorem readsItem_index {e : Surface} (h : e.Understood) : indexLoop.ReadsItem e := by
  intro fuel line done ts hfuel hts
  have hends := ends_item (by rfl) hts 0
  have hread := h.whole fuel line ts hfuel hends
  have hpos := e.begins_tokens.length_pos
  simp only [indexLoop] at hfuel
  obtain ⟨fuel, rfl⟩ : ∃ n, fuel = n + 1 := ⟨fuel - 1, by omega⟩
  have hclose := e.begins_tokens.next_ne (t := .op "]") (by simp [opens]) line ts
  have hcolon := e.begins_tokens.next_ne (t := .op ":") (by simp [opens]) line ts
  have hslice : next ts ≠ .op ":" := by rcases hts with hts | hts <;> simp [hts, indexLoop]
  change indexParts (fuel + 2) (done.map .index) (placed line e.tokens ++ ts) =
    if next ts = .op "," then indexParts (fuel + 1) ((e.lower :: done).map .index) ts.tail
    else .ok (((e.lower :: done).map .index).reverse, ts)
  by_cases hcomma : next ts = .op "," <;>
    simp [indexParts, indexPart, hclose, hcolon, hread, hslice, hcomma, mayFollow_index]

/-! ## Closing marks end the loops -/

theorem closes_list : listLoop.Closes := by
  intro fuel done ts hts
  change listItems (fuel + 1) done ts = _
  have hclose : next ts = .op "]" := hts
  simp [listItems, hclose, listLoop]

theorem closes_tuple : tupleLoop.Closes := by
  intro fuel done ts hts
  change tupleItems (fuel + 1) done ts = _
  have hclose : next ts = .op ")" := hts
  simp [tupleItems, hclose, tupleLoop]

theorem closes_dict : dictLoop.Closes := by
  intro fuel done ts hts
  change dictEntries (fuel + 1) done ts = _
  have hclose : next ts = .op "\x7d" := hts
  simp [dictEntries, hclose, dictLoop]

theorem closes_argument : argumentLoop.Closes := by
  intro fuel done ts hts
  change callArguments (fuel + 1) done ts = _
  have hclose : next ts = .op ")" := hts
  simp [callArguments, hclose, argumentLoop]

theorem closes_index : indexLoop.Closes := by
  intro fuel done ts hts
  change indexParts (fuel + 1) (done.map .index) ts = _
  have hclose : next ts = .op "]" := hts
  simp [indexParts, hclose, indexLoop]

/-! ## Atoms -/

/-- What is read at once needs no rounds of the loop that follows. -/
theorem understands_of_atom {tokens : List Token} {e : Expr} (h : Reads atom 15 11 tokens e) :
    Stage.trailed.Understands tokens e := by
  intro fuel line ts hfuel hends
  exact ⟨fuel, e, ts, by omega, h fuel line ts hfuel hends, rfl⟩

theorem understands_name (n : Identifier) :
    Stage.trailed.Understands (name n).tokens (name n).lower := by
  refine understands_of_atom fun fuel line ts hfuel hends => ?_
  simp only [tokens, List.length_singleton] at hfuel ⊢
  obtain ⟨fuel, rfl⟩ : ∃ m, fuel = m + 1 := ⟨fuel - 1, by omega⟩
  simp [atom_name, lower]

theorem understands_integer (n : Fin 0x8000000000000000) :
    Stage.trailed.Understands (integer n).tokens (integer n).lower := by
  refine understands_of_atom fun fuel line ts hfuel hends => ?_
  simp only [tokens, List.length_singleton] at hfuel ⊢
  obtain ⟨fuel, rfl⟩ : ∃ m, fuel = m + 1 := ⟨fuel - 1, by omega⟩
  simp [atom_int, lower]

/-- No string literal follows, so the literal is not joined with another. -/
theorem stringRun_of_ends (s : String) {ts : List Placed} (hends : Ends 11 ts) :
    stringRun s ts = (s, ts) := by
  unfold stringRun
  split
  · exact absurd rfl (hends.next_ne (by simp [bond]))
  · rfl

theorem understands_text (s : String) :
    Stage.trailed.Understands (text s).tokens (text s).lower := by
  refine understands_of_atom fun fuel line ts hfuel hends => ?_
  simp only [tokens, List.length_singleton] at hfuel ⊢
  obtain ⟨fuel, rfl⟩ : ∃ m, fuel = m + 1 := ⟨fuel - 1, by omega⟩
  simp [atom_str, stringRun_of_ends s hends, lower]

theorem understands_list {items : List Surface} (h : ∀ e ∈ items, e.Understood) :
    Stage.trailed.Understands (list items).tokens (list items).lower := by
  refine understands_of_atom fun fuel line ts hfuel hends => ?_
  simp only [tokens, tokensAll_eq_map, List.length_append, List.length_cons] at hfuel
  obtain ⟨fuel, rfl⟩ : ∃ m, fuel = m + 1 := ⟨fuel - 1, by omega⟩
  have hitems := ItemLoop.loop_commas (l := listLoop) (by decide) closes_list
    (fun e he => readsItem_list (h e he)) fuel line [] (⟨.op "]", line⟩ :: ts)
    (by simp only [listLoop]; omega) rfl
  simp only [listLoop] at hitems
  simp [tokens, atom_list, hitems, lower]

theorem understands_dict {entries : List (Surface × Surface)}
    (h : ∀ entry ∈ entries, entry.1.Understood ∧ entry.2.Understood) :
    Stage.trailed.Understands (dict entries).tokens (dict entries).lower := by
  refine understands_of_atom fun fuel line ts hfuel hends => ?_
  simp only [tokens, entryTokens_eq_map, List.length_append, List.length_cons] at hfuel
  obtain ⟨fuel, rfl⟩ : ∃ m, fuel = m + 1 := ⟨fuel - 1, by omega⟩
  have hitems := ItemLoop.loop_commas (l := dictLoop) (by decide) closes_dict
    (fun entry hentry => readsItem_dict (h entry hentry).1 (h entry hentry).2) fuel line []
    (⟨.op "\x7d", line⟩ :: ts) (by simp only [dictLoop]; omega) rfl
  simp only [dictLoop] at hitems
  simp [tokens, atom_dict, hitems, lower]

/-- A tuple of one has a comma too. -/
theorem tokens_tuple_cons (first : Surface) (others : List Surface) :
    (tuple (first :: others)).tokens =
      .op "(" :: first.tokens ++ .op "," :: commas (others.map tokens) ++ [.op ")"] := by
  cases others <;> simp [tokens]

theorem understands_tuple {items : List Surface} (h : ∀ e ∈ items, e.Understood) :
    Stage.trailed.Understands (tuple items).tokens (tuple items).lower := by
  refine understands_of_atom fun fuel line ts hfuel hends => ?_
  cases items with
  | nil =>
      simp only [tokens, List.length_append, List.length_cons] at hfuel
      obtain ⟨fuel, rfl⟩ : ∃ m, fuel = m + 1 := ⟨fuel - 1, by omega⟩
      simp [tokens, atom_enclosed, lower]
  | cons first others =>
      rw [tokens_tuple_cons] at hfuel ⊢
      simp only [List.length_append, List.length_cons] at hfuel
      obtain ⟨fuel, rfl⟩ : ∃ m, fuel = m + 1 := ⟨fuel - 1, by omega⟩
      have hfirst : first.Understood := h first (by simp)
      have hread := hfirst.whole fuel line
        (⟨.op ",", line⟩ :: (placed line (commas (others.map tokens)) ++ ⟨.op ")", line⟩ :: ts))
        (by omega) (ends_cons rfl (Nat.le_refl 0))
      have hclose := first.begins_tokens.next_ne (t := .op ")") (by simp [opens]) line
      have hitems := ItemLoop.loop_commas (l := tupleLoop) (by decide) closes_tuple
        (fun e he => readsItem_tuple (h e (List.mem_cons_of_mem _ he))) fuel line [first.lower]
        (⟨.op ")", line⟩ :: ts) (by simp only [tupleLoop]; omega) rfl
      simp only [tupleLoop] at hitems
      simp [atom_enclosed, hclose, hread, hitems, lower]

/-! ## What goes on a primary -/

theorem understands_attr {target : Surface} (member : Identifier) (h : target.Understood) :
    Stage.trailed.Understands (attr target member).tokens (attr target member).lower := by
  intro fuel line ts hfuel hends
  have htokens : (attr target member).tokens =
      target.tokensAt 10 ++ [.op ".", .name member.name] := rfl
  rw [htokens] at hfuel ⊢
  simp only [List.length_append, List.length_cons, List.length_nil, Stage.depth] at hfuel ⊢
  obtain ⟨fuel', start, mid, hle, hfirst, hrest⟩ :=
    h.trailed fuel line (⟨.op ".", line⟩ :: ⟨.name member.name, line⟩ :: ts) (by omega)
      (ends_cons rfl (Nat.le_refl _))
  obtain ⟨fuel', rfl⟩ : ∃ n, fuel' = n + 1 := ⟨fuel' - 1, by omega⟩
  refine ⟨fuel', start, mid, by omega, by simpa using hfirst, ?_⟩
  simp [hrest, trailers, lower]

theorem understands_call {target : Surface} {arguments : List (Option Identifier × Surface)}
    (h : target.Understood) (harguments : ∀ a ∈ arguments, a.2.Understood) :
    Stage.trailed.Understands (call target arguments).tokens (call target arguments).lower := by
  intro fuel line ts hfuel hends
  have htokens : (call target arguments).tokens =
      target.tokensAt 10 ++ .op "(" :: commas (arguments.map argument) ++ [.op ")"] := by
    simp [tokens, tokensAt]
  rw [htokens] at hfuel ⊢
  simp only [List.length_append, List.length_cons, List.length_nil, Stage.depth] at hfuel ⊢
  obtain ⟨fuel', start, mid, hle, hfirst, hrest⟩ :=
    h.trailed fuel line
      (⟨.op "(", line⟩ :: (placed line (commas (arguments.map argument)) ++ ⟨.op ")", line⟩ :: ts))
      (by omega) (ends_cons rfl (Nat.le_refl _))
  obtain ⟨fuel', rfl⟩ : ∃ n, fuel' = n + 1 := ⟨fuel' - 1, by omega⟩
  have hitems := ItemLoop.loop_commas (l := argumentLoop) (by decide) closes_argument
    (fun a ha => readsItem_argument a.1 (harguments a ha)) fuel' line [] (⟨.op ")", line⟩ :: ts)
    (by simp only [argumentLoop]; omega) rfl
  simp only [argumentLoop] at hitems
  refine ⟨fuel', start, mid, by omega, by simpa using hfirst, ?_⟩
  simp [hrest, trailers, hitems, lower]

theorem subscriptOf?_index (target first : Expr) (others : List Expr) :
    subscriptOf? target ((first :: others).map .index) =
      .ok (.subscript target (first :: others)) := by
  cases others <;> simp [subscriptOf?, List.filterMap_map]

theorem trailers_subscript {fuel line line' : Nat} {target subscripted : Expr}
    {parts : List IndexPart} {inside ts : List Placed}
    (hparts : indexParts fuel [] inside = .ok (parts, ⟨.op "]", line'⟩ :: ts))
    (hsubscript : subscriptOf? target parts = .ok subscripted) :
    trailers (fuel + 1) target (⟨.op "[", line⟩ :: inside) = trailers fuel subscripted ts := by
  simp [trailers, hparts, hsubscript]

theorem understands_index {target first : Surface} {others : List Surface}
    (h : target.Understood) (hfirst : first.Understood) (hothers : ∀ e ∈ others, e.Understood) :
    Stage.trailed.Understands (index target first others).tokens
      (index target first others).lower := by
  intro fuel line ts hfuel hends
  have htokens : (index target first others).tokens =
      target.tokensAt 10 ++ .op "[" :: commas ((first :: others).map tokens) ++ [.op "]"] := by
    simp [tokens, tokensAt]
  rw [htokens] at hfuel ⊢
  simp only [List.length_append, List.length_cons, List.length_nil, Stage.depth] at hfuel ⊢
  obtain ⟨fuel', start, mid, hle, hstart, hrest⟩ :=
    h.trailed fuel line
      (⟨.op "[", line⟩ :: (placed line (commas ((first :: others).map tokens)) ++
        ⟨.op "]", line⟩ :: ts)) (by omega) (ends_cons rfl (Nat.le_refl _))
  obtain ⟨fuel', rfl⟩ : ∃ n, fuel' = n + 1 := ⟨fuel' - 1, by omega⟩
  have hread : ∀ e ∈ first :: others, indexLoop.ReadsItem e :=
    List.forall_mem_cons.mpr ⟨readsItem_index hfirst, fun e he => readsItem_index (hothers e he)⟩
  have hitems := ItemLoop.loop_commas (by decide) closes_index hread fuel' line []
    (⟨.op "]", line⟩ :: ts) (by simp only [indexLoop]; omega) rfl
  have hparts : indexParts fuel' [] (placed line (commas ((first :: others).map tokens)) ++
      ⟨.op "]", line⟩ :: ts) =
      .ok (((first.lower :: others.map lower).map .index), ⟨.op "]", line⟩ :: ts) := by
    simpa [indexLoop] using hitems
  refine ⟨fuel', start, mid, by omega, by simpa using hstart, ?_⟩
  rw [hrest, trailers_subscript hparts (subscriptOf?_index _ _ _), lower, lowerAll_eq_map]

/-- Whether a later bound of a slice is there shows from the next token. -/
theorem when_bound {bound : Option Surface} (h : ∀ e ∈ bound, e.Understood) {fuel : Nat}
    (line : Nat) {ts : List Placed} (hfuel : 20 * (boundTokens bound).length ≤ fuel)
    (hts : next ts = .op ":" ∨ next ts = .op "]") :
    Parse.when (!decide (next (placed line (boundTokens bound) ++ ts) = .op ":") &&
        !decide (next (placed line (boundTokens bound) ++ ts) = .op "]") &&
        !decide (next (placed line (boundTokens bound) ++ ts) = .op ","))
      (expression fuel) (placed line (boundTokens bound) ++ ts) = .ok (bound.map lower, ts) := by
  cases bound with
  | none => rcases hts with hts | hts <;> simp [boundTokens, hts]
  | some e =>
      have hends : Ends 0 ts := by
        rcases hts with hts | hts <;> exact ⟨0, by rw [hts]; rfl, Nat.le_refl 0⟩
      have hread := (h e rfl).whole fuel line ts hfuel hends
      have hcolon := e.begins_tokens.next_ne (t := .op ":") (by simp [opens]) line ts
      have hclose := e.begins_tokens.next_ne (t := .op "]") (by simp [opens]) line ts
      have hcomma := e.begins_tokens.next_ne (t := .op ",") (by simp [opens]) line ts
      simp [boundTokens, hcolon, hclose, hcomma, hread]

/-- What follows the first bound of a slice. -/
def boundsTokens (stop step : Option Surface) : List Token :=
  .op ":" :: (boundTokens stop ++ stepTokens step)

theorem indexPart_bounds {stop step : Option Surface} (hstop : ∀ e ∈ stop, e.Understood)
    (hstep : ∀ e ∈ step, e.Understood) {fuel : Nat} (line : Nat) (start : Option Expr)
    {ts : List Placed} (hfuel : 20 * (boundsTokens stop step).length ≤ fuel + 1) (hts : next ts = .op "]") :
    indexPart (fuel + 1) start (placed line (boundsTokens stop step) ++ ts) =
      .ok (.slice start (stop.map lower) (step.map lower), ts) := by
  simp only [boundsTokens, List.length_cons, List.length_append] at hfuel
  cases step with
  | none =>
      have hbound : 20 * (boundTokens stop).length ≤ fuel := by omega
      have hread := when_bound hstop line hbound (Or.inr hts)
      simp [indexPart, boundsTokens, stepTokens, hread, hts]
  | some step =>
      simp only [stepTokens, List.length_cons] at hfuel
      have hbound : 20 * (boundTokens stop).length ≤ fuel := by omega
      have hcolon : next (⟨.op ":", line⟩ :: (placed line step.tokens ++ ts)) = .op ":" := rfl
      have hread := when_bound hstop line hbound (Or.inl hcolon)
      have hends : Ends 0 ts := ⟨0, by rw [hts]; rfl, Nat.le_refl 0⟩
      have hreadStep := (hstep step rfl).whole fuel line ts (by omega) hends
      have hclose := step.begins_tokens.next_ne (t := .op "]") (by simp [opens]) line ts
      have hcomma := step.begins_tokens.next_ne (t := .op ",") (by simp [opens]) line ts
      simp [indexPart, boundsTokens, stepTokens, hread, hclose, hcomma, hreadStep]

theorem indexParts_slice {start stop step : Option Surface} (hstart : ∀ e ∈ start, e.Understood)
    (hstop : ∀ e ∈ stop, e.Understood) (hstep : ∀ e ∈ step, e.Understood) {fuel : Nat}
    (line : Nat) {ts : List Placed}
    (hfuel : 20 * ((boundTokens start).length + (boundsTokens stop step).length) ≤ fuel)
    (hts : next ts = .op "]") :
    indexParts (fuel + 1) []
        (placed line (boundTokens start) ++ (placed line (boundsTokens stop step) ++ ts)) =
      .ok ([.slice (start.map lower) (stop.map lower) (step.map lower)], ts) := by
  have hpos : 0 < (boundsTokens stop step).length := by simp [boundsTokens]
  obtain ⟨fuel, rfl⟩ : ∃ n, fuel = n + 1 := ⟨fuel - 1, by omega⟩
  have hbounds : 20 * (boundsTokens stop step).length ≤ fuel + 1 := by omega
  have hrest := indexPart_bounds hstop hstep line (start.map lower) hbounds hts
  have hnext : next (placed line (boundsTokens stop step) ++ ts) = .op ":" := rfl
  cases start with
  | none =>
      rw [Option.map_none] at hrest
      simp [indexParts, boundTokens, hnext, hrest, hts, mayFollow]
  | some start =>
      have hread := (hstart start rfl).whole (fuel + 1) line
        (placed line (boundsTokens stop step) ++ ts) (by simp only [boundTokens] at hfuel; omega)
        ⟨0, by rw [hnext]; rfl, Nat.le_refl 0⟩
      have hclose := start.begins_tokens.next_ne (t := .op "]") (by simp [opens]) line
        (placed line (boundsTokens stop step) ++ ts)
      have hcolon := start.begins_tokens.next_ne (t := .op ":") (by simp [opens]) line
        (placed line (boundsTokens stop step) ++ ts)
      rw [Option.map_some] at hrest
      simp [indexParts, boundTokens, hclose, hcolon, hread, hrest, hts, mayFollow]

theorem understands_slice {target : Surface} {start stop step : Option Surface}
    (h : target.Understood) (hstart : ∀ e ∈ start, e.Understood)
    (hstop : ∀ e ∈ stop, e.Understood) (hstep : ∀ e ∈ step, e.Understood) :
    Stage.trailed.Understands (slice target start stop step).tokens
      (slice target start stop step).lower := by
  intro fuel line ts hfuel hends
  have htokens : (slice target start stop step).tokens =
      target.tokensAt 10 ++ .op "[" :: (boundTokens start ++ boundsTokens stop step) ++
        [.op "]"] := by
    simp [tokens, tokensAt, boundsTokens]
  rw [htokens] at hfuel ⊢
  simp only [List.length_append, List.length_cons, List.length_nil, Stage.depth] at hfuel ⊢
  have hbounds : 0 < (boundsTokens stop step).length := by simp [boundsTokens]
  obtain ⟨fuel', first, mid, hle, hfirst, hrest⟩ :=
    h.trailed fuel line
      (⟨.op "[", line⟩ :: (placed line (boundTokens start) ++
        (placed line (boundsTokens stop step) ++ ⟨.op "]", line⟩ :: ts)))
      (by omega) (ends_cons rfl (Nat.le_refl _))
  obtain ⟨fuel', rfl⟩ : ∃ n, fuel' = n + 2 := ⟨fuel' - 2, by omega⟩
  have henough : 20 * ((boundTokens start).length + (boundsTokens stop step).length) ≤ fuel' := by
    omega
  have hnext : next (⟨.op "]", line⟩ :: ts) = .op "]" := rfl
  have hparts := indexParts_slice hstart hstop hstep line henough hnext
  refine ⟨fuel' + 1, first, mid, by omega, by simpa using hfirst, ?_⟩
  rw [hrest, trailers_subscript hparts rfl, lower]
  simp

end Surface

end ModelGraph.Script
