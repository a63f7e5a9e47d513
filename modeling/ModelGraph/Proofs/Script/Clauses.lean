import ModelGraph.Proofs.Script.Phrases

/-!
# Reading lines

The readers of simple statements and of headers take the tokens of a line for the statement that they
were written for. What a header announces is left to the reader of blocks.
-/

namespace ModelGraph.Script

open Parse

/-! ## Items with commas between them that nothing encloses -/

theorem exists_commas_cons (run : List Token) (runs : List (List Token)) :
    ∃ others, commas (run :: runs) = run ++ others := by
  cases runs with
  | nil => exact ⟨[], by simp⟩
  | cons second runs => exact ⟨_, commas_cons_cons run second runs⟩

/-- A reader of one item or more up to a token that stops it, which is left. It is given what it has
read so far, and every round takes one from its bound. -/
structure SeriesLoop (α β : Type) where
  loop : Nat → List α → Parse (List α)
  Stops : Token → Prop
  run : β → List Token
  value : β → α

namespace SeriesLoop

variable {α β : Type} (l : SeriesLoop α β)

/-- One round reads an item; a comma leads to the next round unless the series stops behind it. -/
structure ReadsItem (b : β) : Prop where
  begins : ∀ line ts, ¬ l.Stops (next (placed line (l.run b) ++ ts))
  last : ∀ fuel line done ts, 20 * (l.run b).length ≤ fuel → l.Stops (next ts) →
    l.loop (fuel + 1) done (placed line (l.run b) ++ ts) = .ok ((l.value b :: done).reverse, ts)
  goesOn : ∀ fuel line done ts, 20 * (l.run b).length ≤ fuel → ¬ l.Stops (next ts) →
    l.loop (fuel + 1) done (placed line (l.run b) ++ ⟨.op ",", line⟩ :: ts) =
      l.loop fuel (l.value b :: done) ts

theorem loop_commas {l : SeriesLoop α β} (b : β) (items : List β)
    (hitems : ∀ b' ∈ b :: items, l.ReadsItem b') (fuel line : Nat) (done : List α) (ts : List Placed)
    (hfuel : 20 * (commas ((b :: items).map l.run)).length < fuel) (hts : l.Stops (next ts)) :
    l.loop fuel done (placed line (commas ((b :: items).map l.run)) ++ ts) =
      .ok (done.reverse ++ (b :: items).map l.value, ts) := by
  induction items generalizing b fuel done with
  | nil =>
      obtain ⟨fuel, rfl⟩ := Nat.exists_eq_succ_of_ne_zero (Nat.ne_zero_of_lt hfuel)
      have hread := (hitems b (by simp)).last fuel line done ts
        (by simpa using Nat.le_of_lt_succ hfuel) hts
      simpa using hread
  | cons b' items ih =>
      obtain ⟨fuel, rfl⟩ := Nat.exists_eq_succ_of_ne_zero (Nat.ne_zero_of_lt hfuel)
      simp only [List.map_cons, commas_cons_cons, List.length_append, List.length_cons] at hfuel
      have hnext : ¬ l.Stops (next (placed line (commas ((b' :: items).map l.run)) ++ ts)) := by
        obtain ⟨others, hothers⟩ := exists_commas_cons (l.run b') (items.map l.run)
        rw [List.map_cons, hothers, placed_append, List.append_assoc]
        exact (hitems b' (by simp)).begins line _
      have hread := (hitems b (by simp)).goesOn fuel line done
        (placed line (commas ((b' :: items).map l.run)) ++ ts) (by omega) hnext
      have hrest := ih b' (fun b hb => hitems b (List.mem_cons_of_mem _ hb)) fuel (l.value b :: done)
        (by simp only [List.map_cons]; omega)
      rw [hrest] at hread
      simpa using hread

end SeriesLoop

/-! ## Listings -/

/-- What stops the expressions of a tuple without parentheses. -/
def StopsListing (t : Token) : Prop := t ∈ [.newline, .op "=", .op ":"]

theorem stopsListing_of_newline {t : Token} (h : t = .newline) : StopsListing t := by
  simp [StopsListing, h]

theorem StopsListing.ends {ts : List Placed} (h : StopsListing (next ts)) : Ends 0 ts := by
  simp only [StopsListing, List.mem_cons, List.not_mem_nil, or_false] at h
  rcases h with h | h | h <;> exact ⟨0, by rw [h]; rfl, Nat.le_refl 0⟩

theorem StopsListing.ne_comma {t : Token} (h : StopsListing t) : t ≠ .op "," := by
  rintro rfl
  simp [StopsListing] at h

theorem StopsListing.endsExpression {t : Token} (h : StopsListing t) : endsExpression t = true := by
  simp only [StopsListing, List.mem_cons, List.not_mem_nil, or_false] at h
  rcases h with rfl | rfl | rfl <;> rfl

namespace Surface

def bareLoop : SeriesLoop Expr Surface where
  loop := expressionItems
  Stops := StopsListing
  run := tokens
  value := lower

/-- No mark that ends expressions begins one. -/
theorem endsExpression_next (e : Surface) (line : Nat) (ts : List Placed) :
    endsExpression (next (placed line e.tokens ++ ts)) = false := by
  obtain ⟨t, rest, htokens, hopens, -⟩ := e.begins_tokens.mono (Nat.zero_le _)
  rw [htokens]
  cases t with
  | op o =>
      simp only [opens, List.mem_cons, List.not_mem_nil, or_false] at hopens
      rcases hopens with (rfl | rfl | rfl) | ⟨rfl | rfl | rfl, -⟩ <;> rfl
  | newline | eof => exact hopens.elim
  | _ => rfl

theorem readsItem_bare (e : Surface) : bareLoop.ReadsItem e where
  begins line ts hstops := by
    have hends := StopsListing.endsExpression hstops
    simp [bareLoop, e.endsExpression_next line ts] at hends
  last fuel line done ts hfuel hts := by
    have hstops : StopsListing (next ts) := hts
    have hread := e.understood.whole fuel line ts hfuel hstops.ends
    have hopen := e.endsExpression_next line ts
    simp [bareLoop, expressionItems, hopen, hread, hstops.ne_comma]
  goesOn fuel line done ts hfuel _ := by
    have hread := e.understood.whole fuel line (⟨.op ",", line⟩ :: ts) hfuel
      (ends_cons rfl (Nat.le_refl 0))
    have hopen := e.endsExpression_next line (⟨.op ",", line⟩ :: ts)
    simp [bareLoop, expressionItems, hopen, hread]

end Surface

section Reading

variable (fuel line : Nat) (ts : List Placed)

theorem expressionList_listing (l : Listing) (hfuel : 20 * l.tokens.length ≤ fuel)
    (hts : StopsListing (next ts)) :
    expressionList fuel (placed line l.tokens ++ ts) = .ok (l.lower, ts) := by
  cases l with
  | one e => exact expressionList_tokens e line hfuel hts.ends hts.ne_comma
  | bare first others =>
      simp only [Listing.tokens, List.length_append, List.length_cons] at hfuel
      have hread := first.understood.whole fuel line
        (⟨.op ",", line⟩ :: (placed line (commas (others.map Surface.tokens)) ++ ts)) (by omega)
        (ends_cons rfl (Nat.le_refl 0))
      have hitems : expressionItems fuel [first.lower]
          (placed line (commas (others.map Surface.tokens)) ++ ts) =
            .ok (first.lower :: others.map Surface.lower, ts) := by
        cases others with
        | nil =>
            obtain ⟨fuel, rfl⟩ : ∃ n, fuel = n + 1 := ⟨fuel - 1, by omega⟩
            simp [expressionItems, hts.endsExpression]
        | cons second others =>
            have hloop := SeriesLoop.loop_commas (l := Surface.bareLoop) second others
              (fun e _ => e.readsItem_bare) fuel line [first.lower] ts
              (by simp only [Surface.bareLoop]; omega) hts
            simpa [Surface.bareLoop] using hloop
      simp [Listing.tokens, expressionList, hread, hitems, Listing.lower]

/-! ## Imports -/

theorem dottedRest_members (members : List Identifier) (hts : next ts ≠ .op ".")
    (hfuel : members.length < fuel) (text : String) :
    dottedRest fuel text
        (placed line (members.flatMap fun member => [.op ".", .name member.name]) ++ ts) =
      .ok (members.foldl (fun text member => text ++ "." ++ member.name) text, ts) := by
  induction members generalizing fuel text with
  | nil =>
      obtain ⟨fuel, rfl⟩ := Nat.exists_eq_succ_of_ne_zero (Nat.ne_zero_of_lt hfuel)
      simp [dottedRest, hts]
  | cons member members ih =>
      obtain ⟨fuel, rfl⟩ := Nat.exists_eq_succ_of_ne_zero (Nat.ne_zero_of_lt hfuel)
      have hrest := ih fuel (Nat.lt_of_succ_lt_succ hfuel) (text ++ "." ++ member.name)
      simp only [List.flatMap_cons, placed_append, List.foldl_cons]
      simp [dottedRest, hrest]

theorem dottedName_tokens (n : DottedName) (hts : next ts ≠ .op ".")
    (hfuel : n.tokens.length ≤ fuel) :
    dottedName fuel (placed line n.tokens ++ ts) = .ok (n.text, ts) := by
  have hmembers : n.members.length < fuel := by
    have hlength : n.tokens.length = 2 * n.members.length + 1 := by
      simp [DottedName.tokens, List.length_flatMap, Nat.mul_comm]
    omega
  have hrest := dottedRest_members fuel line ts n.members hts hmembers n.first.name
  simp [dottedName, DottedName.tokens, DottedName.text, hrest]

section Imports

variable {α : Type}

/-- The loop over imported names, by a reader of one name. -/
def importLoop (name : Parse String) (run : α → List Token) (text : α → String) :
    SeriesLoop ImportName (Imported α) where
  loop := importNames name (Parse.pure false)
  Stops t := t = .newline
  run := Imported.tokens run
  value := Imported.lower text

/-- A reader takes the tokens of a name, if no point follows them. -/
def ReadsName (name : Parse String) (tokens : List Token) (text : String) : Prop :=
  ∀ line ts, next ts ≠ .op "." → name (placed line tokens ++ ts) = .ok (text, ts)

theorem readsItem_import {name : Parse String} {run : α → List Token} {text : α → String}
    {i : Imported α} (h : ReadsName name (run i.source) (text i.source))
    (hbegins : ∃ n rest, run i.source = .name n :: rest) :
    (importLoop name run text).ReadsItem i where
  begins line ts := by
    obtain ⟨n, rest, hrun⟩ := hbegins
    simp [importLoop, Imported.tokens, hrun]
  last fuel line done ts hfuel hts := by
    have hstops : next ts = .newline := hts
    cases hlocal : i.localName with
    | none =>
        have hread := h line ts (by simp [hstops])
        simp [importLoop, importNames, Imported.tokens, Imported.lower, hlocal, hread,
          importLocalName, hstops]
    | some n =>
        have hread := h line (⟨.name "as", line⟩ :: ⟨.name n.name, line⟩ :: ts) (by simp)
        simp [importLoop, importNames, Imported.tokens, Imported.lower, hlocal, hread,
          importLocalName, hstops]
  goesOn fuel line done ts hfuel _ := by
    cases hlocal : i.localName with
    | none =>
        have hread := h line (⟨.op ",", line⟩ :: ts) (by simp)
        simp [importLoop, importNames, Imported.tokens, Imported.lower, hlocal, hread,
          importLocalName, Parse.pure]
    | some n =>
        have hread := h line (⟨.name "as", line⟩ :: ⟨.name n.name, line⟩ :: ⟨.op ",", line⟩ :: ts)
          (by simp)
        simp [importLoop, importNames, Imported.tokens, Imported.lower, hlocal, hread,
          importLocalName, Parse.pure]

theorem importNames_imported {name : Parse String} {run : α → List Token} {text : α → String}
    {first : Imported α} {others : List (Imported α)}
    (hnames : ∀ i ∈ first :: others, ReadsName name (run i.source) (text i.source) ∧
      ∃ n rest, run i.source = .name n :: rest)
    (hfuel : 20 * (commas ((first :: others).map (Imported.tokens run))).length < fuel)
    (hts : next ts = .newline) :
    importNames name (Parse.pure false) fuel []
        (placed line (commas ((first :: others).map (Imported.tokens run))) ++ ts) =
      .ok ((first :: others).map (Imported.lower text), ts) :=
  SeriesLoop.loop_commas (l := importLoop name run text) first others
    (fun i hi => readsItem_import (hnames i hi).1 (hnames i hi).2) fuel line [] ts hfuel hts

end Imports

theorem length_le_commas {run : List Token} {runs : List (List Token)} (h : run ∈ runs) :
    run.length ≤ (commas runs).length := by
  induction runs with
  | nil => cases h
  | cons first runs ih =>
      obtain ⟨others, hothers⟩ := exists_commas_cons first runs
      rcases List.mem_cons.mp h with rfl | hmem
      · rw [hothers, List.length_append]
        omega
      · have hle := ih hmem
        cases runs with
        | nil => cases hmem
        | cons second runs =>
            rw [commas_cons_cons, List.length_append, List.length_cons]
            omega

/-! ## Simple statements -/

/-- No word that begins a statement of its own begins an expression, so what begins with one is an
assignment, a declaration or an expression. -/
theorem simpleStatement_of_next (h : ∀ n, next ts = .name n → isKeyword n = false) :
    simpleStatement fuel ts = assignment fuel ts := by
  unfold simpleStatement
  simp only [bind_apply, peek_apply, ok_bind]
  generalize next ts = t at h
  split
  case h_6 n _ _ _ _ _ => rw [h n rfl]; rfl
  case h_7 => rfl
  all_goals exact absurd (h _ rfl) (by decide)

/-- A line that begins like an expression but with no negation. -/
theorem simpleStatement_opening (o : Opening) :
    simpleStatement fuel (placed line o.listing.tokens ++ ts) =
      assignment fuel (placed line o.listing.tokens ++ ts) := by
  obtain ⟨t, rest, htokens, hopens, -⟩ := o.listing.begins_tokens
  refine simpleStatement_of_next fuel _ fun n hn => ?_
  rw [htokens] at hn
  obtain rfl : t = .name n := hn
  rcases hopens with hkeyword | ⟨rfl, -⟩
  · exact hkeyword
  · exact absurd (by rw [htokens]; rfl) o.head?_tokens_ne

theorem assignment_opening (o : Opening) (hfuel : 20 * o.listing.tokens.length ≤ fuel)
    (hts : next ts = .newline) :
    assignment fuel (placed line o.listing.tokens ++ ts) = .ok (.expr o.listing.lower, ts) := by
  have hread := expressionList_listing fuel line ts o.listing hfuel (stopsListing_of_newline hts)
  simp [assignment, hread, hts, augmented?]

theorem assignment_declared (o : Opening) (declaredType : Option Surface) (value : Listing)
    (hfuel : 20 * (SimpleStatement.assign o declaredType value).tokens.length ≤ fuel)
    (hts : next ts = .newline) :
    assignment fuel (placed line (SimpleStatement.assign o declaredType value).tokens ++ ts) =
      .ok (.assign o.listing.lower value.lower, ts) := by
  simp only [SimpleStatement.tokens, List.length_append, List.length_cons] at hfuel
  have hvalue := expressionList_listing fuel line ts value (by omega)
    (stopsListing_of_newline hts)
  cases declaredType with
  | none =>
      have htarget := expressionList_listing fuel line
        (⟨.op "=", line⟩ :: (placed line value.tokens ++ ts)) o.listing (by omega)
        (by simp [StopsListing])
      simp [SimpleStatement.tokens, markedTokens, assignment, htarget, hvalue, hts]
  | some T =>
      simp only [markedTokens, List.length_cons] at hfuel
      have htarget := expressionList_listing fuel line
        (⟨.op ":", line⟩ :: (placed line T.tokens ++
          ⟨.op "=", line⟩ :: (placed line value.tokens ++ ts))) o.listing (by omega)
        (by simp [StopsListing])
      have htype := T.understood.whole fuel line
        (⟨.op "=", line⟩ :: (placed line value.tokens ++ ts)) (by omega) (ends_cons rfl (Nat.le_refl 0))
      simp [SimpleStatement.tokens, markedTokens, assignment, htarget, htype, hvalue]

theorem assignment_declaration (n : Identifier) (T : Surface)
    (hfuel : 20 * (SimpleStatement.declare n T).tokens.length ≤ fuel) (hts : next ts = .newline) :
    assignment fuel (placed line (SimpleStatement.declare n T).tokens ++ ts) =
      .ok (.declare n.name (some T.lower), ts) := by
  simp only [SimpleStatement.tokens, List.length_cons] at hfuel
  have henough : 20 * (Surface.name n).tokens.length ≤ fuel := by
    simp only [Surface.tokens, List.length_singleton]
    omega
  have hcolon : Ends 0 (⟨.op ":", line⟩ :: (placed line T.tokens ++ ts)) :=
    ends_cons rfl (Nat.le_refl 0)
  have htarget := expressionList_tokens (.name n) line henough hcolon (by simp)
  simp only [Surface.tokens, placed_cons, placed_nil, List.cons_append, List.nil_append,
    Surface.lower] at htarget
  have htype := T.understood.whole fuel line ts (by omega) (stopsListing_of_newline hts).ends
  simp [SimpleStatement.tokens, assignment, htarget, htype, hts]

theorem leadingDots_of_next (hts : next ts ≠ .op "." ∧ next ts ≠ .op "...") (dots : String) :
    leadingDots (fuel + 1) dots ts = .ok (dots, ts) := by
  simp [leadingDots, hts]

theorem importFrom_names (module : DottedName) {n : Identifier} {names : List Token}
    {imported : List ImportName} (hfuel : module.tokens.length < fuel)
    (hread : importNames expectName (Parse.pure false) fuel []
      (placed line (.name n.name :: names) ++ ts) = .ok (imported, ts)) :
    importFrom fuel (placed line (module.tokens ++ .name "import" :: .name n.name :: names) ++ ts) =
      .ok (.importsFrom module.text imported, ts) := by
  obtain ⟨fuel, rfl⟩ := Nat.exists_eq_succ_of_ne_zero (Nat.ne_zero_of_lt hfuel)
  have hmodule := dottedName_tokens (fuel + 1) line
    (⟨.name "import", line⟩ :: (placed line (.name n.name :: names) ++ ts)) module (by simp) hfuel.le
  have himport := module.first.ne_of_isKeyword "import" (by decide)
  simp only [DottedName.tokens, placed_cons, List.cons_append] at hmodule hread
  simp [importFrom, DottedName.tokens, leadingDots_of_next, himport, hmodule, expectKeyword, hread]

theorem simpleStatement_from :
    simpleStatement fuel (⟨.name "from", line⟩ :: ts) = importFrom fuel ts := rfl

theorem simpleStatement_tokens (s : SimpleStatement) (hfuel : 20 * s.tokens.length ≤ fuel)
    (hts : next ts = .newline) :
    simpleStatement fuel (placed line s.tokens ++ ts) = .ok (s.lower, ts) := by
  cases s with
  | pass => simp [simpleStatement, SimpleStatement.tokens, SimpleStatement.lower]
  | «return» value =>
      cases value with
      | none => simp [simpleStatement, SimpleStatement.tokens, SimpleStatement.lower, atLineEnd, hts]
      | some value =>
          simp only [SimpleStatement.tokens, List.length_cons] at hfuel
          have hread := expressionList_listing fuel line ts value (by omega)
            (stopsListing_of_newline hts)
          have hbegins := value.begins_tokens
          have hnewline := hbegins.next_ne (t := .newline) (by simp [opens]) line ts
          have heof := hbegins.next_ne (t := .eof) (by simp [opens]) line ts
          have hsemicolon := hbegins.next_ne (t := .op ";") (by simp [opens]) line ts
          simp [simpleStatement, SimpleStatement.tokens, SimpleStatement.lower, atLineEnd, hnewline,
            heof, hsemicolon, hread]
  | declare n T =>
      have hnext : ∀ m, next (placed line (SimpleStatement.declare n T).tokens ++ ts) = .name m →
          isKeyword m = false := by
        rintro m hm
        obtain rfl : n.name = m := Token.name.inj hm
        exact n.not_keyword
      rw [simpleStatement_of_next fuel _ hnext, assignment_declaration fuel line ts n T hfuel hts]
      rfl
  | assign target T value =>
      have hread := assignment_declared fuel line ts target T value hfuel hts
      have hopening := simpleStatement_opening fuel line
        (placed line (markedTokens ":" T ++ .op "=" :: value.tokens) ++ ts) target
      rw [← List.append_assoc, ← placed_append, ← List.append_assoc] at hopening
      exact hopening.trans hread
  | expr value =>
      exact (simpleStatement_opening fuel line ts value).trans
        (assignment_opening fuel line ts value hfuel hts)
  | imports first others =>
      simp only [SimpleStatement.tokens, List.length_cons] at hfuel
      have hnames : ∀ i ∈ first :: others,
          ReadsName (dottedName fuel) i.source.tokens i.source.text ∧
            ∃ n rest, i.source.tokens = .name n :: rest := by
        refine fun i hi => ⟨fun line ts hts => dottedName_tokens fuel line ts _ hts ?_, _, _, rfl⟩
        have hle := length_le_commas
          (List.mem_map_of_mem (f := Imported.tokens DottedName.tokens) hi)
        simp only [Imported.tokens, List.length_append] at hle
        omega
      have hread := importNames_imported fuel line ts hnames (by omega) hts
      simp only [List.map_cons] at hread
      simp [simpleStatement, SimpleStatement.tokens, SimpleStatement.lower, hread]
  | importsFrom module first others =>
      have hnames : ∀ i ∈ first :: others,
          ReadsName expectName [.name i.source.name] i.source.name ∧
            ∃ n rest, [Token.name i.source.name] = .name n :: rest :=
        fun i _ => ⟨fun line ts _ => expectName_cons i.source line ts, _, _, rfl⟩
      simp only [SimpleStatement.tokens, List.length_append, List.length_cons] at hfuel
      have hread : importNames expectName (Parse.pure false) fuel []
          (placed line (commas ((first :: others).map (Imported.tokens ([.name ·.name])))) ++ ts) =
            .ok ((first :: others).map (Imported.lower Identifier.name), ts) :=
        importNames_imported fuel line ts hnames (by omega) hts
      obtain ⟨names, hcons⟩ := exists_commas_cons (first.tokens ([.name ·.name]))
        (others.map (Imported.tokens ([.name ·.name])))
      rw [List.map_cons, hcons] at hread
      have himports := importFrom_names fuel line ts module (by omega) hread
      simp only [SimpleStatement.tokens, List.map_cons, hcons]
      exact (simpleStatement_from fuel line _).trans himports

/-! ## Lines of statements -/

/-- What begins something else than simple statements. -/
def blockStarts : List Token :=
  [.name "def", .name "class", .name "if", .name "for", .name "while", .op "@", .indent]

theorem statement_of_next (h : next ts ∉ blockStarts) :
    statement (fuel + 1) ts = simpleStatements fuel [] ts := by
  simp only [blockStarts, List.mem_cons, List.not_mem_nil, or_false, not_or] at h
  unfold statement
  simp only [bind_apply, peek_apply, ok_bind]
  generalize next ts = t at h
  split <;> simp_all

theorem Begins.next_notMem {place : Nat} {tokens : List Token} (h : Begins place tokens) :
    next (placed line tokens ++ ts) ∉ blockStarts := by
  intro hmem
  have hopens : ∀ t ∈ blockStarts, ¬ opens 0 t := by simp [blockStarts, opens, isKeyword, keywords]
  exact (h.mono (Nat.zero_le _)).next_ne (hopens _ hmem) line ts rfl

theorem SimpleStatement.next_notMem (s : SimpleStatement) :
    next (placed line s.tokens ++ ts) ∉ blockStarts := by
  cases s with
  | «return» value => cases value <;> simp [tokens, blockStarts]
  | declare n T =>
      have hbegins : Begins 0 (declare n T).tokens := ⟨_, _, rfl, Or.inl n.not_keyword, by simp⟩
      exact hbegins.next_notMem line ts
  | assign target T value =>
      rw [tokens, List.append_assoc, placed_append, List.append_assoc]
      exact target.listing.begins_tokens.next_notMem line _
  | expr value => exact value.listing.begins_tokens.next_notMem line ts
  | _ => simp [tokens, blockStarts]

/-- A line with a simple statement is used up. -/
theorem statement_simple (s : SimpleStatement) (hfuel : 20 * s.tokens.length ≤ fuel) (line' : Nat) :
    statement (fuel + 2) (placed line s.tokens ++ ⟨.newline, line'⟩ :: ts) = .ok ([s.lower], ts) := by
  have hread := simpleStatement_tokens fuel line (⟨.newline, line'⟩ :: ts) s hfuel rfl
  rw [statement_of_next (fuel + 1) _ (s.next_notMem line _)]
  simp [simpleStatements, hread, expectLineEnd]

/-! ## Headers -/

/-- The loop over the parameters of a definition. -/
def parameterLoop : ItemLoop Parameter SurfaceParameter (List Parameter) where
  loop := parameters
  close := ")"
  result := List.reverse
  run := SurfaceParameter.tokens
  value := SurfaceParameter.lower

theorem closes_parameter : parameterLoop.Closes := by
  intro fuel done ts hts
  change parameters (fuel + 1) done ts = _
  have hclose : next ts = .op ")" := hts
  simp [parameters, hclose, parameterLoop]

/-- An expression is read if the mark that announces it is there. -/
theorem when_marked (m : String) (e : Option Surface) (hfuel : 20 * (markedTokens m e).length ≤ fuel)
    (hends : Ends 0 ts) (hts : next ts ≠ .op m) :
    Parse.when (decide (next (placed line (markedTokens m e) ++ ts) = .op m)) (expression fuel)
        (if next (placed line (markedTokens m e) ++ ts) = .op m then
          (placed line (markedTokens m e) ++ ts).tail else placed line (markedTokens m e) ++ ts) =
      .ok (e.map Surface.lower, ts) := by
  cases e with
  | none => simp [markedTokens, hts]
  | some e =>
      simp only [markedTokens, List.length_cons] at hfuel
      have hread := e.understood.whole fuel line ts (by omega) hends
      simp [markedTokens, hread]

/-- What a mark does not begin, an optional expression with that mark before it does not begin. -/
theorem ends_marked {m : String} (e : Option Surface) (hm : bond (.op m) = some 0)
    (hends : Ends 0 ts) :
    Ends 0 (placed line (markedTokens m e) ++ ts) := by
  cases e with
  | none => exact hends
  | some e => exact ends_cons hm (Nat.le_refl 0)

theorem readsItem_parameter (p : SurfaceParameter) : parameterLoop.ReadsItem p := by
  intro fuel line done ts hfuel hts
  have hends := Surface.ends_item (by rfl) hts 0
  have hequals : next ts ≠ .op "=" := by rcases hts with hts | hts <;> simp [hts, parameterLoop]
  have hcolon : next (placed line (markedTokens "=" p.default) ++ ts) ≠ .op ":" := by
    cases p.default with
    | none => rcases hts with hts | hts <;> simp [markedTokens, hts, parameterLoop]
    | some e => simp [markedTokens]
  simp only [parameterLoop, SurfaceParameter.tokens, List.length_append, List.length_cons] at hfuel
  have hdefault := when_marked fuel line ts "=" p.default (by omega) hends hequals
  have htype := when_marked fuel line (placed line (markedTokens "=" p.default) ++ ts) ":"
    p.declaredType (by omega) (ends_marked line ts p.default rfl hends) hcolon
  change parameters (fuel + 1) done (placed line p.tokens ++ ts) =
    if next ts = .op "," then parameters fuel (p.lower :: done) ts.tail
    else .ok ((p.lower :: done).reverse, ts)
  by_cases hcomma : next ts = .op "," <;>
    simp [parameters, SurfaceParameter.tokens, SurfaceParameter.lower, hcomma, htype, hdefault]

theorem callArguments_bases (bases : List Surface)
    (hfuel : 20 * (commas (bases.map Surface.tokens)).length < fuel) (hts : next ts = .op ")") :
    callArguments fuel [] (placed line (commas (bases.map Surface.tokens)) ++ ts) =
      .ok (bases.map fun e => (none, e.lower), ts) := by
  have hruns : (bases.map (none, ·)).map Surface.argumentLoop.run = bases.map Surface.tokens := by
    simp [Surface.argumentLoop, Surface.argument]
  have hreads : ∀ a ∈ bases.map (none, ·), Surface.argumentLoop.ReadsItem a :=
    List.forall_mem_map.mpr fun e _ => Surface.readsItem_argument none e.understood
  have hitems := ItemLoop.loop_commas (by decide) Surface.closes_argument hreads fuel line [] ts
  rw [hruns] at hitems
  simpa [Surface.argumentLoop, Function.comp_def] using hitems hfuel hts

/-- The loop over what a loop assigns to. -/
def targetLoop : SeriesLoop Expr Surface where
  loop := loopTargets
  Stops t := t = .name "in"
  run := Surface.tokensAt 4
  value := Surface.lower

/-- The loop over what a loop runs over. -/
def iterableLoop : SeriesLoop Expr Surface where
  loop := loopIterables
  Stops t := t = .op ":"
  run := Surface.tokens
  value := Surface.lower

theorem readsItem_target (e : Surface) : targetLoop.ReadsItem e where
  begins line ts := (e.begins_tokensAt 4).next_ne (by simp [opens, isKeyword, keywords]) line ts
  last fuel line done ts hfuel hts := by
    have hstops : next ts = .name "in" := hts
    have hread := e.understood.alternative fuel line ts (Nat.le_add_right_of_le hfuel)
      ⟨4, by rw [hstops]; rfl, Nat.le_refl 4⟩
    simp [targetLoop, loopTargets, hread, hstops]
  goesOn fuel line done ts hfuel hts := by
    have hstops : next ts ≠ .name "in" := hts
    have hread := e.understood.alternative fuel line (⟨.op ",", line⟩ :: ts)
      (Nat.le_add_right_of_le hfuel) (ends_cons rfl (Nat.zero_le _))
    simp [targetLoop, loopTargets, hread, hstops]

theorem readsItem_iterable (e : Surface) : iterableLoop.ReadsItem e where
  begins line ts := e.begins_tokens.next_ne (by simp [opens]) line ts
  last fuel line done ts hfuel hts := by
    have hstops : next ts = .op ":" := hts
    have hread := e.understood.whole fuel line ts hfuel ⟨0, by rw [hstops]; rfl, Nat.le_refl 0⟩
    simp [iterableLoop, loopIterables, hread, hstops]
  goesOn fuel line done ts hfuel hts := by
    have hstops : next ts ≠ .op ":" := hts
    have hread := e.understood.whole fuel line (⟨.op ",", line⟩ :: ts) hfuel
      (ends_cons rfl (Nat.le_refl 0))
    simp [iterableLoop, loopIterables, hread, hstops]

/-- A header is read up to its block, and the block completes the statement. -/
theorem statement_header (h : Header) {body : List Statement} {after : List Placed}
    (hfuel : 20 * h.tokens.length ≤ fuel) (hbody : suite fuel ts = .ok (body, after))
    (helse : next after ≠ .name "else") :
    statement (fuel + 1) (placed line h.tokens ++ ts) = .ok ([h.lower body], after) := by
  cases h with
  | defineFunction name ps returns =>
      simp only [Header.tokens, List.length_append, List.length_cons] at hfuel
      have hreads : ∀ p ∈ ps, parameterLoop.ReadsItem p := fun p _ => readsItem_parameter p
      have hparameters := ItemLoop.loop_commas (by decide) closes_parameter hreads fuel line []
        (⟨.op ")", line⟩ :: (placed line (markedTokens "->" returns) ++ ⟨.op ":", line⟩ :: ts))
        (by simp only [parameterLoop]; omega) rfl
      simp only [parameterLoop] at hparameters
      have hreturns := when_marked fuel line (⟨.op ":", line⟩ :: ts) "->" returns (by omega)
        (ends_cons rfl (Nat.le_refl 0)) (by simp)
      simp [statement, Header.tokens, Header.lower, hparameters, hreturns, hbody]
  | defineClass name bases =>
      cases bases with
      | none => simp [statement, Header.tokens, Header.lower, hbody]
      | some bases =>
          simp only [Header.tokens, List.length_append, List.length_cons] at hfuel
          have hbases := callArguments_bases fuel line (⟨.op ")", line⟩ :: ⟨.op ":", line⟩ :: ts) bases
            (by omega) rfl
          simp [statement, Header.tokens, Header.lower, hbases, hbody]
  | «for» target targets iterable iterables =>
      simp only [Header.tokens, List.length_append, List.length_cons] at hfuel
      have htargets := SeriesLoop.loop_commas (l := targetLoop) target targets
        (fun e _ => readsItem_target e) fuel line [] (⟨.name "in", line⟩ ::
          (placed line (commas ((iterable :: iterables).map Surface.tokens)) ++ ⟨.op ":", line⟩ :: ts))
        (by simp only [targetLoop]; omega) rfl
      have hiterables := SeriesLoop.loop_commas (l := iterableLoop) iterable iterables
        (fun e _ => readsItem_iterable e) fuel line [] (⟨.op ":", line⟩ :: ts)
        (by simp only [iterableLoop]; omega) rfl
      simp only [targetLoop, iterableLoop, List.map_cons] at htargets hiterables
      simp [statement, Header.tokens, Header.lower, htargets, hiterables, expectKeyword, hbody, helse]
  | «while» condition =>
      simp only [Header.tokens, List.length_append, List.length_cons] at hfuel
      have hcondition := condition.understood.whole fuel line (⟨.op ":", line⟩ :: ts) (by omega)
        (ends_cons rfl (Nat.le_refl 0))
      simp [statement, Header.tokens, Header.lower, hcondition, hbody]

end Reading

end ModelGraph.Script
