import ModelGraph.Proofs.Script.Stage

/-!
# Reading operators

The innermost stage of an expression with an operator reads it, if all stages read its operands. For
a chain of comparisons this takes an induction over the chain.
-/

namespace ModelGraph.Script

open Parse

theorem BinaryOperator.function?_token (op : BinaryOperator) :
    op.level.function? op.token = some op.function := by
  cases op <;> rfl

/-- The comparison that the reader makes of an operator. -/
def ComparisonOperator.comparison : ComparisonOperator → Comparison
  | .eq => .function "torch.eq"
  | .ne => .function "torch.ne"
  | .lt => .function "torch.lt"
  | .le => .function "torch.le"
  | .gt => .function "torch.gt"
  | .ge => .function "torch.ge"
  | .contained => .contains
  | .notContained => .containsNot
  | .same => .same
  | .notSame => .sameNot

namespace ComparisonOperator

theorem apply_comparison (op : ComparisonOperator) (left right : Expr) :
    op.comparison.apply left right = op.lower left right := by
  cases op <;> rfl

theorem length_tokens_pos (op : ComparisonOperator) : 0 < op.tokens.length := by
  cases op <;> decide

theorem ends_tokens (op : ComparisonOperator) (line : Nat) (ts : List Placed) :
    Ends 4 (placed line op.tokens ++ ts) := by
  cases op <;> exact ends_cons rfl (Nat.le_refl 4)

/-- The word `not` after `is` would belong to the operator, but no operand begins with it. -/
theorem comparison?_tokens (op : ComparisonOperator) (line : Nat) {ts : List Placed}
    (hts : next ts ≠ .name "not") :
    comparison? (placed line op.tokens ++ ts) = .ok (some op.comparison, ts) := by
  cases op <;> simp [comparison?, tokens, comparison, hts]

end ComparisonOperator

namespace Surface

/-! ## Binary and unary operators -/

theorem understands_binary (op : BinaryOperator) {left right : Surface} (hleft : left.Understood)
    (hright : right.Understood) :
    (Stage.led op.level).Understands (binary op left right).tokens (binary op left right).lower := by
  intro fuel line ts hfuel hends
  have htokens : (binary op left right).tokens =
      left.tokensAt op.level.strength ++ op.token :: right.tokensAt (op.level.strength + 1) := rfl
  have hlevel := op.level.depth_le
  rw [htokens] at hfuel ⊢
  simp only [List.length_append, List.length_cons, Stage.depth] at hfuel ⊢
  have hfunction := op.function?_token
  obtain ⟨fuel', start, mid, hle, hfirst, hrest⟩ :=
    hleft.led op.level fuel line
      (⟨op.token, line⟩ :: placed line (right.tokensAt (op.level.strength + 1)) ++ ts) (by omega)
      (ends_cons (Level.bond_of_function? hfunction) (Nat.le_refl _))
  obtain ⟨fuel', rfl⟩ : ∃ n, fuel' = n + 1 := ⟨fuel' - 1, by omega⟩
  have hoperand := hright.operand op.level fuel' line ts (by omega) hends
  refine ⟨fuel', start, mid, by omega, by simpa using hfirst, ?_⟩
  simp only [hrest, binaryRest, bind_apply, peek_apply, ok_bind, List.cons_append, next_cons,
    hfunction, skip_cons, hoperand, lower]

theorem understands_not {operand : Surface} (h : operand.Understood) :
    Stage.negated.Understands (not operand).tokens (not operand).lower := by
  intro fuel line ts hfuel hends
  have htokens : (not operand).tokens = .name "not" :: operand.tokensAt 2 := rfl
  rw [htokens] at hfuel ⊢
  simp only [List.length_cons, Stage.depth] at hfuel
  obtain ⟨fuel, rfl⟩ : ∃ n, fuel = n + 1 := ⟨fuel - 1, by omega⟩
  have hread := h.negated fuel line ts (by omega) hends
  simp [negation, hread, lower]

theorem negate_lower (e : Surface) : negate e.lower = UnaryOperator.minus.lower e.lower := by
  cases hlower : e.lower with
  | float x => exact absurd hlower (e.lower_ne_float x)
  | _ => rfl

theorem understands_unary (op : UnaryOperator) {operand : Surface} (h : operand.Understood) :
    Stage.signed.Understands (unary op operand).tokens (unary op operand).lower := by
  intro fuel line ts hfuel hends
  have htokens : (unary op operand).tokens = op.token :: operand.tokensAt 8 := rfl
  rw [htokens] at hfuel ⊢
  simp only [List.length_cons, Stage.depth] at hfuel
  obtain ⟨fuel, rfl⟩ : ∃ n, fuel = n + 1 := ⟨fuel - 1, by omega⟩
  have hread := h.signed fuel line ts (by omega) hends
  cases op with
  | minus => simp [Script.signed, UnaryOperator.token, hread, lower, negate_lower]
  | plus => simp [Script.signed, UnaryOperator.token, hread, lower, UnaryOperator.lower]
  | invert => simp [Script.signed, UnaryOperator.token, hread, lower, UnaryOperator.lower]

theorem understands_power {base exponent : Surface} (hbase : base.Understood)
    (hexponent : exponent.Understood) :
    Stage.signed.Understands (power base exponent).tokens (power base exponent).lower := by
  intro fuel line ts hfuel hends
  have htokens : (power base exponent).tokens =
      base.tokensAt 10 ++ .op "**" :: exponent.tokensAt 8 := rfl
  rw [htokens] at hfuel ⊢
  simp only [List.length_append, List.length_cons, Stage.depth] at hfuel
  obtain ⟨fuel, rfl⟩ : ∃ n, fuel = n + 1 := ⟨fuel - 1, by omega⟩
  have hbegins := base.begins_tokensAt 10
  have hpos := hbegins.length_pos
  have hpower : Ends 10 (⟨.op "**", line⟩ :: placed line (exponent.tokensAt 8) ++ ts) :=
    ends_cons rfl (Nat.le_refl _)
  obtain ⟨fuel', start, mid, hle, hfirst, hrest⟩ :=
    hbase.trailed fuel line _ (by omega) (hpower.mono (by decide))
  obtain ⟨fuel', rfl⟩ : ∃ n, fuel' = n + 1 := ⟨fuel' - 1, by omega⟩
  rw [trailers_of_ends fuel' _ hpower] at hrest
  have hread := hexponent.signed fuel line ts (by omega) hends
  have hminus := hbegins.next_ne (t := .op "-") (by simp [opens]) line
  have hplus := hbegins.next_ne (t := .op "+") (by simp [opens]) line
  have hinvert := hbegins.next_ne (t := .op "~") (by simp [opens]) line
  rw [List.cons_append] at hfirst hrest
  simp [Script.signed, hminus, hplus, hinvert, hfirst, hrest, hread, lower]

/-! ## Chains of comparisons -/

theorem ends_chain {line : Nat} {ts : List Placed} (hends : Ends 4 ts)
    (others : List (ComparisonOperator × Surface)) :
    Ends 4 (placed line (chainTokens others) ++ ts) := by
  cases others with
  | nil => exact hends
  | cons link others =>
      obtain ⟨op, e⟩ := link
      simpa [chainTokens] using op.ends_tokens line _

/-- Every further comparison of a chain is joined to those before it. -/
theorem comparisons_chain {others : List (ComparisonOperator × Surface)}
    (h : ∀ link ∈ others, link.2.Understood) {fuel : Nat} (line : Nat)
    {ts : List Placed} (hfuel : 20 * (chainTokens others).length < fuel) (hends : Ends 3 ts) (last before : Expr) :
    comparisons fuel last (some before) (placed line (chainTokens others) ++ ts) =
      .ok (conjunction before (pairwise last (lowerChain others)), ts) := by
  induction others generalizing fuel last before with
  | nil =>
      obtain ⟨fuel, rfl⟩ := Nat.exists_eq_succ_of_ne_zero (Nat.ne_zero_of_lt hfuel)
      simp [comparisons, chainTokens, comparison?_of_ends hends, conjunction, pairwise]
  | cons link others ih =>
      obtain ⟨op, e⟩ := link
      obtain ⟨fuel, rfl⟩ := Nat.exists_eq_succ_of_ne_zero (Nat.ne_zero_of_lt hfuel)
      have htokens : chainTokens ((op, e) :: others) =
        op.tokens ++ (e.tokensAt 4 ++ chainTokens others) := by simp [chainTokens, tokensAt]
      rw [htokens] at hfuel ⊢
      simp only [List.length_append] at hfuel
      have hop := op.length_tokens_pos
      have hnot := (e.begins_tokensAt 4).next_ne (t := .name "not")
        (by simp [opens, isKeyword, keywords]) line (placed line (chainTokens others) ++ ts)
      have hcomparison := op.comparison?_tokens line hnot
      have he : e.Understood := h (op, e) (by simp)
      have hread := he.alternative fuel line (placed line (chainTokens others) ++ ts) (by omega)
        (ends_chain (hends.mono (by decide)) others)
      have henough : 20 * (chainTokens others).length < fuel := by omega
      have hrest := ih (fun link hlink => h link (List.mem_cons_of_mem _ hlink)) henough e.lower
        (.callOf "torch.__and__" [before, op.lower last e.lower])
      simp only [placed_append, List.append_assoc, comparisons, bind_apply, hcomparison, ok_bind,
        hread, op.apply_comparison, hrest]
      rfl

theorem understands_compare {first second : Surface} (op : ComparisonOperator)
    {others : List (ComparisonOperator × Surface)} (hfirst : first.Understood)
    (hsecond : second.Understood) (h : ∀ link ∈ others, link.2.Understood) :
    Stage.negated.Understands (compare first op second others).tokens
      (compare first op second others).lower := by
  intro fuel line ts hfuel hends
  have htokens : (compare first op second others).tokens =
      first.tokensAt 4 ++ (op.tokens ++ (second.tokensAt 4 ++ chainTokens others)) := by
    simp [tokens, tokensAt]
  rw [htokens] at hfuel ⊢
  simp only [List.length_append, Stage.depth] at hfuel
  have hop := op.length_tokens_pos
  obtain ⟨fuel, rfl⟩ : ∃ n, fuel = n + 2 := ⟨fuel - 2, by omega⟩
  have hfirstNot := (first.begins_tokensAt 4).next_ne (t := .name "not")
    (by simp [opens, isKeyword, keywords]) line
  have hsecondNot := (second.begins_tokensAt 4).next_ne (t := .name "not")
    (by simp [opens, isKeyword, keywords]) line (placed line (chainTokens others) ++ ts)
  have hreadFirst := hfirst.alternative (fuel + 1) line
    (placed line op.tokens ++ (placed line (second.tokensAt 4) ++
      (placed line (chainTokens others) ++ ts))) (by omega) (op.ends_tokens line _)
  have hreadSecond := hsecond.alternative fuel line (placed line (chainTokens others) ++ ts)
    (by omega) (ends_chain (hends.mono (by decide)) others)
  have hcomparison := op.comparison?_tokens line hsecondNot
  have henough : 20 * (chainTokens others).length < fuel := by omega
  have hchain := comparisons_chain h line henough (hends.mono (by decide)) second.lower
    (op.lower first.lower second.lower)
  simp only [placed_append, List.append_assoc, negation, bind_apply, eatKeyword_apply, hfirstNot,
    decide_false, Bool.false_eq_true, if_false, ok_bind, hreadFirst, comparisons, hcomparison,
    hreadSecond, op.apply_comparison, hchain, branch_apply]
  rfl

end Surface

end ModelGraph.Script
