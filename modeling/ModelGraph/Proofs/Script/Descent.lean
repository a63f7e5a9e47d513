import ModelGraph.Proofs.Script.Parameters
import ModelGraph.Proofs.Script.Progress

/-!
# The descent

Every reader of the grammar gets on. A statement takes at least one token, and each reader stands a
fixed number of calls above the operands that take the next one, fewer than twenty; so the bound on
the nesting is never used up. A sign is folded into a number only where the number has a negation, and
the parameters of functions are called by name tokens, which do not begin with digits.
Together with the scanner this bounds the reading of any text: it ends, with statements or with a
fault on one of the lines of the text.
-/

namespace ModelGraph.Script

/-! ## Expressions -/

/-- A sign can be folded into the expression if it is a number. -/
def Negatable (e : Expr) : Prop := ∀ i, e = .int i → i ≠ Int64.minValue

theorem negatable_int {i : Int64} (h : 0 ≤ i.toInt) : Negatable (.int i) := by
  rintro _ ⟨⟩ rfl
  exact absurd h (by decide)

theorem negatable_negate {e : Expr} (h : Negatable e) : Negatable (negate e) := by
  cases e with
  | int i =>
      rintro _ ⟨⟩ heq
      have hleast : i = Int64.minValue := by
        rw [← Int64.neg_neg (a := i), heq]
        rfl
      exact h i rfl hleast
  | _ => nofun

theorem negatable_apply (c : Comparison) (left right : Expr) : Negatable (c.apply left right) := by
  cases c <;> nofun

theorem subscriptOf?_cases (target : Expr) (parts : List IndexPart) :
    subscriptOf? target parts = .error .emptySubscript ∨
      ∃ e, subscriptOf? target parts = .ok e ∧ Negatable e := by
  unfold subscriptOf?
  split
  · exact .inl rfl
  · exact .inr ⟨_, rfl, nofun⟩
  · exact .inr ⟨_, rfl, nofun⟩

theorem advances_stringRun {room : Nat} (text : String) : Advances room 0 Negatable fun ts =>
    let (text, ts) := stringRun text ts
    .ok (Expr.str text, ts) := by
  intro ts _
  obtain ⟨passed, hpassed, hstr⟩ := exists_eq_append_stringRun text ts
  refine .ok ⟨passed, hpassed, Nat.zero_le _, fun t ht heof => ?_⟩ nofun
  obtain ⟨s, hs⟩ := hstr t ht
  exact Token.noConfusion (hs.symm.trans heof)

/-- How many calls an operand of the level stands above a signed operand. -/
def Level.height : Level → Nat
  | .product => 2
  | .sum => 4
  | .intersection => 6
  | .alternative => 8
  | .conjunction => 11
  | .disjunction => 13

theorem Level.height_le (level : Level) : level.height ≤ 13 := by
  cases level <;> decide

theorem Level.ne_eof {level : Level} {t : Token} {function : String}
    (h : level.function? t = some function) : t ≠ .eof := by
  rintro rfl
  cases level <;> cases h

mutual

theorem advances_expression : ∀ fuel, Advances (fuel - 15) 1 Negatable (expression fuel)
  | 0 => .deep
  | fuel + 1 => by
      unfold expression
      exact .atKeyword _ fun _ => .ite (.refuse _)
        ((advances_binary fuel .disjunction).bind (by simp only [Level.height]; omega) fun e he =>
          .atKeyword _ fun _ => .ite (.refuse _) (.pure he))

theorem advances_binary : ∀ fuel (level : Level),
    Advances (fuel - (level.height + 1)) 1 Negatable (binary fuel level)
  | 0, level => by
      unfold binary
      rw [Nat.zero_sub]
      exact .deep
  | fuel + 1, level => by
      unfold binary
      refine (advances_operand fuel level).bind (by omega) fun first hfirst =>
        (advances_binaryRest fuel level hfirst).bind (by omega) fun e he => .look fun t _ => ?_
      split
      · exact .ite (.here (.fail nofun)) (.here (.pure he))
      · exact .here (.pure he)

theorem advances_binaryRest : ∀ fuel (level : Level) {left : Expr}, Negatable left →
    Advances fuel 0 Negatable (binaryRest fuel level left)
  | 0, _, _, _ => .deep
  | fuel + 1, level, left, hleft => by
      have hheight := level.height_le
      unfold binaryRest
      refine .look fun t _ => ?_
      split
      · exact .here (.pure hleft)
      · exact .skip (level.ne_eof ‹_›) ((advances_operand fuel level).bind (by omega) fun right _ =>
          (advances_binaryRest fuel level (by nofun)).last (by omega))

theorem advances_operand : ∀ fuel (level : Level),
    Advances (fuel - level.height) 1 Negatable (operand fuel level)
  | 0, level => by
      unfold operand
      rw [Nat.zero_sub]
      exact .deep
  | fuel + 1, .disjunction =>
      (advances_binary fuel .conjunction).mono (by simp only [Level.height]; omega) (Nat.le_refl 1)
  | fuel + 1, .conjunction =>
      (advances_negation fuel).mono (by simp only [Level.height]; omega) (Nat.le_refl 1)
  | fuel + 1, .alternative =>
      (advances_binary fuel .intersection).mono (by simp only [Level.height]; omega) (Nat.le_refl 1)
  | fuel + 1, .intersection =>
      (advances_binary fuel .sum).mono (by simp only [Level.height]; omega) (Nat.le_refl 1)
  | fuel + 1, .sum =>
      (advances_binary fuel .product).mono (by simp only [Level.height]; omega) (Nat.le_refl 1)
  | fuel + 1, .product =>
      (advances_signed fuel).mono (by simp only [Level.height]; omega) (Nat.le_refl 1)

theorem advances_negation : ∀ fuel, Advances (fuel - 10) 1 Negatable (negation fuel)
  | 0 => .deep
  | fuel + 1 => by
      unfold negation
      exact .eatKeyword _
        ((advances_negation fuel).bind (by omega) fun _ _ => .pure (by nofun))
        ((advances_binary fuel .alternative).bind (by simp only [Level.height]; omega)
          fun first hfirst => (advances_comparisons fuel hfirst (by simp)).mono (by omega)
            (Nat.le_refl _))

theorem advances_comparisons : ∀ fuel {last : Expr} {before : Option Expr}, Negatable last →
    (∀ e ∈ before, Negatable e) → Advances fuel 0 Negatable (comparisons fuel last before)
  | 0, _, _, _, _ => .deep
  | fuel + 1, last, before, hlast, hbefore => by
      unfold comparisons
      refine .comparison? (.pure ?_) fun c => (advances_binary fuel .alternative).bind
        (by simp only [Level.height]; omega) fun right hright =>
          (advances_comparisons fuel hright fun e he => ?_).last (by omega)
      · cases before with
        | none => exact hlast
        | some before => exact hbefore before rfl
      · obtain rfl := Option.some.inj he
        cases before with
        | none => exact negatable_apply c last right
        | some before => nofun

theorem advances_signed : ∀ fuel, Advances (fuel - 1) 1 Negatable (signed fuel)
  | 0 => .deep
  | fuel + 1 => by
      unfold signed
      exact .eatOp _
        ((advances_signed fuel).bind (by omega) fun e he => .pure (negatable_negate he))
        (.eatOp _ ((advances_signed fuel).last (by omega))
          (.eatOp _ ((advances_signed fuel).bind (by omega) fun _ _ => .pure (by nofun))
            ((advances_atom fuel).bind (by omega) fun base hbase =>
              (advances_trailers fuel hbase).bind (by omega) fun base hbase =>
                .eatOp _ ((advances_signed fuel).bind (by omega) fun _ _ => .pure (by nofun))
                  (.pure hbase))))

theorem advances_trailers : ∀ fuel {e : Expr}, Negatable e →
    Advances fuel 0 Negatable (trailers fuel e)
  | 0, _, _ => .deep
  | fuel + 1, e, he => by
      unfold trailers
      refine .eatOp _
        ((advances_callArguments fuel []).bind (by omega) fun _ _ =>
          .takeOp _ ((advances_trailers fuel (by nofun)).last (by omega)))
        (.eatOp _
          ((advances_indexParts fuel []).bind (by omega) fun parts _ => .takeOp _ ?_)
          (.eatOp _
            (.takeName fun _ _ => (advances_trailers fuel (by nofun)).last (by omega))
            (.pure he)))
      rcases subscriptOf?_cases e parts with hparts | ⟨e, hparts, he⟩ <;> rw [hparts]
      · exact .fail nofun
      · exact (advances_trailers fuel he).last (by omega)

theorem advances_callArguments : ∀ fuel done,
    Advances (fuel - 16) 0 (fun _ => True) (callArguments fuel done)
  | 0, _ => .deep
  | fuel + 1, done => by
      unfold callArguments
      exact .atOp _ fun _ => .ite (.pure trivial)
        (.atOp _ fun _ => .atOp _ fun _ => .ite (.refuse _)
          (.argumentName? fun _ => (advances_expression fuel).bind (by omega) fun _ _ =>
            .atKeyword _ fun _ => .ite (.refuse _)
              (.eatOp _ ((advances_callArguments fuel _).last (by omega))
                (.pure trivial))))

theorem advances_indexParts : ∀ fuel done,
    Advances (fuel - 17) 0 (fun _ => True) (indexParts fuel done)
  | 0, _ => .deep
  | fuel + 1, done => by
      unfold indexParts
      exact .atOp _ fun _ => .ite (.pure trivial)
        (.atOp _ fun _ => .when _ (advances_expression fuel) (by omega) fun start =>
          (advances_indexPart fuel start).bind (by omega) fun _ _ => .ite
            (.eatOp _ ((advances_indexParts fuel _).last (by omega)) (.pure trivial))
            (.refuse _))

theorem advances_indexPart : ∀ fuel start,
    Advances (fuel - 16) 0 (fun _ => True) (indexPart fuel start)
  | 0, _ => .deep
  | fuel + 1, start => by
      unfold indexPart
      refine .tryOp _ fun _ => ?_
      split
      · exact .pure trivial
      · exact .atOp _ fun _ => .atOp _ fun _ => .atOp _ fun _ =>
          .when _ (advances_expression fuel) (by omega) fun _ => .tryOp _ fun _ =>
            .atOp _ fun _ => .atOp _ fun _ =>
              .when _ (advances_expression fuel) (by omega) fun _ => .pure trivial

theorem advances_atom : ∀ fuel, Advances fuel 1 Negatable (atom fuel)
  | 0 => .deep
  | fuel + 1 => by
      unfold atom
      refine .look fun t ht => ?_
      split
      · exact .ite (.here (.fail nofun)) (.skip nofun (.pure (by nofun)))
      · exact .skip nofun (.pure (negatable_int ht.int))
      · exact .skip nofun (.pure (by nofun))
      · exact .skip nofun (advances_stringRun _)
      · split
        · refine .skip nofun (.eatOp _ (.pure (by nofun))
            ((advances_expression fuel).bind (by omega) fun first hfirst => .atKeyword _ fun _ =>
              .ite (.refuse _) (.eatOp _ (.pure hfirst)
                (.eatOp _ ?_ ?_))))
          · exact (advances_tupleItems fuel _).bind (by omega) fun _ _ =>
              .takeOp _ (.pure (by nofun))
          · have hfirst : Advances (fuel + 1) 0 (fun _ => True) (Parse.pure [first]) :=
              .pure trivial
            exact hfirst.bind (by omega) fun _ _ => .takeOp _ (.pure (by nofun))
        · exact .skip nofun ((advances_listItems fuel _).bind (by omega) fun _ _ =>
            .takeOp _ (.pure (by nofun)))
        · exact .skip nofun ((advances_dictEntries fuel _).bind (by omega) fun _ _ =>
            .takeOp _ (.pure (by nofun)))
        · exact .here (.fail nofun)
      · exact .here (.fail nofun)

theorem advances_tupleItems : ∀ fuel done,
    Advances (fuel - 16) 0 (fun _ => True) (tupleItems fuel done)
  | 0, _ => .deep
  | fuel + 1, done => by
      unfold tupleItems
      exact .atOp _ fun _ => .ite (.pure trivial)
        ((advances_expression fuel).bind (by omega) fun _ _ =>
          .eatOp _ ((advances_tupleItems fuel _).last (by omega)) (.pure trivial))

theorem advances_listItems : ∀ fuel done,
    Advances (fuel - 16) 0 (fun _ => True) (listItems fuel done)
  | 0, _ => .deep
  | fuel + 1, done => by
      unfold listItems
      exact .atOp _ fun _ => .ite (.pure trivial)
        ((advances_expression fuel).bind (by omega) fun _ _ => .atKeyword _ fun _ =>
          .ite (.refuse _)
            (.eatOp _ ((advances_listItems fuel _).last (by omega)) (.pure trivial)))

theorem advances_dictEntries : ∀ fuel done,
    Advances (fuel - 16) 0 (fun _ => True) (dictEntries fuel done)
  | 0, _ => .deep
  | fuel + 1, done => by
      unfold dictEntries
      exact .atOp _ fun _ => .ite (.pure trivial)
        ((advances_expression fuel).bind (by omega) fun _ _ => .eatOp _
          ((advances_expression fuel).bind (by omega) fun _ _ => .atKeyword _ fun _ =>
            .ite (.refuse _)
              (.eatOp _ ((advances_dictEntries fuel _).last (by omega)) (.pure trivial)))
          (.refuse _))

end

theorem advances_expressionItems (fuel : Nat) (done : List Expr) :
    Advances (fuel - 16) 0 (fun _ => True) (expressionItems fuel done) := by
  induction fuel generalizing done with
  | zero => exact .deep
  | succ fuel ih =>
      unfold expressionItems
      exact .look fun _ _ => .here (.ite (.pure trivial)
        ((advances_expression fuel).bind (by omega) fun _ _ =>
          .eatOp _ ((ih _).last (by omega)) (.pure trivial)))

theorem advances_expressionList (fuel : Nat) :
    Advances (fuel - 15) 1 (fun _ => True) (expressionList fuel) :=
  (advances_expression fuel).bind (Nat.le_refl _) fun _ _ =>
    .eatOp _ ((advances_expressionItems fuel _).bind (by omega) fun _ _ => .pure trivial)
      (.pure trivial)

/-! ## Simple statements -/

theorem advances_dottedName (fuel : Nat) :
    Advances fuel 1 (fun _ => True) (dottedName fuel) := by
  have hrest (fuel : Nat) (name : String) :
      Advances fuel 0 (fun _ => True) (dottedRest fuel name) := by
    induction fuel generalizing name with
    | zero => exact .deep
    | succ fuel ih =>
        unfold dottedRest
        exact .eatOp _ (.takeName fun _ _ =>
          (ih _).last (by omega)) (.pure trivial)
  exact .takeName fun _ _ =>
    (hrest fuel _).mono (by omega) (Nat.le_refl _)

theorem advances_importNames {name : Parse String} {closes : Parse Bool} {room : Nat}
    {good : String → Prop} (hname : Advances room 1 good name)
    (hcloses : ∀ ts, ∃ b, closes ts = .ok (b, ts))
    {fuel : Nat} (hroom : fuel ≤ room) (done : List ImportName) :
    Advances fuel 1 (fun _ => True) (importNames name closes fuel done) := by
  induction fuel generalizing done with
  | zero => exact .deep
  | succ fuel ih =>
      unfold importNames
      exact hname.bind hroom fun _ _ => Advances.importLocalName.bind (Nat.le_refl _) fun _ _ =>
        .eatOp _ (.see hcloses fun _ => .ite (.pure trivial)
          ((ih (by omega) _).last (by omega))) (.pure trivial)

theorem advances_importFrom (fuel : Nat) :
    Advances fuel 1 (·.functions = []) (importFrom fuel) := by
  have hdots (fuel : Nat) (dots : String) :
      Advances fuel 0 (fun _ => True) (leadingDots fuel dots) := by
    induction fuel generalizing dots with
    | zero => exact .deep
    | succ fuel ih =>
        unfold leadingDots
        exact .eatOp _ ((ih _).last (by omega))
          (.eatOp _ ((ih _).last (by omega)) (.pure trivial))
  have hnames {closes : Parse Bool} (hcloses : ∀ ts, ∃ b, closes ts = .ok (b, ts)) :
      Advances fuel 1 (fun _ => True) (importNames expectName closes fuel []) :=
    advances_importNames Advances.expectName hcloses (Nat.le_refl fuel) []
  unfold importFrom
  exact (hdots fuel _).bind (Nat.le_refl _) fun _ _ => .atKeyword _ fun _ =>
    .when _ (advances_dottedName fuel) (by omega) fun _ =>
      .takeKeyword _ (.atOp _ fun _ => .ite (.refuse _)
        (.eatOp _
          ((hnames fun _ => ⟨_, rfl⟩).bind (by omega) fun _ _ => .takeOp _ (.pure rfl))
          ((hnames fun _ => ⟨_, rfl⟩).bind (by omega) fun _ _ => .pure rfl)))

theorem ne_eof_of_augmented? {t : Token} {function : String} (h : augmented? t = some function) :
    t ≠ .eof := by
  rintro rfl
  cases h

theorem advances_assignment (fuel : Nat) :
    Advances (fuel - 15) 1 (·.functions = []) (assignment fuel) := by
  unfold assignment
  refine (advances_expressionList fuel).bind (Nat.le_refl _) fun target _ => .eatOp _
    ((advances_expression fuel).bind (by omega) fun _ _ => .eatOp _
      ((advances_expressionList fuel).bind (by omega) fun _ _ => .pure rfl) ?_)
    (.eatOp _
      ((advances_expressionList fuel).bind (by omega) fun _ _ => .atOp _ fun _ =>
        .ite (.refuse _) (.pure rfl))
      (.look fun t _ => ?_))
  · split
    · exact .pure rfl
    · exact .fail nofun
  · split
    · exact .skip (ne_eof_of_augmented? ‹_›)
        ((advances_expression fuel).bind (by omega) fun _ _ => .pure rfl)
    · exact .here (.pure rfl)

theorem advances_simpleStatement (fuel : Nat) :
    Advances (fuel - 15) 1 (·.functions = []) (simpleStatement fuel) := by
  unfold simpleStatement
  refine .look fun t _ => ?_
  split
  · exact .skip nofun (.pure rfl)
  · exact .skip nofun (.atLineEnd fun _ => .atOp _ fun _ => .ite (.pure rfl)
      ((advances_expressionList fuel).bind (by omega) fun _ _ => .pure rfl))
  · exact .skip nofun ((advances_importNames (advances_dottedName fuel) (fun _ => ⟨_, rfl⟩)
      (Nat.le_refl fuel) _).bind (by omega) fun _ _ => .pure rfl)
  · exact .skip nofun ((advances_importFrom fuel).last (by omega))
  · refine .skip nofun (.atLineEnd fun _ => ?_)
    split
    · have hempty : Advances fuel 0 (fun _ => True) (Parse.pure (Expr.str "")) := .pure trivial
      exact hempty.bind (by omega) fun _ _ => .pure rfl
    · exact (advances_expression fuel).bind (by omega) fun _ _ => .pure rfl
  · exact .ite (.here (.fail nofun)) (.here (advances_assignment fuel))
  · exact .here (advances_assignment fuel)

theorem advances_simpleStatements (fuel : Nat) {done : List Statement} (hdone : HaveNames done) :
    Advances (fuel - 16) 1 HaveNames (simpleStatements fuel done) := by
  induction fuel generalizing done with
  | zero => exact .deep
  | succ fuel ih =>
      unfold simpleStatements
      refine (advances_simpleStatement fuel).bind (by omega) fun s hs => ?_
      have hmore : HaveNames (s :: done) :=
        List.forall_mem_cons.mpr ⟨.of_functions_eq_nil hs, hdone⟩
      have hend : HaveNames (s :: done).reverse := fun s hs => hmore s (List.mem_reverse.mp hs)
      exact .eatOp _
        (.atLineEnd fun _ => .ite (.lineEnd (.pure hend)) ((ih hmore).last (by omega)))
        (.lineEnd (.pure hend))

/-! ## Statements -/

theorem advances_parameters (fuel : Nat) {done : List Parameter} (hdone : ProperlyNamed done) :
    Advances fuel 0 ProperlyNamed (parameters fuel done) := by
  have hreverse {ps : List Parameter} (hps : ProperlyNamed ps) : ProperlyNamed ps.reverse :=
    fun p hp => hps p (List.mem_reverse.mp hp)
  induction fuel generalizing done with
  | zero => exact .deep
  | succ fuel ih =>
      unfold parameters
      refine .atOp _ fun _ => .ite (.pure (hreverse hdone))
        (.eatOp _
          (.eatOp _ ((ih hdone).last (by omega)) (.refuse _))
          (.atOp _ fun _ => .ite (.refuse _) (.takeName fun name hname =>
            .tryOp _ fun _ => .when _ (advances_expression fuel) (by omega) fun declared =>
              .tryOp _ fun _ => .when _ (advances_expression fuel) (by omega) fun default => ?_)))
      have hmore : ProperlyNamed (⟨name, declared, default⟩ :: done) :=
        List.forall_mem_cons.mpr ⟨hname, hdone⟩
      exact .eatOp _ ((ih hmore).last (by omega)) (.pure (hreverse hmore))

theorem advances_loopTargets (fuel : Nat) (done : List Expr) :
    Advances (fuel - 10) 1 (fun _ => True) (loopTargets fuel done) := by
  induction fuel generalizing done with
  | zero => exact .deep
  | succ fuel ih =>
      unfold loopTargets
      exact (advances_binary fuel .alternative).bind (by simp only [Level.height]; omega) fun _ _ =>
        .eatOp _ (.atKeyword _ fun _ => .ite (.pure trivial) ((ih _).last (by omega)))
          (.pure trivial)

theorem advances_loopIterables (fuel : Nat) (done : List Expr) :
    Advances (fuel - 16) 1 (fun _ => True) (loopIterables fuel done) := by
  induction fuel generalizing done with
  | zero => exact .deep
  | succ fuel ih =>
      unfold loopIterables
      exact (advances_expression fuel).bind (by omega) fun _ _ =>
        .eatOp _ (.atOp _ fun _ => .ite (.pure trivial) ((ih _).last (by omega)))
          (.pure trivial)

/-- The blocks that were read, the last first. -/
theorem haveNames_flatten_reverse {done : List (List Statement)}
    (hdone : ∀ body ∈ done, HaveNames body) : HaveNames done.reverse.flatten :=
  List.forall_mem_flatten.mpr fun body hbody => hdone body (List.mem_reverse.mp hbody)

mutual

theorem advances_statement : ∀ fuel, Advances (fuel - 17) 1 HaveNames (statement fuel)
  | 0 => .deep
  | fuel + 1 => by
      have hone {s : Statement} (hs : s.HasNames) : HaveNames [s] := List.forall_mem_singleton.mpr hs
      unfold statement
      refine .look fun t _ => ?_
      split
      · exact .skip nofun (.takeName fun _ _ => .takeOp _
          ((advances_parameters fuel (List.forall_mem_nil _)).bind (by omega) fun _ hparameters => .takeOp _
            (.tryOp _ fun _ => .when _ (advances_expression fuel) (by omega) fun _ => .takeOp _
              ((advances_suite fuel).bind (by omega) fun _ hbody =>
                .pure (hone (.defineFunction hparameters hbody))))))
      · have hbases : Advances (fuel - 16) 0 (fun _ => True) (do
            let arguments ← callArguments fuel []
            Parse.expectOp ")"
            return arguments.map (·.2)) :=
          (advances_callArguments fuel []).bind (by omega) fun _ _ => .takeOp _ (.pure trivial)
        exact .skip nofun (.takeName fun _ _ => .tryOp _ fun _ =>
          .when _ hbases (by omega) fun _ => .takeOp _
            ((advances_suite fuel).bind (by omega) fun _ hbody =>
              .pure (hone (.of_block rfl hbody))))
      · exact .skip nofun ((advances_branches fuel).bind (by omega) fun _ hs => .pure (hone hs))
      · exact .skip nofun ((advances_loopTargets fuel []).bind (by omega) fun _ _ => .takeKeyword _
          ((advances_loopIterables fuel []).bind (by omega) fun _ _ => .takeOp _
            ((advances_suite fuel).bind (by omega) fun _ hbody => .atKeyword _ fun _ =>
              .ite (.refuse _) (.pure (hone (.of_block rfl hbody))))))
      · exact .skip nofun ((advances_expression fuel).bind (by omega) fun _ _ => .takeOp _
          ((advances_suite fuel).bind (by omega) fun _ hbody =>
            .pure (hone (.of_block rfl hbody))))
      · exact .skip nofun ((advances_expression fuel).bind (by omega) fun _ _ => .lineEnd
          (.atKeyword _ fun _ => .atKeyword _ fun _ => .atOp _ fun _ =>
            .ite ((advances_statement fuel).last (by omega)) (.fail nofun)))
      · exact .here (.fail nofun)
      · exact .here ((advances_simpleStatements fuel (List.forall_mem_nil _)).mono (by omega)
          (Nat.le_refl 1))

theorem advances_branches : ∀ fuel, Advances (fuel - 16) 1 Statement.HasNames (branches fuel)
  | 0 => .deep
  | fuel + 1 => by
      unfold branches
      exact (advances_expression fuel).bind (by omega) fun _ _ => .takeOp _
        ((advances_suite fuel).bind (by omega) fun _ hbody => .eatKeyword _
          ((advances_branches fuel).bind (by omega) fun _ hs =>
            .pure (.branch hbody (List.forall_mem_singleton.mpr hs)))
          (.eatKeyword _
            (.takeOp _ ((advances_suite fuel).bind (by omega) fun _ helse =>
              .pure (.branch hbody helse)))
            (.pure (.branch hbody (List.forall_mem_nil _)))))

theorem advances_suite : ∀ fuel, Advances (fuel - 17) 1 HaveNames (suite fuel)
  | 0 => .deep
  | fuel + 1 => by
      unfold suite
      refine .look fun t _ => ?_
      split_ifs with hnewline
      · refine .skip (hnewline ▸ nofun) (.look fun u _ => ?_)
        split_ifs with hindent
        · exact .skip (hindent ▸ nofun)
            ((advances_blockRest fuel (List.forall_mem_nil _)).last (by omega))
        · exact .here (.fail nofun)
      · exact .here ((advances_simpleStatements fuel (List.forall_mem_nil _)).mono (by omega)
          (Nat.le_refl 1))

theorem advances_blockRest : ∀ fuel {done : List (List Statement)}, (∀ body ∈ done, HaveNames body) →
    Advances (fuel - 18) 0 HaveNames (blockRest fuel done)
  | 0, _, _ => .deep
  | fuel + 1, done, hdone => by
      have hend := haveNames_flatten_reverse hdone
      unfold blockRest
      refine .look fun t _ => ?_
      split
      · exact .skip nofun (.pure hend)
      · exact .here (.pure hend)
      · exact .skip nofun ((advances_blockRest fuel hdone).last (by omega))
      · exact .here ((advances_statement fuel).bind (by omega) fun _ hbody =>
          (advances_blockRest fuel (List.forall_mem_cons.mpr ⟨hbody, hdone⟩)).last (by omega))

end

theorem advances_statements (fuel : Nat) {done : List (List Statement)}
    (hdone : ∀ body ∈ done, HaveNames body) :
    Advances (fuel - 18) 0 HaveNames (statements fuel done) := by
  induction fuel generalizing done with
  | zero => exact .deep
  | succ fuel ih =>
      unfold statements
      refine .look fun t _ => ?_
      split
      · exact .here (.pure (haveNames_flatten_reverse hdone))
      · exact .skip nofun ((ih hdone).last (by omega))
      · exact .here ((advances_statement fuel).bind (by omega) fun _ hbody =>
          (ih (List.forall_mem_cons.mpr ⟨hbody, hdone⟩)).last (by omega))

/-! ## Whole texts -/

/-- From any of the tokens the reader stays among them: it comes at least `n` tokens further and not
behind the last one, or finds a fault on the line of a token ahead. With twenty steps for each token
ahead and `height` more, the bound is not the fault. -/
def StaysAmong {α : Type} (tokens : List Placed) (n height : Nat) (p : Nat → Parse α) : Prop :=
  ∀ fuel, ∀ pos < tokens.length,
    (∃ a next, p fuel (tokens.drop pos) = .ok (a, tokens.drop next) ∧ pos + n ≤ next ∧
      next < tokens.length) ∨
    ∃ e, p fuel (tokens.drop pos) = .error e ∧ (∃ t ∈ tokens.drop pos, t.line = e.line) ∧
      (20 * (tokens.length - pos) + height ≤ fuel → e.fault ≠ .tooDeep)

/-- The readers of a script stay among its tokens. A list of statements may be empty, every
statement takes a token, and a number that a sign is folded into has a negation. -/
structure ReadsCleanly (tokens : List Placed) : Prop where
  statements : StaysAmong tokens 0 18 (statements · [])
  statement : StaysAmong tokens 1 17 statement
  simpleStatement : StaysAmong tokens 1 15 simpleStatement
  suite : StaysAmong tokens 1 17 suite
  expression : StaysAmong tokens 1 15 expression
  atom : StaysAmong tokens 1 0 atom
  toInt_neg : ∀ fuel, ∀ pos < tokens.length, ∀ i rest,
    signed fuel (tokens.drop pos) = .ok (.int i, rest) → (-i).toInt = -i.toInt

/-- The reading of a text ends within its bounds, with statements or with a fault on one of the lines
of the text. -/
structure ParsesCleanly (source : String) : Prop where
  scan_ends : ∀ fuel, 2 * source.toList.length + 2 ≤ fuel →
    (Scan.start source.toList).run fuel =
      (Scan.start source.toList).run (2 * source.toList.length + 2)
  literal_ends : ∀ q line done cs, cs <:+ source.toList → ∀ fuel, cs.length < fuel →
    stringBody q fuel line done cs = stringBody q (cs.length + 1) line done cs
  reads : ∀ tokens, tokenize source.toList = .ok tokens → ReadsCleanly tokens
  result : (∃ body, parse source = .ok body) ∨ ∃ e, parse source = .error e ∧
    e.fault ≠ .tooDeep ∧ 1 ≤ e.line ∧ e.line ≤ 1 + source.toList.count '\n'

theorem length_pos_of_tokenize {text : List Char} {tokens : List Placed}
    (h : tokenize text = .ok tokens) : 0 < tokens.length := by
  obtain ⟨body, line, rfl⟩ := exists_eq_append_eof h
  simp

/-- What is left of the tokens of a text before the end can be read on. -/
theorem readable_drop {text : List Char} {tokens : List Placed} (h : tokenize text = .ok tokens)
    {pos : Nat} (hpos : pos < tokens.length) : Readable (tokens.drop pos) where
  mem_eof := by
    obtain ⟨body, line, rfl⟩ := exists_eq_append_eof h
    rw [List.length_append, List.length_singleton] at hpos
    rw [List.drop_append_of_le_length (Nat.le_of_lt_succ hpos)]
    exact ⟨_, List.mem_append_right _ (List.mem_singleton.mpr rfl), rfl⟩
  scanned t ht := (mem_of_tokenize h (List.mem_of_mem_drop ht)).2

theorem StaysAmong.of_tokenize {text : List Char} {tokens : List Placed}
    (h : tokenize text = .ok tokens) {α : Type} {good : α → Prop} {n height : Nat}
    {p : Nat → Parse α} (hp : ∀ fuel, Advances (fuel - height) n good (p fuel)) :
    StaysAmong tokens n height p := by
  intro fuel pos hpos
  have hreadable := readable_drop h hpos
  have houtcome := hp fuel _ hreadable
  generalize p fuel (tokens.drop pos) = result at houtcome
  cases houtcome with
  | @ok a rest hbehind ha =>
      have hne := (hbehind.readable hreadable).ne_nil
      obtain ⟨passed, hpassed, hn, -⟩ := hbehind
      have hrest : tokens.drop (pos + passed.length) = rest := by
        rw [← List.drop_drop, hpassed, List.drop_left]
      have hnext : pos + passed.length < tokens.length :=
        Nat.lt_of_not_le fun hle => hne (hrest.symm.trans (List.drop_eq_nil_of_le hle))
      exact .inl ⟨a, pos + passed.length, by rw [hrest], Nat.add_le_add_left hn pos, hnext⟩
  | error hline hdeep =>
      refine .inr ⟨_, rfl, hline, fun hfuel => hdeep ?_⟩
      rw [List.length_drop]
      omega

theorem readsCleanly_of_tokenize {text : List Char} {tokens : List Placed}
    (h : tokenize text = .ok tokens) : ReadsCleanly tokens where
  statements := .of_tokenize h fun fuel => advances_statements fuel (List.forall_mem_nil _)
  statement := .of_tokenize h advances_statement
  simpleStatement := .of_tokenize h advances_simpleStatement
  suite := .of_tokenize h advances_suite
  expression := .of_tokenize h advances_expression
  atom := .of_tokenize h advances_atom
  toInt_neg fuel pos hpos i rest hsigned := by
    have houtcome := advances_signed fuel _ (readable_drop h hpos)
    rw [hsigned] at houtcome
    cases houtcome with
    | ok _ ha => exact toInt_neg_of_ne_minValue (ha i rfl)

/-- No parameter of a function in a script is called like a number. -/
theorem isNoNumber_of_parse {source : String} {body : List Statement}
    (h : parse source = .ok body) {f : Function} (hf : f ∈ functionsOf body) {p : Parameter}
    (hp : p ∈ f.parameters) : IsNoNumber p.name := by
  rcases htokens : tokenize source.toList with e | ts
  · rw [parse, htokens] at h
    cases h
  · rw [parse_of_tokenize htokens] at h
    have hreadable := readable_drop htokens (length_pos_of_tokenize htokens)
    have houtcome := advances_statements (nestingBound ts) (List.forall_mem_nil _) _ hreadable
    rw [List.drop_zero] at houtcome
    generalize statements (nestingBound ts) [] ts = result at h houtcome
    cases houtcome with
    | ok _ hnames =>
        cases h
        exact hnames.of_mem_functionsOf hf p hp
    | error => cases h

theorem parsesCleanly (source : String) : ParsesCleanly source where
  scan_ends fuel hfuel :=
    Scan.run_eq_of_lt (s := .start source.toList) hfuel (Nat.lt_succ_self _)
  literal_ends q line done cs _ fuel hfuel :=
    stringBody_eq_of_lt q line done hfuel (Nat.lt_succ_self _)
  reads _ h := readsCleanly_of_tokenize h
  result := by
    rcases tokenize_cases source.toList with ⟨s, htokens, -⟩ | ⟨e, he, hfault⟩
    · have hread := (readsCleanly_of_tokenize htokens).statements (nestingBound s.finish) 0
        (length_pos_of_tokenize htokens)
      rw [List.drop_zero] at hread
      rw [parse_of_tokenize htokens]
      rcases hread with ⟨body, next, hread, -⟩ | ⟨e, hread, ⟨t, ht, hline⟩, hdeep⟩
      · exact .inl ⟨body, congrArg (Except.map Prod.fst) hread⟩
      · have hmem := (mem_of_tokenize htokens ht).1
        refine .inr ⟨e, congrArg (Except.map Prod.fst) hread, hdeep ?_, hline ▸ hmem⟩
        rw [nestingBound]
        omega
    · exact .inr ⟨e, by rw [parse, he]; rfl, hfault.fault_ne, hfault.le, hfault.le_count⟩

end ModelGraph.Script
