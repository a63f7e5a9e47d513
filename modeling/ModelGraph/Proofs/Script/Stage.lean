import ModelGraph.Proofs.Script.Reading

/-!
# Stages of the descent

An expression is read at a stage of the descent, which the stages around it reach. `Reads` is about a
stage that is done with the expression; `Leads` is about one that has read it and may go on, with an
operator of its level or with a call, a subscript or an attribute. What a stage reads, the stages
around it read too.
-/

namespace ModelGraph.Script

open Parse

/-- The stages of the descent, outermost first. The stage `led` of a level stands before an operator
of that level, `trailed` before what follows a primary. -/
inductive Stage where
  | whole
  | joined (level : Level)
  | led (level : Level)
  | negated
  | signed
  | trailed

/-- The stage of the operands of a level. -/
def Level.inner : Level → Stage
  | .disjunction => .joined .conjunction
  | .conjunction => .negated
  | .alternative => .joined .intersection
  | .intersection => .joined .sum
  | .sum => .joined .product
  | .product => .signed

namespace Stage

def inner : Stage → Stage
  | whole => joined .disjunction
  | joined level => led level
  | led level => level.inner
  | negated => joined .alternative
  | signed => trailed
  | trailed => trailed

/-- The place whose expressions the stage reads. -/
def place : Stage → Nat
  | whole => 0
  | joined level | led level => level.strength
  | negated => 2
  | signed => 8
  | trailed => 10

end Stage

/-- The number of steps from an expression as a whole to the operands of a level. -/
def Level.depth : Level → Nat
  | .disjunction => 2
  | .conjunction => 4
  | .alternative => 7
  | .intersection => 9
  | .sum => 11
  | .product => 13

theorem Level.depth_le (level : Level) : 2 ≤ level.depth ∧ level.depth ≤ 13 := by
  cases level <;> decide

/-- The number of steps from an expression as a whole to the stage. -/
def Stage.depth : Stage → Nat
  | whole => 0
  | joined level => level.depth - 1
  | led level => level.depth
  | negated => 5
  | signed => 14
  | trailed => 15

/-- Tokens are read to their end. -/
def Reads (read : Nat → Parse Expr) (depth place : Nat) (tokens : List Token) (e : Expr) : Prop :=
  ∀ fuel line ts, 20 * tokens.length ≤ fuel + depth → Ends place ts →
    read fuel (placed line tokens ++ ts) = .ok (e, ts)

/-- Tokens are read up to their end, where the loop that reads them may go on. Every round of the loop
uses a token. -/
def Leads (first : Nat → Parse Expr) (rest : Nat → Expr → Parse Expr) (depth place : Nat)
    (tokens : List Token) (e : Expr) : Prop :=
  ∀ fuel line ts, 20 * tokens.length ≤ fuel + depth → Ends (place + 1) ts →
    ∃ fuel' start mid, fuel ≤ fuel' + tokens.length ∧
      first fuel (placed line tokens ++ ts) = .ok (start, mid) ∧
      rest fuel start mid = rest fuel' e ts

/-- What it means that a stage reads an expression. -/
def Stage.Understands (s : Stage) : List Token → Expr → Prop :=
  match s with
  | whole => Reads expression s.depth s.place
  | joined level => Reads (binary · level) s.depth s.place
  | led level => Leads (operand · level) (binaryRest · level) s.depth s.place
  | negated => Reads negation s.depth s.place
  | signed => Reads Script.signed s.depth s.place
  | trailed => Leads atom trailers s.depth s.place

theorem Level.bond_of_function? {level : Level} {t : Token} {f : String}
    (h : level.function? t = some f) : bond t = some (level.strength + 1) := by
  unfold Level.function? at h
  split at h <;> first | rfl | contradiction

theorem Level.function?_of_ends {level : Level} {ts : List Placed} (h : Ends level.strength ts) :
    level.function? (next ts) = none := by
  cases hfunction : level.function? (next ts) with
  | none => rfl
  | some f =>
      obtain ⟨b, hb, hle⟩ := h
      rw [Level.bond_of_function? hfunction] at hb
      obtain rfl := Option.some.inj hb
      omega

theorem comparison?_of_ends {ts : List Placed} (h : Ends 3 ts) :
    comparison? ts = .ok (none, ts) := by
  unfold comparison?
  simp only [bind_apply, peek_apply, ok_bind]
  generalize hnext : next ts = t
  split
  case h_10 => rfl
  all_goals exact absurd hnext (h.next_ne (by decide))

variable {tokens : List Token} {e : Expr}

/-- What the stage of its operands reads, a level reads as an operand. -/
theorem Level.reads_operand {level : Level} (h : level.inner.Understands tokens e)
    (hpos : 0 < tokens.length) :
    Reads (operand · level) level.depth (level.strength + 1) tokens e := by
  intro fuel line ts hfuel hends
  have hdepth : level.inner.depth = level.depth + 1 := by cases level <;> rfl
  obtain ⟨fuel, rfl⟩ : ∃ n, fuel = n + 1 := ⟨fuel - 1, by have := level.depth_le; omega⟩
  have hfuel : 20 * tokens.length ≤ fuel + level.inner.depth := by omega
  cases level <;> exact h fuel line ts hfuel hends

theorem understands_whole (hbegins : Begins 0 tokens)
    (h : (Stage.joined .disjunction).Understands tokens e) : Stage.whole.Understands tokens e := by
  intro fuel line ts hfuel hends
  have hpos := hbegins.length_pos
  simp only [Stage.depth] at hfuel
  obtain ⟨fuel, rfl⟩ : ∃ n, fuel = n + 1 := ⟨fuel - 1, by omega⟩
  have hlambda : next (placed line tokens ++ ts) ≠ .name "lambda" :=
    hbegins.next_ne (by simp [opens, isKeyword, keywords]) line ts
  have hread := h fuel line ts (by simp [Stage.depth, Level.depth]; omega) hends
  have hif : next ts ≠ .name "if" := hends.next_ne (by decide)
  simp [expression, hlambda, hread, hif]

/-- No operator of the level is left, so its loop ends. -/
theorem binaryRest_of_ends {level : Level} (fuel : Nat) (e : Expr) {ts : List Placed}
    (h : Ends level.strength ts) : binaryRest (fuel + 1) level e ts = .ok (e, ts) := by
  simp [binaryRest, Level.function?_of_ends h]

theorem understands_joined {level : Level} (hpos : 0 < tokens.length)
    (h : (Stage.led level).Understands tokens e) : (Stage.joined level).Understands tokens e := by
  intro fuel line ts hfuel hends
  have hlevel := level.depth_le
  simp only [Stage.depth] at hfuel
  obtain ⟨fuel, rfl⟩ : ∃ n, fuel = n + 1 := ⟨fuel - 1, by omega⟩
  obtain ⟨fuel', start, mid, hle, (hfirst : operand fuel level _ = _),
      (hrest : binaryRest fuel level start mid = binaryRest fuel' level e ts)⟩ :=
    h fuel line ts (by simp only [Stage.depth]; omega) (hends.mono (Nat.le_succ _))
  obtain ⟨fuel', rfl⟩ : ∃ n, fuel' = n + 1 := ⟨fuel' - 1, by omega⟩
  rw [binaryRest_of_ends fuel' e hends] at hrest
  have hop : ∀ op, next ts = .op op → ["^", "<<", ">>"].contains op = false := by
    intro op hop
    simp only [List.contains_eq_mem, List.mem_cons, List.not_mem_nil, or_false,
      decide_eq_false_iff_not, not_or]
    refine ⟨?_, ?_, ?_⟩ <;> rintro rfl <;> exact hends.next_ne (by simp [bond]) hop
  change binary (fuel + 1) level _ = _
  simp only [binary, bind_apply, hfirst, hrest, ok_bind, peek_apply]
  generalize next ts = t at hop
  split
  · rw [hop _ rfl]
    rfl
  · rfl

theorem understands_led {level : Level} (hpos : 0 < tokens.length)
    (h : level.inner.Understands tokens e) : (Stage.led level).Understands tokens e := by
  intro fuel line ts hfuel hends
  exact ⟨fuel, e, ts, by omega, Level.reads_operand h hpos fuel line ts hfuel hends, rfl⟩

theorem understands_negated (hbegins : Begins 4 tokens)
    (h : (Stage.joined .alternative).Understands tokens e) : Stage.negated.Understands tokens e := by
  intro fuel line ts hfuel hends
  have hpos := hbegins.length_pos
  simp only [Stage.depth] at hfuel
  obtain ⟨fuel, rfl⟩ : ∃ n, fuel = n + 2 := ⟨fuel - 2, by omega⟩
  have hnot : next (placed line tokens ++ ts) ≠ .name "not" :=
    hbegins.next_ne (by simp [opens, isKeyword, keywords]) line ts
  have hread := h (fuel + 1) line ts (by simp only [Stage.depth, Level.depth]; omega)
    (hends.mono (by decide))
  have hcomparison := comparison?_of_ends (hends.mono (by decide))
  simp [negation, hnot, hread, comparisons, hcomparison]

/-- Nothing that goes on a primary is next, so its loop ends. -/
theorem trailers_of_ends (fuel : Nat) (e : Expr) {ts : List Placed} (h : Ends 10 ts) :
    trailers (fuel + 1) e ts = .ok (e, ts) := by
  have hparen := h.next_ne_op "(" (by decide)
  have hbracket := h.next_ne_op "[" (by decide)
  have hpoint := h.next_ne_op "." (by decide)
  simp [trailers, hparen, hbracket, hpoint]

theorem understands_signed (hbegins : Begins 10 tokens)
    (h : Stage.trailed.Understands tokens e) : Stage.signed.Understands tokens e := by
  intro fuel line ts hfuel hends
  have hpos := hbegins.length_pos
  simp only [Stage.depth] at hfuel
  obtain ⟨fuel, rfl⟩ : ∃ n, fuel = n + 1 := ⟨fuel - 1, by omega⟩
  obtain ⟨fuel', start, mid, hle, hfirst, hrest⟩ :=
    h fuel line ts (by simp only [Stage.depth]; omega) (hends.mono (by decide))
  obtain ⟨fuel', rfl⟩ : ∃ n, fuel' = n + 1 := ⟨fuel' - 1, by omega⟩
  rw [trailers_of_ends fuel' e (hends.mono (by decide))] at hrest
  have hminus : next (placed line tokens ++ ts) ≠ .op "-" := hbegins.next_ne (by simp [opens]) line ts
  have hplus : next (placed line tokens ++ ts) ≠ .op "+" := hbegins.next_ne (by simp [opens]) line ts
  have hinvert : next (placed line tokens ++ ts) ≠ .op "~" := hbegins.next_ne (by simp [opens]) line ts
  have hpower := hends.next_ne_op "**" (by decide)
  simp [Script.signed, hminus, hplus, hinvert, hfirst, hrest, hpower]

namespace Stage

/-- The stages in the order of the descent. -/
def descent : List Stage := [
  whole, joined .disjunction, led .disjunction, joined .conjunction, led .conjunction, negated,
  joined .alternative, led .alternative, joined .intersection, led .intersection, joined .sum,
  led .sum, joined .product, led .product, signed, trailed]

theorem descent_depth (s : Stage) : descent[s.depth]? = some s := by
  cases s with
  | joined level | led level => cases level <;> rfl
  | _ => rfl

theorem eq_of_depth_eq {s t : Stage} (h : s.depth = t.depth) : s = t := by
  have hs := descent_depth s
  rw [h, descent_depth t] at hs
  exact (Option.some.inj hs).symm

/-- What holds along the descent holds of every stage. -/
theorem forall_of_descent {p : Stage → Prop} (h : ∀ s ∈ descent, p s) (s : Stage) : p s :=
  h s (List.mem_of_getElem? (descent_depth s))

theorem depth_inner : ∀ s : Stage, s.depth < 15 → s.inner.depth = s.depth + 1 :=
  forall_of_descent (by decide)

theorem place_le_inner : ∀ s : Stage, s.place ≤ s.inner.place := forall_of_descent (by decide)

theorem depth_le : ∀ s : Stage, s.depth ≤ 15 := forall_of_descent (by decide)

theorem understands_of_inner {s : Stage} (hdepth : s.depth < 15)
    (hbegins : Begins s.inner.place tokens) (h : s.inner.Understands tokens e) :
    s.Understands tokens e := by
  cases s with
  | whole => exact understands_whole hbegins h
  | joined level => exact understands_joined hbegins.length_pos h
  | led level => exact understands_led hbegins.length_pos h
  | negated => exact understands_negated hbegins h
  | signed => exact understands_signed hbegins h
  | trailed => simp [depth] at hdepth

/-- What a stage reads, all stages around it read. -/
theorem Understands.outward {s t : Stage} (h : t.Understands tokens e)
    (hbegins : Begins t.place tokens) (hdepth : s.depth ≤ t.depth) : s.Understands tokens e := by
  obtain ⟨n, hn⟩ := Nat.exists_eq_add_of_le hdepth
  suffices s.place ≤ t.place ∧ s.Understands tokens e from this.2
  clear hdepth
  induction n generalizing s with
  | zero =>
      obtain rfl := eq_of_depth_eq hn
      exact ⟨Nat.le_refl _, h⟩
  | succ n ih =>
      have hlt : s.depth < 15 := by
        have := t.depth_le
        omega
      have hinner := depth_inner s hlt
      obtain ⟨hplace, hread⟩ := ih (s := s.inner) (by omega)
      exact ⟨Nat.le_trans s.place_le_inner hplace,
        understands_of_inner hlt (hbegins.mono hplace) hread⟩

end Stage

/-! ## Stages of surface expressions -/

/-- The innermost stage that reads an expression without parentheses. -/
def Surface.stage : Surface → Stage
  | .binary op _ _ => .led op.level
  | .not _ | .compare _ _ _ _ => .negated
  | .unary _ _ | .power _ _ => .signed
  | _ => .trailed

theorem Surface.place_stage_le (e : Surface) : e.stage.place ≤ e.strength := by
  cases e <;> simp [stage, strength, Stage.place]

/-- A deeper stage asks for more than the expression has. -/
theorem Stage.depth_le_of_place_le (e : Surface) :
    ∀ s : Stage, s.place ≤ e.strength → s.depth ≤ e.stage.depth := by
  cases e with
  | binary op left right =>
      change ∀ s : Stage, s.place ≤ op.level.strength → s.depth ≤ op.level.depth
      cases op.level <;> exact forall_of_descent (by decide)
  | not operand => exact forall_of_descent (p := fun s => s.place ≤ 2 → s.depth ≤ 5) (by decide)
  | compare first op second others =>
      exact forall_of_descent (p := fun s => s.place ≤ 3 → s.depth ≤ 5) (by decide)
  | unary op operand =>
      exact forall_of_descent (p := fun s => s.place ≤ 8 → s.depth ≤ 14) (by decide)
  | power base exponent =>
      exact forall_of_descent (p := fun s => s.place ≤ 9 → s.depth ≤ 14) (by decide)
  | _ => exact fun s _ => s.depth_le

/-- An expression in parentheses is read as a primary. -/
theorem understands_enclosed {tokens : List Token} {e : Expr} (hbegins : Begins 0 tokens)
    (h : Stage.whole.Understands tokens e) :
    Stage.trailed.Understands (.op "(" :: tokens ++ [.op ")"]) e := by
  intro fuel line ts hfuel hends
  simp only [List.length_append, List.length_cons, List.length_nil, Stage.depth] at hfuel
  obtain ⟨fuel, rfl⟩ : ∃ n, fuel = n + 1 := ⟨fuel - 1, by omega⟩
  have hclose : next (placed line tokens ++ ⟨.op ")", line⟩ :: ts) ≠ .op ")" :=
    hbegins.next_ne (by simp [opens]) line _
  have hread := h fuel line (⟨.op ")", line⟩ :: ts) (by simp only [Stage.depth]; omega)
    (ends_cons rfl (Nat.zero_le _))
  refine ⟨fuel + 1, e, ts, by omega, ?_, rfl⟩
  simp [atom_enclosed, hclose, hread]

theorem Level.place_inner (level : Level) : level.inner.place = level.strength + 1 := by
  cases level <;> rfl

namespace Surface

/-- An expression that its innermost stage reads is read at every place. -/
theorem understands_tokensAt {e : Surface} (h : e.stage.Understands e.tokens e.lower) (s : Stage) :
    s.Understands (e.tokensAt s.place) e.lower := by
  have hbegins := e.begins_tokens
  have hstage := hbegins.mono e.place_stage_le
  by_cases hplace : e.strength < s.place
  · have hwhole : Stage.whole.Understands e.tokens e.lower :=
      h.outward hstage (Nat.zero_le _)
    have htrailed := understands_enclosed (hbegins.mono (Nat.zero_le _)) hwhole
    have henclosed : Begins 10 (.op "(" :: e.tokens ++ [.op ")"]) :=
      ⟨_, _, rfl, Or.inl (by simp), by simp⟩
    rw [tokensAt, enclose, if_pos hplace]
    exact htrailed.outward henclosed s.depth_le
  · rw [tokensAt, enclose, if_neg hplace]
    exact h.outward hstage (Stage.depth_le_of_place_le e s (by omega))

/-- All stages read the expression. -/
def Understood (e : Surface) : Prop := ∀ s : Stage, s.Understands (e.tokensAt s.place) e.lower

namespace Understood

variable {e : Surface} (h : e.Understood)

include h

theorem whole : Reads expression 0 0 e.tokens e.lower := h .whole

theorem led (level : Level) :
    Leads (Script.operand · level) (binaryRest · level) level.depth level.strength
      (e.tokensAt level.strength) e.lower := h (.led level)

theorem operand (level : Level) :
    Reads (Script.operand · level) level.depth (level.strength + 1)
      (e.tokensAt (level.strength + 1)) e.lower := by
  have hread := Level.reads_operand (h level.inner) (e.begins_tokensAt _).length_pos
  rwa [level.place_inner] at hread

theorem negated : Reads negation 5 2 (e.tokensAt 2) e.lower := h .negated

theorem alternative : Reads (Script.binary · .alternative) 6 4 (e.tokensAt 4) e.lower :=
  h (.joined .alternative)

theorem signed : Reads Script.signed 14 8 (e.tokensAt 8) e.lower := h .signed

theorem trailed : Leads atom trailers 15 10 (e.tokensAt 10) e.lower := h .trailed

end Understood

end Surface

end ModelGraph.Script
