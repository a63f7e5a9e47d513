import ModelGraph.Proofs.Script.Clauses
import ModelGraph.Proofs.Script.Nesting

/-!
# Parsing undoes layout

The marks that open and close blocks stand where blocks begin and end, so the readers of blocks find
the statements that were laid out, however deep they are nested.
-/

namespace ModelGraph.Script

open Parse

/-! ## Marks between lines -/

section Marks

variable (last line : Nat) {widths : List Nat} {inner : Nat} {tokens : List Token}
  {lines rest : List TextLine}

theorem lineTokens_lineAfter (widths : List Nat) (gaps : List Gap) (width : Nat) (tokens : List Token)
    (rest : List TextLine) :
    lineTokens last line widths (lineAfter gaps width tokens ++ rest) =
      marksBefore (line + gaps.length) width widths ++ placed (line + gaps.length) tokens ++
        ⟨.newline, line + gaps.length⟩ ::
          lineTokens last (line + gaps.length + 1) (openAt width widths) rest := by
  induction gaps generalizing line with
  | nil => rfl
  | cons g gaps ih =>
      have hline : line + 1 + gaps.length = line + (g :: gaps).length := by
        rw [List.length_cons]
        omega
      rw [← hline]
      exact ih (line + 1)

theorem lineTokens_gaps (widths : List Nat) (gaps : List Gap) :
    lineTokens last line widths (gaps.map .gap) =
      List.replicate widths.length ⟨.dedent, last⟩ ++ [⟨.eof, last⟩] := by
  induction gaps generalizing line with
  | nil => rfl
  | cons g gaps ih => exact ih (line + 1)

theorem marksBefore_headD (line : Nat) (widths : List Nat) :
    marksBefore line (widths.headD 0) widths = [] := by
  cases widths <;> simp [marksBefore]

/-- A line that is less wide than the innermost block closes that block before all others. -/
theorem marksBefore_cons (line : Nat) {width : Nat} (hwidth : width ≤ widths.headD 0)
    (hinner : widths.headD 0 < inner) :
    marksBefore line width (inner :: widths) = ⟨.dedent, line⟩ :: marksBefore line width widths := by
  have hlt : width < inner := by omega
  have hnone : ¬ (inner :: widths).headD 0 < width := by
    rw [List.headD_cons]
    omega
  rw [marksBefore, marksBefore, if_neg hnone, if_neg (by omega)]
  simp [hlt, List.replicate_succ]

/-- A line as wide as the innermost block has no marks before it. -/
theorem lineTokens_headD (widths : List Nat) (gaps : List Gap) (tokens : List Token)
    (rest : List TextLine) :
    lineTokens last line widths (lineAfter gaps (widths.headD 0) tokens ++ rest) =
      placed (line + gaps.length) tokens ++
        ⟨.newline, line + gaps.length⟩ :: lineTokens last (line + gaps.length + 1) widths rest := by
  rw [lineTokens_lineAfter, marksBefore_headD, openAt_headD, List.nil_append]

/-- A mark opens a block before its first line. -/
theorem lineTokens_opened (hinner : widths.headD 0 < inner)
    (hfirst : firstLine lines = some (inner, tokens)) :
    ∃ line', lineTokens last line widths lines =
      ⟨.indent, line'⟩ :: lineTokens last line (inner :: widths) lines := by
  obtain ⟨gaps, rest, rfl⟩ := exists_of_firstLine hfirst
  have hheadD := lineTokens_headD last line (inner :: widths) gaps tokens rest
  refine ⟨line + gaps.length, ?_⟩
  rw [lineTokens_lineAfter, openAt_of_lt hinner, marksBefore, if_pos hinner]
  exact congrArg _ hheadD.symm

/-- A mark closes a block before the lines that follow it. -/
theorem lineTokens_closed (hinner : widths.headD 0 < inner) (hmost : AtMost (widths.headD 0) lines) :
    ∃ line', lineTokens last line (inner :: widths) lines =
      ⟨.dedent, line'⟩ :: lineTokens last line widths lines := by
  cases hfirst : firstLine lines with
  | none =>
      obtain ⟨gaps, rfl⟩ := exists_of_firstLine_eq_none hfirst
      exact ⟨last, by rw [lineTokens_gaps, lineTokens_gaps]; rfl⟩
  | some l =>
      have hwidth := hmost l hfirst
      have hopen := openAt_cons hwidth hinner
      obtain ⟨gaps, rest, rfl⟩ := exists_of_firstLine hfirst
      refine ⟨line + gaps.length, ?_⟩
      rw [lineTokens_lineAfter, lineTokens_lineAfter, hopen, marksBefore_cons _ hwidth hinner]
      rfl

/-- A line after a statement does not go on with a branch of it. -/
theorem next_lineTokens_ne (h : Follows (widths.headD 0) lines) :
    next (lineTokens last line widths lines) ≠ .name "elif" ∧
      next (lineTokens last line widths lines) ≠ .name "else" := by
  cases hfirst : firstLine lines with
  | none =>
      obtain ⟨gaps, rfl⟩ := exists_of_firstLine_eq_none hfirst
      rw [lineTokens_gaps]
      cases widths <;> simp [List.replicate_succ]
  | some l =>
      obtain ⟨hmost, hgoes⟩ := h
      have hwidth := hmost l hfirst
      obtain ⟨gaps, rest, rfl⟩ := exists_of_firstLine hfirst
      rcases Nat.eq_or_lt_of_le hwidth with heq | hlt
      · have hgoes := hgoes l.2 (by rw [firstLine_lineAfter, heq])
        rw [heq, lineTokens_headD]
        cases htokens : l.2 with
        | nil => simp
        | cons t tokens => simpa [htokens, goesOn] using hgoes
      · obtain ⟨innermost, outer, rfl⟩ := List.exists_cons_of_ne_nil (l := widths) (by
          rintro rfl
          exact absurd hlt (Nat.not_lt_zero _))
        have hlt : l.1 < innermost := hlt
        rw [lineTokens_lineAfter, marksBefore, if_neg (by simpa using hlt.le)]
        simp [hlt, List.replicate_succ]

/-- A line as wide as the innermost block begins with its tokens. -/
theorem isWritten_next (hfirst : firstLine lines = some (widths.headD 0, tokens)) (h : IsLine tokens) :
    (next (lineTokens last line widths lines)).IsWritten := by
  obtain ⟨gaps, rest, rfl⟩ := exists_of_firstLine hfirst
  obtain ⟨t, tokens, rfl⟩ := List.exists_cons_of_ne_nil h.ne_nil
  rw [lineTokens_headD]
  exact h.written t (by simp)

end Marks

/-- The number of tokens in lines, with the ends of the lines. -/
def weight : List TextLine → Nat
  | [] => 0
  | .gap _ :: rest => weight rest
  | .code _ tokens :: rest => tokens.length + 1 + weight rest

@[simp] theorem weight_lineAfter (gaps : List Gap) (width : Nat) (tokens : List Token)
    (rest : List TextLine) :
    weight (lineAfter gaps width tokens ++ rest) = tokens.length + 1 + weight rest := by
  induction gaps with
  | nil => rfl
  | cons g gaps ih => exact ih

theorem weight_append (xs ys : List TextLine) : weight (xs ++ ys) = weight xs + weight ys := by
  induction xs with
  | nil => simp [weight]
  | cons l xs ih =>
      cases l with
      | gap g => exact ih
      | code width tokens =>
          simp only [List.cons_append, weight, ih]
          omega

theorem weight_le_length (last line : Nat) (widths : List Nat) (lines : List TextLine) :
    weight lines ≤ (lineTokens last line widths lines).length := by
  induction lines generalizing line widths with
  | nil => simp [weight]
  | cons l lines ih =>
      cases l with
      | gap g => exact ih (line + 1) widths
      | code width tokens =>
          have hrest := ih (line + 1) (openAt width widths)
          simp only [weight, lineTokens, placed, List.length_append, List.length_map, List.length_cons]
          omega

/-! ## Reading blocks -/

/-- What the reader of branches reads after the first block. -/
def alternative (fuel : Nat) : Parse (List Statement) := do
  if ← eatKeyword "elif" then return [← branches fuel]
  else if ← eatKeyword "else" then
    expectOp ":"
    suite fuel
  else return []

section Reading

variable {fuel : Nat} {ts : List Placed}

/-- The last step of the reader of branches is that of the reader of what follows the first block. -/
theorem branch_alternative (fuel : Nat) (condition : Expr) (body : List Statement) (us : List Placed) :
    (do
      if ← eatKeyword "elif" then return .branch condition body [← branches fuel]
      else if ← eatKeyword "else" then
        expectOp ":"
        return .branch condition body (← suite fuel)
      else return .branch condition body [] : Parse Statement) us =
    (alternative fuel us).bind fun r => .ok (.branch condition body r.1, r.2) := by
  simp only [alternative, bind_apply, eatKeyword_apply, ok_bind, branch_apply, decide_eq_true_eq]
  split_ifs with helif helse
  · cases branches fuel us.tail <;> rfl
  · cases expectOp ":" us.tail with
    | error e => rfl
    | ok r => cases hsuite : suite fuel r.2 <;> simp [hsuite, Except.bind]
  · rfl

theorem branches_condition (line : Nat) (condition : Surface) {body others : List Statement}
    {us vs : List Placed} (hfuel : 20 * condition.tokens.length ≤ fuel)
    (hbody : suite fuel ts = .ok (body, us)) (hothers : alternative fuel us = .ok (others, vs)) :
    branches (fuel + 1) (placed line (condition.tokens ++ [.op ":"]) ++ ts) =
      .ok (.branch condition.lower body others, vs) := by
  have hcondition := condition.understood.whole fuel line (⟨.op ":", line⟩ :: ts) hfuel
    (ends_cons rfl (Nat.le_refl 0))
  have hlast := branch_alternative fuel condition.lower body us
  rw [hothers] at hlast
  rw [placed_append, List.append_assoc]
  rw [branches, bind_apply, placed_cons, placed_nil, List.cons_append, List.nil_append, hcondition,
    ok_bind, bind_apply, expectOp_cons, ok_bind, bind_apply, hbody, ok_bind]
  exact hlast

/-- A token of a line is no mark between lines. -/
theorem blockRest_of_isWritten {done : List (List Statement)} (h : (next ts).IsWritten) :
    blockRest (fuel + 1) done ts =
      (statement fuel ts).bind fun r => blockRest fuel (r.1 :: done) r.2 := by
  rw [blockRest, bind_apply, peek_apply, ok_bind]
  dsimp only
  generalize next ts = t at h
  cases t with
  | name | int | str | op => exact bind_apply _ _ ts
  | _ => exact h.elim

theorem statements_of_isWritten {done : List (List Statement)} (h : (next ts).IsWritten) :
    statements (fuel + 1) done ts =
      (statement fuel ts).bind fun r => statements fuel (r.1 :: done) r.2 := by
  rw [statements, bind_apply, peek_apply, ok_bind]
  dsimp only
  generalize next ts = t at h
  cases t with
  | name | int | str | op => exact bind_apply _ _ ts
  | _ => exact h.elim

/-- A block is what the lines behind a header are read as, up to the mark that closes it. -/
theorem suite_indented (fuel last line line' : Nat) {widths : List Nat} {inner : Nat}
    {tokens : List Token} {lines : List TextLine} (hinner : widths.headD 0 < inner)
    (hfirst : firstLine lines = some (inner, tokens)) :
    suite (fuel + 1) (⟨.newline, line'⟩ :: lineTokens last line widths lines) =
      blockRest fuel [] (lineTokens last line (inner :: widths) lines) := by
  obtain ⟨mark, hopened⟩ := lineTokens_opened last line hinner hfirst
  rw [hopened]
  simp [suite]

end Reading

/-- Lines are read as statements, up to the lines that follow them. -/
def ReadsLines (read : Nat → Parse (List Statement)) (slack : Nat) (lines : Nat → List TextLine)
    (statements : List Statement) : Prop :=
  ∀ fuel last line widths rest, 20 * weight (lines (widths.headD 0)) ≤ fuel + slack →
    Follows (widths.headD 0) rest →
    ∃ line', read fuel (lineTokens last line widths (lines (widths.headD 0) ++ rest)) =
      .ok (statements, lineTokens last line' widths rest)

theorem SurfaceStatement.weight_lines (s : SurfaceStatement) (width : Nat) :
    2 ≤ weight (s.lines width) := by
  obtain ⟨tokens, hfirst, hline, -⟩ := s.exists_firstLine width []
  obtain ⟨gaps, rest, hlines⟩ := exists_of_firstLine hfirst
  have hpos := List.length_pos_of_ne_nil hline.ne_nil
  have hweight : weight (s.lines width) = tokens.length + 1 + weight rest := by
    rw [← List.append_nil (s.lines width), hlines, weight_lineAfter]
  omega

/-- A block is read up to its end, with what was read before. -/
def SurfaceBlock.Understood (b : SurfaceBlock) : Prop :=
  ∀ fuel last line (done : List (List Statement)) inner widths rest,
    20 * weight (b.lines inner) ≤ fuel → widths.headD 0 < inner → AtMost (widths.headD 0) rest →
    ∃ line', blockRest fuel done (lineTokens last line (inner :: widths) (b.lines inner ++ rest)) =
      .ok (done.reverse.flatten ++ b.lower, lineTokens last line' widths rest)

theorem understood_last {s : SurfaceStatement} (h : ReadsLines statement 1 s.lines [s.lower]) :
    (SurfaceBlock.last s).Understood := by
  intro fuel last line done inner widths rest hfuel hinner hmost
  have hweight := s.weight_lines inner
  simp only [SurfaceBlock.lines] at hfuel ⊢
  obtain ⟨fuel, rfl⟩ : ∃ n, fuel = n + 2 := ⟨fuel - 2, by omega⟩
  obtain ⟨line', hread⟩ := h (fuel + 1) last line (inner :: widths) rest (by simpa using by omega)
    (hmost.follows hinner)
  obtain ⟨mark, hclosed⟩ := lineTokens_closed last line' hinner hmost
  obtain ⟨tokens, hfirst, hline, -⟩ := s.exists_firstLine inner rest
  refine ⟨line', ?_⟩
  rw [blockRest_of_isWritten (isWritten_next last line hfirst hline)]
  simp only [List.headD_cons] at hread
  rw [hread, ok_bind, hclosed]
  simp [blockRest, SurfaceBlock.lower]

theorem understood_cons {s : SurfaceStatement} {others : SurfaceBlock}
    (h : ReadsLines statement 1 s.lines [s.lower]) (hothers : others.Understood) :
    (SurfaceBlock.cons s others).Understood := by
  intro fuel last line done inner widths rest hfuel hinner hmost
  have hweight := s.weight_lines inner
  simp only [SurfaceBlock.lines, weight_append] at hfuel
  obtain ⟨fuel, rfl⟩ : ∃ n, fuel = n + 1 := ⟨fuel - 1, by omega⟩
  obtain ⟨line', hread⟩ := h fuel last line (inner :: widths) (others.lines inner ++ rest)
    (by simpa using by omega) (others.follows inner rest)
  obtain ⟨line'', hrest⟩ := hothers fuel last line' ([s.lower] :: done) inner widths rest (by omega)
    hinner hmost
  obtain ⟨tokens, hfirst, hline, -⟩ := s.exists_firstLine inner (others.lines inner ++ rest)
  refine ⟨line'', ?_⟩
  rw [SurfaceBlock.lines, List.append_assoc,
    blockRest_of_isWritten (isWritten_next last line hfirst hline)]
  simp only [List.headD_cons] at hread
  rw [hread, ok_bind, hrest]
  simp [SurfaceBlock.lower]

theorem reads_simple (gaps : List Gap) (s : SimpleStatement) :
    ReadsLines statement 1 (SurfaceStatement.simple gaps s).lines [s.lower] := by
  intro fuel last line widths rest hfuel hfollows
  rw [SurfaceStatement.lines, ← List.append_nil (lineAfter _ _ _), weight_lineAfter] at hfuel
  obtain ⟨fuel, rfl⟩ : ∃ n, fuel = n + 2 := ⟨fuel - 2, by omega⟩
  refine ⟨line + gaps.length + 1, ?_⟩
  rw [SurfaceStatement.lines, lineTokens_headD, statement_simple fuel _ _ s (by omega)]

/-- A block behind a header is read, if it is read at all widths. -/
theorem SurfaceBlock.Understood.suite {body : SurfaceBlock} (h : body.Understood)
    (fuel last line line' indent : Nat) {widths : List Nat} {rest : List TextLine}
    (hfuel : 20 * weight (body.lines (widths.headD 0 + indent + 1)) ≤ fuel)
    (hmost : AtMost (widths.headD 0) rest) :
    ∃ line'', suite (fuel + 1) (⟨.newline, line'⟩ ::
        lineTokens last line widths (body.lines (widths.headD 0 + indent + 1) ++ rest)) =
      .ok (body.lower, lineTokens last line'' widths rest) := by
  have hinner : widths.headD 0 < widths.headD 0 + indent + 1 := by omega
  obtain ⟨tokens, hfirst, -⟩ := body.exists_firstLine (widths.headD 0 + indent + 1) rest
  obtain ⟨line'', hread⟩ := h fuel last line [] _ widths rest hfuel hinner hmost
  exact ⟨line'', (suite_indented fuel last line line' hinner hfirst).trans hread⟩

theorem reads_compound (gaps : List Gap) (header : Header) (indent : Nat) {body : SurfaceBlock}
    (h : body.Understood) :
    ReadsLines statement 1 (SurfaceStatement.compound gaps header indent body).lines
      [header.lower body.lower] := by
  intro fuel last line widths rest hfuel hfollows
  rw [SurfaceStatement.lines, weight_lineAfter] at hfuel
  obtain ⟨fuel, rfl⟩ : ∃ n, fuel = n + 2 := ⟨fuel - 2, by omega⟩
  obtain ⟨line', hbody⟩ := h.suite fuel last (line + gaps.length + 1) (line + gaps.length) indent
    (by omega) hfollows.1
  refine ⟨line', ?_⟩
  rw [SurfaceStatement.lines, List.append_assoc, lineTokens_headD]
  exact statement_header (fuel + 1) _ _ header (by omega) hbody
    (next_lineTokens_ne last line' hfollows).2

/-- A condition, its block and what goes on with the branch are read together. -/
theorem branches_laidOut (condition : Surface) {body : SurfaceBlock} {tail : SurfaceTail}
    (hbody : body.Understood) (htail : ReadsLines alternative 0 tail.lines tail.lower)
    (fuel last line indent : Nat) {widths : List Nat} {rest : List TextLine}
    (hfuel : 20 * (condition.tokens.length + weight (body.lines (widths.headD 0 + indent + 1)) +
      weight (tail.lines (widths.headD 0))) ≤ fuel) (hfollows : Follows (widths.headD 0) rest) :
    ∃ line', branches (fuel + 2) (placed line (condition.tokens ++ [.op ":"]) ++ ⟨.newline, line⟩ ::
        lineTokens last (line + 1) widths (body.lines (widths.headD 0 + indent + 1) ++
          (tail.lines (widths.headD 0) ++ rest))) =
      .ok (.branch condition.lower body.lower tail.lower, lineTokens last line' widths rest) := by
  obtain ⟨line', hsuite⟩ := hbody.suite fuel last (line + 1) line indent (by omega)
    (tail.atMost hfollows.1)
  obtain ⟨line'', halternative⟩ := htail (fuel + 1) last line' widths rest (by omega) hfollows
  exact ⟨line'', branches_condition line condition (by omega) hsuite halternative⟩

theorem statement_if (fuel line : Nat) (ts : List Placed) :
    statement (fuel + 1) (⟨.name "if", line⟩ :: ts) =
      (branches fuel ts).bind fun r => .ok ([r.1], r.2) := by
  simp [statement]

theorem alternative_elif (fuel line : Nat) (ts : List Placed) :
    alternative fuel (⟨.name "elif", line⟩ :: ts) =
      (branches fuel ts).bind fun r => .ok ([r.1], r.2) := by
  simp [alternative]

theorem alternative_else (fuel line : Nat) (ts : List Placed) :
    alternative fuel (⟨.name "else", line⟩ :: ⟨.op ":", line⟩ :: ts) = suite fuel ts := by
  simp [alternative]

/-- A branch is read behind the word that announces it: `if` for a statement, and `elif` for what goes
on with one. -/
theorem reads_branch {read : Nat → Parse (List Statement)} {slack : Nat} {keyword : String}
    (hread : ∀ fuel line ts, read (fuel + slack) (⟨.name keyword, line⟩ :: ts) =
      (branches fuel ts).bind fun r => .ok ([r.1], r.2)) (hslack : slack ≤ 1)
    (gaps : List Gap) (condition : Surface) (indent : Nat) {body : SurfaceBlock} {tail : SurfaceTail}
    (hbody : body.Understood) (htail : ReadsLines alternative 0 tail.lines tail.lower) :
    ReadsLines read slack
      (fun width => lineAfter gaps width (.name keyword :: condition.tokens ++ [.op ":"]) ++
        (body.lines (width + indent + 1) ++ tail.lines width))
      [.branch condition.lower body.lower tail.lower] := by
  intro fuel last line widths rest hfuel hfollows
  rw [weight_lineAfter, weight_append] at hfuel
  simp only [List.length_append, List.length_cons] at hfuel
  obtain ⟨fuel, rfl⟩ : ∃ n, fuel = n + 2 + slack := ⟨fuel - slack - 2, by omega⟩
  obtain ⟨line', hbranches⟩ := branches_laidOut condition hbody htail fuel last (line + gaps.length)
    indent (by omega) hfollows
  refine ⟨line', ?_⟩
  rw [List.append_assoc, List.append_assoc, lineTokens_headD, List.cons_append, placed_cons,
    List.cons_append, hread, hbranches]
  rfl

theorem reads_else (gaps : List Gap) (indent : Nat) {body : SurfaceBlock} (h : body.Understood) :
    ReadsLines alternative 0 (SurfaceTail.else gaps indent body).lines body.lower := by
  intro fuel last line widths rest hfuel hfollows
  rw [SurfaceTail.lines, weight_lineAfter] at hfuel
  simp only [List.length_cons] at hfuel
  obtain ⟨fuel, rfl⟩ : ∃ n, fuel = n + 1 := ⟨fuel - 1, by omega⟩
  obtain ⟨line', hbody⟩ := h.suite fuel last (line + gaps.length + 1) (line + gaps.length) indent
    (by omega) hfollows.1
  refine ⟨line', ?_⟩
  rw [SurfaceTail.lines, List.append_assoc, lineTokens_headD]
  exact (alternative_else _ _ _).trans hbody

theorem reads_none : ReadsLines alternative 0 SurfaceTail.none.lines [] := by
  intro fuel last line widths rest hfuel hfollows
  refine ⟨line, ?_⟩
  have hnext := next_lineTokens_ne last line hfollows
  simp [SurfaceTail.lines, alternative, hnext]

mutual

/-- Every statement is read as the one that was laid out. -/
theorem SurfaceStatement.reads : ∀ s : SurfaceStatement, ReadsLines statement 1 s.lines [s.lower]
  | .simple gaps s => reads_simple gaps s
  | .compound gaps header indent body => reads_compound gaps header indent body.understood
  | .branch gaps condition indent body tail =>
    reads_branch statement_if (Nat.le_refl 1) gaps condition indent body.understood tail.reads

theorem SurfaceBlock.understood : ∀ b : SurfaceBlock, b.Understood
  | .last s => understood_last s.reads
  | .cons s others => understood_cons s.reads others.understood

theorem SurfaceTail.reads : ∀ t : SurfaceTail, ReadsLines alternative 0 t.lines t.lower
  | .none => reads_none
  | .elif gaps condition indent body tail =>
    reads_branch alternative_elif (Nat.zero_le 1) gaps condition indent body.understood tail.reads
  | .else gaps indent body => reads_else gaps indent body.understood

end

/-- The statements of a program are read one after another. -/
theorem statements_program (program : List SurfaceStatement) (ending : List Gap) (fuel last line : Nat)
    (done : List (List Statement)) (hfuel : 20 * weight (programLines program ending) < fuel) :
    ∃ ts, statements fuel done (lineTokens last line [] (programLines program ending)) =
      .ok (done.reverse.flatten ++ program.map (·.lower), ts) := by
  induction program generalizing fuel line done with
  | nil =>
      obtain ⟨fuel, rfl⟩ := Nat.exists_eq_succ_of_ne_zero (Nat.ne_zero_of_lt hfuel)
      have hgaps : lineTokens last line [] (programLines [] ending) = [⟨.eof, last⟩] :=
        lineTokens_gaps last line [] ending
      exact ⟨[⟨.eof, last⟩], by simp [hgaps, statements]⟩
  | cons s program ih =>
      obtain ⟨fuel, rfl⟩ := Nat.exists_eq_succ_of_ne_zero (Nat.ne_zero_of_lt hfuel)
      have hweight := s.weight_lines 0
      rw [programLines_cons] at hfuel ⊢
      rw [weight_append] at hfuel
      obtain ⟨tokens, hfirst, hline, -⟩ := s.exists_firstLine 0 (programLines program ending)
      have hstatement : 20 * weight (s.lines ([].headD 0)) ≤ fuel + 1 := by
        rw [List.headD_nil]
        omega
      obtain ⟨line', hread⟩ := s.reads fuel last line [] (programLines program ending) hstatement
        (follows_program program ending)
      obtain ⟨ts, hrest⟩ := ih fuel line' ([s.lower] :: done) (by omega)
      rw [List.headD_nil] at hread
      refine ⟨ts, ?_⟩
      rw [statements_of_isWritten (isWritten_next last line hfirst hline), hread, ok_bind, hrest]
      simp

/-- Parsing undoes layout: however deep blocks are nested and indented, and whatever lines without
statements stand between the others, the text of a program is read as its statements. -/
theorem parse_printProgram (style : Style) (program : List SurfaceStatement) (ending : List Gap) :
    parse (printProgram style program ending) = .ok (program.map (·.lower)) := by
  obtain ⟨last, htokens⟩ := tokenize_textOf style (fits_program program ending)
  have hweight := weight_le_length last 1 [] (programLines program ending)
  obtain ⟨ts, hstatements⟩ := statements_program program ending
    (nestingBound (lineTokens last 1 [] (programLines program ending))) last 1 []
    (by rw [nestingBound]; omega)
  rw [parse, printProgram, String.toList_ofList, htokens]
  change (statements _ [] _).bind _ = _
  rw [hstatements]
  rfl

/-- A loop in a branch, a comment between its blocks, and values without parentheses. -/
def sampleProgram : List SurfaceStatement :=
  let a : Identifier := ⟨"a", by decide, by decide⟩
  let remark : Gap := ⟨['\t'], some " otherwise", by simp, by decide⟩
  [.branch [] (.name a) 1
    (.last (.compound [] (.while (.name a)) 0 (.last (.simple [] .pass))))
    (.else [remark] 3 (.last (.simple []
      (.assign ⟨.one (.name a), Listing.head?_tokens_ne (by decide)⟩ none (.bare (.name a) [.integer 1])))))]

example : printProgram ⟨fun _ => false, fun _ => true⟩ sampleProgram [] =
    "if a :\n  while a :\n   pass\n\t# otherwise\nelse :\n    a = a , 1" := rfl

end ModelGraph.Script
