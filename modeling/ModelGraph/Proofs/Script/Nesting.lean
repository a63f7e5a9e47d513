import ModelGraph.Proofs.Script.Phrases

/-!
# Blocks within blocks

The lines of a program are indented as its blocks are nested: behind a header a block opens, and what
follows a block is at most as wide as its header. So every line is as wide as the innermost block that
is open there.
-/

namespace ModelGraph.Script

/-! ## First lines -/

/-- The first line with tokens. -/
def firstLine : List TextLine → Option (Nat × List Token)
  | [] => none
  | .gap _ :: rest => firstLine rest
  | .code width tokens :: _ => some (width, tokens)

/-- No block opens before the first line with tokens. -/
def AtMost (width : Nat) (lines : List TextLine) : Prop := ∀ l ∈ firstLine lines, l.1 ≤ width

@[simp] theorem firstLine_lineAfter (gaps : List Gap) (width : Nat) (tokens : List Token)
    (rest : List TextLine) : firstLine (lineAfter gaps width tokens ++ rest) = some (width, tokens) := by
  induction gaps with
  | nil => rfl
  | cons g gaps ih => exact ih

theorem atMost_lineAfter (gaps : List Gap) (width : Nat) (tokens : List Token)
    (rest : List TextLine) : AtMost width (lineAfter gaps width tokens ++ rest) := by
  intro l hl
  rw [firstLine_lineAfter] at hl
  cases hl
  exact Nat.le_refl _

theorem firstLine_gaps (gaps : List Gap) : firstLine (gaps.map .gap) = none := by
  induction gaps with
  | nil => rfl
  | cons g gaps ih => exact ih

theorem exists_of_firstLine {lines : List TextLine} {l : Nat × List Token}
    (h : firstLine lines = some l) :
    ∃ gaps rest, lines = lineAfter gaps l.1 l.2 ++ rest := by
  induction lines with
  | nil => cases h
  | cons line lines ih =>
      cases line with
      | gap g =>
          obtain ⟨gaps, rest, rfl⟩ := ih h
          exact ⟨g :: gaps, rest, rfl⟩
      | code width tokens =>
          cases h
          exact ⟨[], lines, rfl⟩

theorem exists_of_firstLine_eq_none {lines : List TextLine} (h : firstLine lines = none) :
    ∃ gaps : List Gap, lines = gaps.map .gap := by
  induction lines with
  | nil => exact ⟨[], rfl⟩
  | cons line lines ih =>
      cases line with
      | gap g =>
          obtain ⟨gaps, rfl⟩ := ih h
          exact ⟨g :: gaps, rfl⟩
      | code width tokens => cases h

/-- A line as wide as the innermost block neither opens nor closes one. -/
theorem openAt_headD (widths : List Nat) : openAt (widths.headD 0) widths = widths := by
  cases widths <;> simp [openAt]

theorem openAt_of_lt {width : Nat} {widths : List Nat} (h : widths.headD 0 < width) :
    openAt width widths = width :: widths := if_pos h

/-- A line that is less wide than the innermost block leaves the same blocks open as without it. -/
theorem openAt_cons {width inner : Nat} {widths : List Nat} (hwidth : width ≤ widths.headD 0)
    (hinner : widths.headD 0 < inner) : openAt width (inner :: widths) = openAt width widths := by
  have hlt : width < inner := by omega
  have hnone : ¬ (inner :: widths).headD 0 < width := by simp only [List.headD_cons]; omega
  rw [openAt, openAt, if_neg hnone, if_neg (by omega)]
  simp [hlt]

theorem fits_lineAfter {gaps : List Gap} {width : Nat} {tokens : List Token} {widths : List Nat}
    {rest : List TextLine} :
    Fits widths (lineAfter gaps width tokens ++ rest) ↔
      IsLine tokens ∧ width = (openAt width widths).headD 0 ∧ Fits (openAt width widths) rest := by
  induction gaps with
  | nil => rfl
  | cons g gaps ih => exact ih

theorem fits_gaps (widths : List Nat) (gaps : List Gap) : Fits widths (gaps.map .gap) := by
  induction gaps with
  | nil => trivial
  | cons g gaps ih => exact ih

/-- Lines that begin with a line of the width of a new block fit into it. -/
theorem Fits.outside {inner : Nat} {tokens : List Token} {widths : List Nat} {lines : List TextLine}
    (hinner : widths.headD 0 < inner) (hfirst : firstLine lines = some (inner, tokens))
    (h : Fits (inner :: widths) lines) : Fits widths lines := by
  obtain ⟨gaps, rest, rfl⟩ := exists_of_firstLine hfirst
  have hopen : openAt inner (inner :: widths) = inner :: widths := openAt_headD (inner :: widths)
  rw [fits_lineAfter, hopen] at h
  rwa [fits_lineAfter, openAt_of_lt hinner]

/-- Lines that fit outside of a block fit behind it. -/
theorem Fits.behind {inner : Nat} {widths : List Nat} {lines : List TextLine}
    (hinner : widths.headD 0 < inner) (hmost : AtMost (widths.headD 0) lines) (h : Fits widths lines) :
    Fits (inner :: widths) lines := by
  cases hfirst : firstLine lines with
  | none =>
      obtain ⟨gaps, rfl⟩ := exists_of_firstLine_eq_none hfirst
      exact fits_gaps _ gaps
  | some l =>
      have hopen := openAt_cons (hmost l hfirst) hinner
      obtain ⟨gaps, rest, rfl⟩ := exists_of_firstLine hfirst
      rw [fits_lineAfter] at h ⊢
      rwa [hopen]

/-! ## Beginnings of statements -/

/-- Whether a line goes on with a branch. -/
def goesOn (tokens : List Token) : Bool := tokens.head? ∈ [some (.name "elif"), some (.name "else")]

/-- Lines that may follow a statement of a width: they neither open a block nor go on with a branch of
that width. -/
def Follows (width : Nat) (lines : List TextLine) : Prop :=
  AtMost width lines ∧ ∀ tokens, firstLine lines = some (width, tokens) → goesOn tokens = false

theorem AtMost.follows {width inner : Nat} {lines : List TextLine} (h : AtMost width lines)
    (hinner : width < inner) : Follows inner lines := by
  refine ⟨fun l hl => (h l hl).trans hinner.le, fun tokens htokens => ?_⟩
  have hle := h _ htokens
  simp only at hle
  omega

theorem follows_of_firstLine {width : Nat} {tokens : List Token} {lines : List TextLine}
    (hfirst : firstLine lines = some (width, tokens)) (hgoes : goesOn tokens = false) :
    Follows width lines := by
  refine ⟨fun l hl => ?_, fun tokens' htokens' => ?_⟩
  · cases hfirst.symm.trans hl
    exact Nat.le_refl _
  · cases hfirst.symm.trans htokens'
    exact hgoes

theorem Begins.goesOn {place : Nat} {tokens : List Token} (h : Begins place tokens) :
    goesOn tokens = false := by
  have helif := h.head?_ne (t := .name "elif") (by simp [opens, isKeyword, keywords])
  have helse := h.head?_ne (t := .name "else") (by simp [opens, isKeyword, keywords])
  simp [Script.goesOn, helif, helse]

theorem goesOn_append {xs : List Token} (h : xs ≠ []) (ys : List Token) :
    goesOn (xs ++ ys) = goesOn xs := by
  rw [goesOn, goesOn, List.head?_append_of_ne_nil _ h]

theorem SimpleStatement.goesOn_tokens (s : SimpleStatement) : goesOn s.tokens = false := by
  cases s with
  | «return» value => cases value <;> rfl
  | declare name declaredType =>
      have hbegins : Begins 0 (declare name declaredType).tokens :=
        ⟨_, _, rfl, Or.inl name.not_keyword, by simp⟩
      exact hbegins.goesOn
  | assign target declaredType value =>
      rw [tokens, List.append_assoc, goesOn_append target.listing.begins_tokens.ne_nil]
      exact target.listing.begins_tokens.goesOn
  | expr value => exact value.listing.begins_tokens.goesOn
  | _ => rfl

theorem Header.goesOn_tokens (h : Header) : goesOn h.tokens = false := by
  cases h with
  | defineClass name bases => cases bases <;> rfl
  | _ => rfl

theorem SurfaceStatement.exists_firstLine (s : SurfaceStatement) (width : Nat) (rest : List TextLine) :
    ∃ tokens, firstLine (s.lines width ++ rest) = some (width, tokens) ∧ IsLine tokens ∧
      goesOn tokens = false := by
  cases s with
  | simple gaps statement =>
      exact ⟨_, by rw [lines, firstLine_lineAfter], statement.isLine_tokens, statement.goesOn_tokens⟩
  | compound gaps header indent body =>
      exact ⟨_, by rw [lines, List.append_assoc, firstLine_lineAfter], header.isLine_tokens,
        header.goesOn_tokens⟩
  | branch gaps condition indent body tail =>
      exact ⟨_, by rw [lines, List.append_assoc, List.append_assoc, firstLine_lineAfter],
        isLine_condition (by decide) condition, rfl⟩

theorem SurfaceBlock.exists_firstLine (b : SurfaceBlock) (width : Nat) (rest : List TextLine) :
    ∃ tokens, firstLine (b.lines width ++ rest) = some (width, tokens) ∧ IsLine tokens ∧
      goesOn tokens = false := by
  cases b with
  | last s => exact s.exists_firstLine width rest
  | cons s others =>
      rw [lines, List.append_assoc]
      exact s.exists_firstLine width _

/-- A statement may follow any other of its width. -/
theorem SurfaceBlock.follows (b : SurfaceBlock) (width : Nat) (rest : List TextLine) :
    Follows width (b.lines width ++ rest) := by
  obtain ⟨tokens, hfirst, -, hgoes⟩ := b.exists_firstLine width rest
  exact follows_of_firstLine hfirst hgoes

/-- What goes on with a branch opens no block before its first line. -/
theorem SurfaceTail.atMost (t : SurfaceTail) {width : Nat} {rest : List TextLine}
    (h : AtMost width rest) : AtMost width (t.lines width ++ rest) := by
  cases t with
  | none => exact h
  | elif gaps condition indent body tail =>
      rw [lines, List.append_assoc, List.append_assoc]
      exact atMost_lineAfter gaps width _ _
  | «else» gaps indent body =>
      rw [lines, List.append_assoc]
      exact atMost_lineAfter gaps width _ _

/-! ## Programs -/

/-- The lines of an indented block fit behind a header. -/
theorem SurfaceBlock.fits_indented {body : SurfaceBlock} {widths : List Nat} {rest : List TextLine}
    (indent : Nat) (hrest : Fits widths rest) (hmost : AtMost (widths.headD 0) rest)
    (hbody : ∀ widths', Fits widths' rest → AtMost (widths'.headD 0) rest →
      Fits widths' (body.lines (widths'.headD 0) ++ rest)) :
    Fits widths (body.lines (widths.headD 0 + indent + 1) ++ rest) := by
  have hinner : widths.headD 0 < widths.headD 0 + indent + 1 := by omega
  obtain ⟨tokens, hfirst, -⟩ := body.exists_firstLine (widths.headD 0 + indent + 1) rest
  exact Fits.outside hinner hfirst
    (hbody (_ :: widths) (hrest.behind hinner hmost) (hmost.follows hinner).1)

mutual

theorem SurfaceStatement.fits {widths : List Nat} {rest : List TextLine} (hrest : Fits widths rest)
    (hmost : AtMost (widths.headD 0) rest) :
    ∀ s : SurfaceStatement, Fits widths (s.lines (widths.headD 0) ++ rest)
  | .simple gaps statement => by
      rw [SurfaceStatement.lines, fits_lineAfter, openAt_headD]
      exact ⟨statement.isLine_tokens, rfl, hrest⟩
  | .compound gaps header indent body => by
      rw [SurfaceStatement.lines, List.append_assoc, fits_lineAfter, openAt_headD]
      exact ⟨header.isLine_tokens, rfl, SurfaceBlock.fits_indented indent hrest hmost
        fun _ hrest hmost => body.fits hrest hmost⟩
  | .branch gaps condition indent body tail => by
      rw [SurfaceStatement.lines, List.append_assoc, List.append_assoc, fits_lineAfter, openAt_headD]
      exact ⟨isLine_condition (by decide) condition, rfl, SurfaceBlock.fits_indented indent
        (tail.fits hrest hmost) (tail.atMost hmost) fun _ hrest hmost => body.fits hrest hmost⟩

theorem SurfaceBlock.fits {widths : List Nat} {rest : List TextLine} (hrest : Fits widths rest)
    (hmost : AtMost (widths.headD 0) rest) :
    ∀ b : SurfaceBlock, Fits widths (b.lines (widths.headD 0) ++ rest)
  | .last s => s.fits hrest hmost
  | .cons s others => by
      rw [SurfaceBlock.lines, List.append_assoc]
      exact s.fits (others.fits hrest hmost) (others.follows _ rest).1

theorem SurfaceTail.fits {widths : List Nat} {rest : List TextLine} (hrest : Fits widths rest)
    (hmost : AtMost (widths.headD 0) rest) :
    ∀ t : SurfaceTail, Fits widths (t.lines (widths.headD 0) ++ rest)
  | .none => hrest
  | .elif gaps condition indent body tail => by
      rw [SurfaceTail.lines, List.append_assoc, List.append_assoc, fits_lineAfter, openAt_headD]
      exact ⟨isLine_condition (by decide) condition, rfl, SurfaceBlock.fits_indented indent
        (tail.fits hrest hmost) (tail.atMost hmost) fun _ hrest hmost => body.fits hrest hmost⟩
  | .else gaps indent body => by
      rw [SurfaceTail.lines, List.append_assoc, fits_lineAfter, openAt_headD]
      exact ⟨⟨.name (by decide) isPhrase_colon, by simp⟩, rfl, SurfaceBlock.fits_indented indent hrest
        hmost fun _ hrest hmost => body.fits hrest hmost⟩

end

theorem follows_program (program : List SurfaceStatement) (ending : List Gap) :
    Follows 0 (programLines program ending) := by
  cases program with
  | nil =>
      have hnone : firstLine (programLines [] ending) = none := firstLine_gaps ending
      exact ⟨fun l hl => by simp [hnone] at hl, fun tokens htokens => by simp [hnone] at htokens⟩
  | cons s program =>
      obtain ⟨tokens, hfirst, -, hgoes⟩ := s.exists_firstLine 0 (programLines program ending)
      rw [programLines_cons]
      exact follows_of_firstLine hfirst hgoes

/-- The statements of a program stand at the margin. -/
theorem fits_program (program : List SurfaceStatement) (ending : List Gap) :
    Fits [] (programLines program ending) := by
  induction program with
  | nil => exact fits_gaps [] ending
  | cons s program ih =>
      rw [programLines_cons]
      exact s.fits ih (follows_program program ending).1

end ModelGraph.Script
