import Mathlib.Data.List.TakeWhile
import ModelGraph.Proofs.Script.Program
import ModelGraph.Proofs.Script.Reading
import ModelGraph.Proofs.Script.Scanning

/-!
# Scanning lines

The scanner passes over lines without statements and finds the tokens of the others, with marks where
blocks open and close. The widths of the open blocks decide which marks stand before a line: a wider
line opens a block, and any other line closes those that are wider than itself.
-/

namespace ModelGraph.Script

/-- Every bracket that the tokens open is closed among them. -/
def Balanced (tokens : List Token) : Prop :=
  ∀ depth, tokens.foldl Token.depthAfter depth = depth

/-- Tokens that can be written and close every bracket that they open. -/
structure IsPhrase (tokens : List Token) : Prop where
  written : ∀ t ∈ tokens, t.IsWritten
  balanced : Balanced tokens

/-- Tokens that make a line. -/
structure IsLine (tokens : List Token) : Prop extends IsPhrase tokens where
  ne_nil : tokens ≠ []

/-- The marks before a line of a width in blocks of some widths, innermost first. -/
def marksBefore (line width : Nat) (widths : List Nat) : List Placed :=
  if widths.headD 0 < width then [⟨.indent, line⟩]
  else List.replicate (widths.takeWhile (width < ·)).length ⟨.dedent, line⟩

/-- The blocks that are open on a line of a width. -/
def openAt (width : Nat) (widths : List Nat) : List Nat :=
  if widths.headD 0 < width then width :: widths else widths.dropWhile (width < ·)

/-- The tokens of lines in blocks of some widths. The marks of the end stand on the line `last`. -/
def lineTokens (last : Nat) : (line : Nat) → (widths : List Nat) → List TextLine → List Placed
  | _, widths, [] => List.replicate widths.length ⟨.dedent, last⟩ ++ [⟨.eof, last⟩]
  | line, widths, .gap _ :: rest => lineTokens last (line + 1) widths rest
  | line, widths, .code width tokens :: rest =>
    marksBefore line width widths ++ placed line tokens ++
      ⟨.newline, line⟩ :: lineTokens last (line + 1) (openAt width widths) rest

/-- Every line in blocks of some widths has tokens, and is as wide as the innermost block that is open
there. -/
def Fits : (widths : List Nat) → List TextLine → Prop
  | _, [] => True
  | widths, .gap _ :: rest => Fits widths rest
  | widths, .code width tokens :: rest =>
    IsLine tokens ∧ width = (openAt width widths).headD 0 ∧ Fits (openAt width widths) rest

/-! ## Indentation -/

/-- Blanks are measured up to the first other character. -/
theorem indentation_append {blanks : List Char} (rest : List Char)
    (hblanks : ∀ c ∈ blanks, c ∈ [' ', '\t', '\x0c', '\r'])
    (hrest : ∀ c ∈ rest.head?, c ∉ [' ', '\t', '\x0c', '\r']) (width : Nat) :
    ∃ width', indentation width (blanks ++ rest) = (width', rest) := by
  induction blanks generalizing width with
  | nil =>
      refine ⟨width, ?_⟩
      cases rest with
      | nil => rfl
      | cons c rest =>
          have hc := hrest c rfl
          simp only [List.mem_cons, List.not_mem_nil, or_false, not_or] at hc
          rw [List.nil_append, indentation]
          all_goals simp [hc]
  | cons b blanks ih =>
      have ih := ih fun c hc => hblanks c (List.mem_cons_of_mem _ hc)
      have hb := hblanks b (by simp)
      simp only [List.mem_cons, List.not_mem_nil, or_false] at hb
      rcases hb with rfl | rfl | rfl | rfl <;> exact ih _

theorem indentation_replicate (n : Nat) {c : Char} (hc : c ∉ [' ', '\t', '\x0c', '\r'])
    (rest : List Char) (width : Nat) :
    indentation width (List.replicate n ' ' ++ c :: rest) = (width + n, c :: rest) := by
  induction n generalizing width with
  | zero =>
      simp only [List.mem_cons, List.not_mem_nil, or_false, not_or] at hc
      rw [List.replicate_zero, List.nil_append, indentation]
      all_goals simp [hc]
  | succ n ih =>
      rw [List.replicate_succ, List.cons_append, indentation, ih]
      congr 1
      omega

theorem closeBlocks_eq (width line : Nat) (widths : List Nat) (tokens : List Placed) :
    closeBlocks width line widths tokens =
      (widths.dropWhile (width < ·),
        List.replicate (widths.takeWhile (width < ·)).length ⟨.dedent, line⟩ ++ tokens) := by
  induction widths generalizing tokens with
  | nil => rfl
  | cons innermost outer ih =>
      unfold closeBlocks
      by_cases h : width < innermost
      · rw [if_pos h, ih]
        simp [h, List.replicate_succ']
      · simp [h]

/-! ## Lines without statements -/

theorem skipLine_of_notMem {cs : List Char} (h : '\n' ∉ cs) (rest : List Char) :
    skipLine (cs ++ '\n' :: rest) = '\n' :: rest := by
  rw [skipLine, List.dropWhile_append_of_pos (by simpa using fun c hc => ne_of_mem_of_not_mem hc h)]
  simp

theorem skipLine_eq_nil {cs : List Char} (h : '\n' ∉ cs) : skipLine cs = [] := by
  rw [skipLine, List.dropWhile_eq_nil_iff]
  simpa using fun c hc => ne_of_mem_of_not_mem hc h

namespace Gap

theorem newline_notMem_remark (g : Gap) : '\n' ∉ g.remark := by
  cases hcomment : g.comment with
  | none => simp [remark, hcomment]
  | some text => simpa [remark, hcomment] using g.newline_notMem text hcomment

/-- Behind the blanks of a line there is a comment, or the line ends. -/
theorem head?_remark (g : Gap) (rest : List Char) :
    (g.remark ++ '\n' :: rest).head? = some '#' ∨ (g.remark ++ '\n' :: rest).head? = some '\n' := by
  cases hcomment : g.comment <;> simp [remark, hcomment]

end Gap

namespace Scan

variable {s : Scan}

theorem reaches_gap (g : Gap) {rest : List Char} (hline : s.lineStart = true)
    (hrest : s.rest = g.text ++ '\n' :: rest) :
    s.Reaches { s with rest, line := s.line + 1 } := by
  have hhead := g.head?_remark rest
  obtain ⟨c, others, hcons⟩ : ∃ c others, g.remark ++ '\n' :: rest = c :: others :=
    List.exists_cons_of_ne_nil (by simp)
  have hc : c = '#' ∨ c = '\n' := by simpa [hcons] using hhead
  obtain ⟨width, hwidth⟩ := indentation_append (g.remark ++ '\n' :: rest) g.blank_of_mem
    (by rcases hhead with h | h <;> simp [h]) 0
  have hskip := skipLine_of_notMem g.newline_notMem_remark rest
  refine reaches_of_step ?_ ?_
  · rw [Gap.text, List.append_assoc] at hrest
    rw [hcons] at hwidth hskip hrest
    simp [step, hline, layout, hrest, hwidth, hc, hskip]
  · simp [toDo, hline, hrest]
    omega

theorem reaches_end (hline : s.lineStart = true) (hrest : s.rest = []) :
    s.Reaches { s with rest := [], lineStart := false } := by
  refine reaches_of_step ?_ (by simp [toDo, hline])
  simp [step, hline, layout, hrest, indentation]

/-- The last line may have no statement too. -/
theorem reaches_end_of_gap (g : Gap) (hline : s.lineStart = true) (hrest : s.rest = g.text) :
    s.Reaches { s with rest := [], lineStart := false } := by
  cases hremark : g.remark with
  | nil =>
      obtain ⟨width, hwidth⟩ := indentation_append [] g.blank_of_mem (by simp) 0
      rw [Gap.text, hremark] at hrest
      refine reaches_of_step ?_ (by simp [toDo, hline])
      simp only [step, hline, if_true, layout, hrest, hwidth]
  | cons c others =>
      obtain rfl : '#' = c := by
        cases hcomment : g.comment with
        | none => simp [Gap.remark, hcomment] at hremark
        | some text => simpa [Gap.remark, hcomment] using congrArg List.head? hremark
      have hskip : skipLine ('#' :: others) = [] :=
        skipLine_eq_nil (hremark ▸ g.newline_notMem_remark)
      obtain ⟨width, hwidth⟩ := indentation_append ('#' :: others) g.blank_of_mem (by simp) 0
      rw [Gap.text, hremark] at hrest
      have hstep : s.step = .ok { s with rest := [] } := by
        simp [step, hline, layout, hrest, hwidth, hskip]
      refine (reaches_of_step hstep ?_).trans (reaches_end hline rfl)
      simp only [toDo, hrest, List.length_append, List.length_cons, List.length_nil]
      omega

/-! ## Lines with tokens -/

/-- Before the tokens of a line blocks are opened or closed. -/
theorem reaches_margin {width : Nat} {c : Char} {rest : List Char} (hc : StartsToken c)
    (hline : s.lineStart = true) (hrest : s.rest = List.replicate width ' ' ++ c :: rest)
    (hwidth : width = (openAt width s.indents).headD 0) :
    s.Reaches { s with
      rest := c :: rest
      lineStart := false
      indents := openAt width s.indents
      tokens := (marksBefore s.line width s.indents).reverse ++ s.tokens } := by
  simp only [StartsToken, List.mem_cons, List.not_mem_nil, or_false, not_or] at hc
  have hblanks := indentation_replicate width (c := c) (by simp [hc]) rest 0
  rw [Nat.zero_add] at hblanks
  refine reaches_of_step ?_ ?_
  · simp only [step, hline, if_true, layout, hrest, hblanks, hc, or_self, if_false, closeBlocks_eq]
    unfold openAt at hwidth ⊢
    unfold marksBefore
    split_ifs with hopens hwide
    · rfl
    · simp
    · rw [if_neg hopens] at hwidth
      exact absurd hwidth hwide
  · simp only [toDo, hline, hrest, List.length_append, if_true, Bool.false_eq_true, if_false]
    omega

/-- The state behind the tokens of a line. -/
def behind (s : Scan) (width : Nat) (tokens : List Token) (rest : List Char) : Scan :=
  { s with
    rest
    lineStart := false
    indents := openAt width s.indents
    tokens := (marksBefore s.line width s.indents ++ placed s.line tokens).reverse ++ s.tokens }

theorem reaches_behind (style : Style) {width : Nat} {tokens : List Token} {rest : List Char}
    (htokens : IsLine tokens) (hline : s.lineStart = true)
    (hrest : s.rest = List.replicate width ' ' ++ style.spaced tokens ++ rest)
    (hblank : AtBlank rest) (hwidth : width = (openAt width s.indents).headD 0) :
    s.Reaches (s.behind width tokens rest) := by
  obtain ⟨c, others, hspaced, hc⟩ := style.spaced_eq_cons htokens.written htokens.ne_nil
  rw [hspaced, List.append_assoc, List.cons_append] at hrest
  refine (reaches_margin hc hline hrest hwidth).trans ?_
  have hreaches := reaches_spaced style htokens.written hblank (s := { s with
    rest := c :: (others ++ rest)
    lineStart := false
    indents := openAt width s.indents
    tokens := (marksBefore s.line width s.indents).reverse ++ s.tokens }) rfl (by simp [hspaced])
  simpa [htokens.balanced s.depth, placed, behind] using hreaches

theorem hasContent_behind (s : Scan) (width : Nat) {tokens : List Token} (htokens : IsLine tokens)
    (rest : List Char) : (s.behind width tokens rest).hasContent = true := by
  have hbehind : (s.behind width tokens rest).tokens = (placed s.line tokens).reverse ++
      ((marksBefore s.line width s.indents).reverse ++ s.tokens) := by simp [behind]
  exact hasContent_of_isWritten htokens.written htokens.ne_nil hbehind

theorem reaches_newline {rest : List Char} (hline : s.lineStart = false) (hdepth : s.depth = 0)
    (hcontent : s.hasContent = true) (hrest : s.rest = '\n' :: rest) :
    s.Reaches { s with
      rest
      line := s.line + 1
      lineStart := true
      tokens := ⟨.newline, s.line⟩ :: s.tokens } := by
  refine reaches_of_step ?_ ?_
  · simp [step, hline, hrest, hdepth, endLine, hcontent, push]
  · simp only [toDo, hline, hrest, List.length_cons, if_true, Bool.false_eq_true, if_false]
    omega

/-! ## The end of the text -/

theorem foldl_push_dedent (s : Scan) (widths : List Nat) :
    widths.foldl (fun s _ => s.push .dedent) s =
      { s with tokens := List.replicate widths.length ⟨.dedent, s.line⟩ ++ s.tokens } := by
  induction widths generalizing s with
  | nil => rfl
  | cons width widths ih =>
      rw [List.foldl_cons, ih]
      simp [push, List.replicate_succ']

@[simp] theorem line_endLine (s : Scan) : s.endLine.line = s.line := by
  unfold endLine
  split_ifs <;> rfl

@[simp] theorem indents_endLine (s : Scan) : s.endLine.indents = s.indents := by
  unfold endLine
  split_ifs <;> rfl

theorem finish_eq (s : Scan) :
    s.finish = s.endLine.tokens.reverse ++ lineTokens s.line s.line s.indents [] := by
  change ((s.endLine.indents.foldl (fun s _ => s.push .dedent) s.endLine).push .eof).tokens.reverse = _
  rw [foldl_push_dedent, indents_endLine]
  simp [push, lineTokens]

theorem finish_of_hasContent_eq_false (h : s.hasContent = false) :
    s.finish = s.tokens.reverse ++ lineTokens s.line s.line s.indents [] := by
  rw [finish_eq, endLine, h, if_neg Bool.false_ne_true]

theorem finish_of_hasContent (h : s.hasContent = true) :
    s.finish = s.tokens.reverse ++ ⟨.newline, s.line⟩ :: lineTokens s.line s.line s.indents [] := by
  rw [finish_eq, endLine, h, if_pos rfl]
  simp [push]

/-! ## Texts -/

theorem textOf_cons_cons (style : Style) (l l' : TextLine) (lines : List TextLine) :
    textOf style (l :: l' :: lines) = l.text style ++ '\n' :: textOf style (l' :: lines) := by
  simp [textOf]

theorem textOf_singleton (style : Style) (l : TextLine) : textOf style [l] = l.text style := by
  simp [textOf]

/-- Scanning goes through lines to the end of the text and finds their tokens. -/
theorem reaches_lines (style : Style) {lines : List TextLine} (hfits : Fits s.indents lines)
    (hline : s.lineStart = true) (hdepth : s.depth = 0) (hcontent : s.hasContent = false)
    (hrest : s.rest = textOf style lines) :
    ∃ s', s.Reaches s' ∧ s'.rest = [] ∧ s'.lineStart = false ∧
      s'.finish = s.tokens.reverse ++ lineTokens s'.line s.line s.indents lines := by
  induction lines generalizing s with
  | nil =>
      exact ⟨_, reaches_end hline hrest, rfl, rfl,
        finish_of_hasContent_eq_false (s := { s with rest := [], lineStart := false }) hcontent⟩
  | cons l lines ih =>
      cases l with
      | gap g =>
          cases lines with
          | nil =>
              rw [textOf_singleton] at hrest
              exact ⟨_, reaches_end_of_gap g hline hrest, rfl, rfl,
                finish_of_hasContent_eq_false (s := { s with rest := [], lineStart := false }) hcontent⟩
          | cons l' lines =>
              rw [textOf_cons_cons] at hrest
              obtain ⟨s', hreaches, hend⟩ := ih hfits (s := { s with
                rest := textOf style (l' :: lines)
                line := s.line + 1 }) hline hdepth hcontent rfl
              exact ⟨s', (reaches_gap g hline hrest).trans hreaches, hend⟩
      | code width tokens =>
          obtain ⟨htokens, hwidth, hfits⟩ := hfits
          cases lines with
          | nil =>
              rw [textOf_singleton, ← List.append_nil (TextLine.text _ _)] at hrest
              refine ⟨_, reaches_behind style htokens hline hrest (Or.inl rfl) hwidth, rfl, rfl, ?_⟩
              rw [finish_of_hasContent (s.hasContent_behind width htokens [])]
              simp [behind, lineTokens]
          | cons l' lines =>
              rw [textOf_cons_cons] at hrest
              have hbehind := reaches_behind style htokens hline hrest (.newline _) hwidth
              have hnewline := reaches_newline
                (s := s.behind width tokens ('\n' :: textOf style (l' :: lines))) rfl hdepth
                (s.hasContent_behind width htokens _) rfl
              obtain ⟨s', hlines, hrest', hline', hfinish⟩ := ih hfits (s := { s with
                rest := textOf style (l' :: lines)
                line := s.line + 1
                indents := openAt width s.indents
                tokens := ⟨.newline, s.line⟩ :: (s.behind width tokens []).tokens })
                hline hdepth rfl rfl
              refine ⟨s', (hbehind.trans hnewline).trans (hline ▸ hlines), hrest', hline', ?_⟩
              rw [hfinish]
              simp [behind, lineTokens]

end Scan

/-- The tokens of a text are those of its lines. -/
theorem tokenize_textOf (style : Style) {lines : List TextLine} (hfits : Fits [] lines) :
    ∃ last, tokenize (textOf style lines) = .ok (lineTokens last 1 [] lines) := by
  obtain ⟨s, hreaches, hrest, hline, hfinish⟩ :=
    Scan.reaches_lines style (s := Scan.start (textOf style lines)) hfits rfl rfl rfl rfl
  exact ⟨s.line, by rw [tokenize_of_reaches hreaches hrest hline, hfinish]; rfl⟩

end ModelGraph.Script
