import ModelGraph.Proofs.Script.Steps

/-!
# Token streams

The tokens of a text come in lines and blocks. Every move of the scanner keeps the marks of the
layout in their places: a line ends after a token, blocks are opened and closed between lines, no
more blocks are closed than were opened, and no mark stands between brackets. At the end of the text
the last line is ended and the open blocks are closed, whatever brackets are open.
-/

namespace ModelGraph.Script

/-- The marks of lines and blocks. -/
def Token.isLayout : Token → Bool
  | .newline | .indent | .dedent => true
  | _ => false

def occurrences (t : Token) (tokens : List Placed) : Nat := tokens.countP (·.token = t)

/-- The number of brackets that tokens leave open; a closing one without an open one counts as
nothing. -/
def openBrackets (tokens : List Placed) : Nat :=
  tokens.foldl (fun depth t => t.token.depthAfter depth) 0

@[simp] theorem occurrences_append (t : Token) (xs ys : List Placed) :
    occurrences t (xs ++ ys) = occurrences t xs + occurrences t ys := List.countP_append

@[simp] theorem occurrences_singleton (t : Token) (u : Placed) :
    occurrences t [u] = if u.token = t then 1 else 0 := by
  simp [occurrences, List.countP_singleton]

@[simp] theorem occurrences_replicate (t : Token) (n : Nat) (u : Placed) :
    occurrences t (List.replicate n u) = if u.token = t then n else 0 := by
  simp [occurrences, List.countP_replicate]

@[simp] theorem openBrackets_concat (tokens : List Placed) (t : Placed) :
    openBrackets (tokens ++ [t]) = t.token.depthAfter (openBrackets tokens) := by
  simp [openBrackets]

/-- Where a mark of the layout may stand: a line ends after one of its tokens, and blocks are opened
and closed before any token of a line. -/
structure StandsAfter (before : List Placed) (t : Token) : Prop where
  newline : t = .newline → ∃ last ∈ before.getLast?, last.token.isLayout = false
  margin : t = .indent ∨ t = .dedent → ∀ last ∈ before.getLast?, last.token.isLayout = true

/-- Tokens laid out in lines and blocks. -/
structure LaidOut (tokens : List Placed) : Prop where
  stands : ∀ before t, before ++ [t] <+: tokens → StandsAfter before t.token
  dedents_le : ∀ before, before <+: tokens →
    occurrences .dedent before ≤ occurrences .indent before
  lines_le : tokens.Pairwise fun t u => t.line ≤ u.line

/-- The tokens of a whole text. -/
structure IsTokenStream (tokens : List Placed) : Prop extends LaidOut tokens where
  balanced : occurrences .indent tokens = occurrences .dedent tokens
  ends : ∃ body line, tokens = body ++ [⟨.eof, line⟩] ∧ ∀ t ∈ body, t.token ≠ .eof
  joined : ∀ before t after, tokens = before ++ t :: after → t.token.isLayout = true →
    0 < openBrackets before →
      t.token ≠ .indent ∧ ∀ u ∈ after, u.token = .dedent ∨ u.token = .eof

theorem standsAfter_of_not_isLayout (before : List Placed) {t : Token} (ht : t.isLayout = false) :
    StandsAfter before t where
  newline h := by simp [h, Token.isLayout] at ht
  margin h := by rcases h with rfl | rfl <;> simp [Token.isLayout] at ht

theorem Token.IsContent.isLayout {t : Token} (h : t.IsContent) : t.isLayout = false := by
  cases t <;> first | rfl | exact h.elim

/-- A token among others and a last one is that one, or stands among the others. -/
theorem eq_or_prefix_of_concat_prefix {before tokens : List Placed} {t u : Placed}
    (h : before ++ [u] <+: tokens ++ [t]) :
    (before = tokens ∧ u = t) ∨ before ++ [u] <+: tokens := by
  rcases List.prefix_concat_iff.mp h with heq | h
  · have hparts := List.append_inj' heq rfl
    exact .inl ⟨hparts.1, List.singleton_inj.mp hparts.2⟩
  · exact .inr h

/-- No mark of the layout stands between brackets. -/
def Unbroken (tokens : List Placed) : Prop :=
  ∀ before t, before ++ [t] <+: tokens → t.token.isLayout = true → openBrackets before = 0

namespace LaidOut

variable {tokens : List Placed} {line : Nat}

theorem nil : LaidOut [] where
  stands before t h := absurd (List.prefix_nil.mp h) (by simp)
  dedents_le before h := by
    rw [List.prefix_nil.mp h]
    exact Nat.le_refl _
  lines_le := .nil

theorem concat (h : LaidOut tokens) {t : Placed} (hstands : StandsAfter tokens t.token)
    (hline : ∀ u ∈ tokens, u.line ≤ t.line)
    (hdedents : t.token = .dedent → occurrences .dedent tokens < occurrences .indent tokens) :
    LaidOut (tokens ++ [t]) where
  stands before u hu := by
    rcases eq_or_prefix_of_concat_prefix hu with ⟨rfl, rfl⟩ | hu
    · exact hstands
    · exact h.stands before u hu
  dedents_le before hbefore := by
    rcases List.prefix_concat_iff.mp hbefore with rfl | hbefore
    · have hle := h.dedents_le tokens List.prefix_rfl
      by_cases ht : t.token = .dedent
      · simp only [occurrences_append, occurrences_singleton, ht, if_true, reduceCtorEq, if_false,
          Nat.add_zero]
        exact hdedents ht
      · simp only [occurrences_append, occurrences_singleton, ht, if_false, Nat.add_zero]
        omega
    · exact h.dedents_le before hbefore
  lines_le := List.pairwise_append.mpr ⟨h.lines_le, List.pairwise_singleton _ _, fun u hu v hv =>
    List.mem_singleton.mp hv ▸ hline u hu⟩

/-- Blocks are closed between lines, as many as are open. -/
theorem close (h : LaidOut tokens) (hlast : ∀ last ∈ tokens.getLast?, last.token.isLayout = true)
    (hline : ∀ u ∈ tokens, u.line ≤ line) (closed : Nat)
    (hclosed : closed + occurrences .dedent tokens ≤ occurrences .indent tokens) :
    LaidOut (tokens ++ List.replicate closed ⟨.dedent, line⟩) := by
  induction closed with
  | zero => simpa using h
  | succ closed ih =>
      have ih := ih (by omega)
      rw [List.replicate_succ', ← List.append_assoc]
      refine ih.concat ⟨nofun, fun _ last hmem => ?_⟩ (fun u hu => ?_) fun _ => ?_
      · cases closed with
        | zero => exact hlast last (by simpa using hmem)
        | succ closed =>
            rw [List.replicate_succ', ← List.append_assoc, List.getLast?_concat] at hmem
            obtain rfl := Option.some.inj hmem
            rfl
      · rcases List.mem_append.mp hu with hu | hu
        · exact hline u hu
        · rw [List.eq_of_mem_replicate hu]
      · simp only [occurrences_append, occurrences_replicate, if_true, reduceCtorEq, if_false,
          Nat.add_zero]
        omega

end LaidOut

namespace Unbroken

variable {tokens : List Placed}

theorem nil : Unbroken [] := fun before t h => absurd (List.prefix_nil.mp h) (by simp)

theorem concat (h : Unbroken tokens) {t : Placed}
    (ht : t.token.isLayout = true → openBrackets tokens = 0) : Unbroken (tokens ++ [t]) := by
  intro before u hu
  rcases eq_or_prefix_of_concat_prefix hu with ⟨rfl, rfl⟩ | hu
  · exact ht
  · exact h before u hu

theorem close (h : Unbroken tokens) (hopen : openBrackets tokens = 0) (closed line : Nat) :
    Unbroken (tokens ++ List.replicate closed ⟨.dedent, line⟩) ∧
      openBrackets (tokens ++ List.replicate closed ⟨.dedent, line⟩) = 0 := by
  induction closed with
  | zero => simpa using ⟨h, hopen⟩
  | succ closed ih =>
      rw [List.replicate_succ', ← List.append_assoc, openBrackets_concat]
      exact ⟨ih.1.concat fun _ => ih.2, ih.2⟩

end Unbroken

namespace Scan

variable {s s' : Scan}

/-- The tokens so far, in their order. -/
def found (s : Scan) : List Placed := s.tokens.reverse

@[simp] theorem found_push (s : Scan) (t : Token) : (s.push t).found = s.found ++ [⟨t, s.line⟩] :=
  List.reverse_cons

theorem hasContent_iff : s.hasContent = true ↔
    ∃ last ∈ s.found.getLast?, last.token.isLayout = false := by
  rw [found, List.getLast?_reverse, hasContent]
  cases s.tokens with
  | nil => simp
  | cons last tokens => cases htoken : last.token <;> simp [htoken, Token.isLayout]

theorem hasContent_eq_false_iff : s.hasContent = false ↔
    ∀ last ∈ s.found.getLast?, last.token.isLayout = true := by
  rw [← Bool.not_eq_true, hasContent_iff]
  simp

/-- The layout up to where scanning stands. -/
structure Orderly (s : Scan) : Prop extends LaidOut s.found where
  line_pos : 1 ≤ s.line
  line_mem : ∀ t ∈ s.found, 1 ≤ t.line ∧ t.line ≤ s.line
  plain : ∀ t ∈ s.found, t.token.isLayout = true ∨ t.token.IsContent
  blocks : s.indents.length + occurrences .dedent s.found = occurrences .indent s.found

/-- Brackets are counted, and a line starts outside them with nothing on it. -/
structure Joined (s : Scan) : Prop where
  depth_eq : openBrackets s.found = s.depth
  unbroken : Unbroken s.found
  margin : s.lineStart = true → s.depth = 0 ∧ s.hasContent = false

theorem orderly_start (text : List Char) : (start text).Orderly where
  toLaidOut := .nil
  line_pos := Nat.le_refl 1
  line_mem := nofun
  plain := nofun
  blocks := rfl

theorem joined_start (text : List Char) : (start text).Joined where
  depth_eq := rfl
  unbroken := .nil
  margin _ := ⟨rfl, rfl⟩

namespace Orderly

theorem congr (h : s.Orderly) (htokens : s'.tokens = s.tokens) (hindents : s'.indents = s.indents)
    (hline : s.line ≤ s'.line) : s'.Orderly := by
  have hfound : s'.found = s.found := congrArg List.reverse htokens
  refine ⟨hfound ▸ h.toLaidOut, Nat.le_trans h.line_pos hline, ?_, hfound ▸ h.plain, ?_⟩
  · rw [hfound]
    exact fun t ht => ⟨(h.line_mem t ht).1, Nat.le_trans (h.line_mem t ht).2 hline⟩
  · rw [hfound, hindents]
    exact h.blocks

/-- Tokens that are added on the line at hand keep the layout if they are laid out. -/
theorem extend (h : s.Orderly) {more : List Placed} (hlaid : LaidOut (s.found ++ more))
    (hmore : ∀ t ∈ more, t.line = s.line ∧ (t.token.isLayout = true ∨ t.token.IsContent))
    (hfound : s'.found = s.found ++ more) (hline : s'.line = s.line)
    (hblocks : s'.indents.length + occurrences .dedent (s.found ++ more) =
      occurrences .indent (s.found ++ more)) : s'.Orderly where
  toLaidOut := hfound ▸ hlaid
  line_pos := hline ▸ h.line_pos
  line_mem := by
    rw [hfound, hline]
    exact List.forall_mem_append.mpr ⟨h.line_mem, fun t ht =>
      (hmore t ht).1 ▸ ⟨(hmore t ht).1 ▸ h.line_pos, Nat.le_refl _⟩⟩
  plain := by
    rw [hfound]
    exact List.forall_mem_append.mpr ⟨h.plain, fun t ht => (hmore t ht).2⟩
  blocks := hfound ▸ hblocks

theorem push (h : s.Orderly) {t : Token} (ht : t.isLayout = true ∨ t.IsContent)
    (hstands : StandsAfter s.found t) (hindent : t ≠ .indent) (hdedent : t ≠ .dedent) :
    (s.push t).Orderly := by
  have hlaid := h.concat (t := ⟨t, s.line⟩) hstands (fun u hu => (h.line_mem u hu).2)
    fun heq => absurd heq hdedent
  refine h.extend hlaid (List.forall_mem_singleton.mpr ⟨rfl, ht⟩) (s.found_push t) rfl ?_
  simpa [Scan.push, hindent, hdedent] using h.blocks

theorem endLine (h : s.Orderly) : s.endLine.Orderly := by
  unfold Scan.endLine
  split_ifs with hcontent
  · exact h.push (.inl rfl) ⟨fun _ => hasContent_iff.mp hcontent, by simp⟩ nofun nofun
  · exact h

theorem openBlock (h : s.Orderly) (hcontent : s.hasContent = false) (width : Nat) :
    { s.push .indent with indents := width :: s.indents }.Orderly := by
  have hlaid := h.concat (t := ⟨.indent, s.line⟩)
    ⟨nofun, fun _ => hasContent_eq_false_iff.mp hcontent⟩ (fun u hu => (h.line_mem u hu).2) nofun
  refine h.extend hlaid (List.forall_mem_singleton.mpr ⟨rfl, .inl rfl⟩) (s.found_push .indent)
    rfl ?_
  have hblocks := h.blocks
  simp only [List.length_cons, occurrences_append, occurrences_singleton, reduceCtorEq, if_true,
    if_false, Nat.add_zero]
  omega

theorem closeBlocks (h : s.Orderly) (hcontent : s.hasContent = false) {closed : Nat}
    {indents : List Nat} (hclosed : indents.length + closed = s.indents.length) :
    { s with
      indents
      tokens := List.replicate closed ⟨.dedent, s.line⟩ ++ s.tokens : Scan }.Orderly := by
  have hblocks := h.blocks
  have hlaid := h.close (hasContent_eq_false_iff.mp hcontent) (fun u hu => (h.line_mem u hu).2)
    closed (by omega)
  refine h.extend hlaid (fun t ht => ?_) (by simp [found]) rfl ?_
  · rw [List.eq_of_mem_replicate ht]
    exact ⟨rfl, .inl rfl⟩
  · simp only [occurrences_append, occurrences_replicate, if_true, reduceCtorEq, if_false,
      Nat.add_zero]
    omega

theorem move (h : s.Orderly) (hjoined : s.Joined) (hmove : s.Move s') : s'.Orderly := by
  cases hmove with
  | pass hahead => exact h.congr rfl rfl hahead.le
  | @content token line rest hline htoken hahead =>
      have hhere : { s with line }.Orderly := h.congr rfl rfl hahead.le
      have hpush := hhere.push (.inr htoken) (standsAfter_of_not_isLayout _ htoken.isLayout)
        (by rintro rfl; exact htoken) (by rintro rfl; exact htoken)
      exact hpush.congr rfl rfl (Nat.le_refl line)
  | endLine hline hdepth hrest =>
      exact h.endLine.congr rfl rfl (s.line_endLine ▸ Nat.le_succ s.line)
  | indent hline hrest =>
      exact (h.openBlock (hjoined.margin hline).2 _).congr rfl rfl (Nat.le_refl s.line)
  | dedent closed indents hline hrest hclosed =>
      exact (h.closeBlocks (hjoined.margin hline).2 hclosed).congr rfl rfl (Nat.le_refl s.line)

end Orderly

namespace Joined

theorem extend (h : s.Joined) {t : Placed} (ht : t.token.isLayout = true → s.depth = 0)
    (hfound : s'.found = s.found ++ [t]) (hdepth : s'.depth = t.token.depthAfter s.depth)
    (hmargin : s'.lineStart = true → s'.depth = 0 ∧ s'.hasContent = false) : s'.Joined where
  depth_eq := by rw [hfound, openBrackets_concat, h.depth_eq, hdepth]
  unbroken := hfound ▸ h.unbroken.concat fun hlayout => h.depth_eq.trans (ht hlayout)
  margin := hmargin

theorem move (h : s.Joined) (hmove : s.Move s') : s'.Joined := by
  cases hmove with
  | pass hahead => exact ⟨h.depth_eq, h.unbroken, h.margin⟩
  | @content token line rest hline htoken hahead =>
      refine h.extend (t := ⟨token, line⟩) (fun hlayout => ?_) (found_push _ _) rfl fun hstart => ?_
      · exact Bool.noConfusion (htoken.isLayout.symm.trans hlayout)
      · exact Bool.noConfusion (hline.symm.trans hstart)
  | endLine hline hdepth hrest =>
      by_cases hcontent : s.hasContent = true
      · simp only [endLine, if_pos hcontent]
        exact h.extend (t := ⟨.newline, s.line⟩) (fun _ => hdepth) (found_push _ _) rfl
          fun _ => ⟨hdepth, rfl⟩
      · simp only [endLine, if_neg hcontent]
        exact ⟨h.depth_eq, h.unbroken, fun _ => ⟨hdepth, Bool.eq_false_iff.mpr hcontent⟩⟩
  | indent hline hrest =>
      exact h.extend (t := ⟨.indent, s.line⟩) (fun _ => (h.margin hline).1) (found_push _ _) rfl
        fun hstart => absurd hstart Bool.false_ne_true
  | dedent closed indents hline hrest hclosed =>
      have hdepth := (h.margin hline).1
      have hclose := h.unbroken.close (h.depth_eq.trans hdepth) closed s.line
      have hfound : (List.replicate closed (⟨.dedent, s.line⟩ : Placed) ++ s.tokens).reverse =
          s.found ++ List.replicate closed ⟨.dedent, s.line⟩ := by
        rw [List.reverse_append, List.reverse_replicate]
        rfl
      exact ⟨(congrArg openBrackets hfound).trans (hclose.2.trans hdepth.symm),
        (congrArg Unbroken hfound).mpr hclose.1, fun hstart => absurd hstart Bool.false_ne_true⟩

end Joined

theorem Through.orderly_and_joined {text : List Char} (h : (start text).Through s) :
    s.Orderly ∧ s.Joined := by
  have hmoves := h.moves
  clear h
  induction hmoves with
  | refl => exact ⟨orderly_start text, joined_start text⟩
  | tail _ hmove ih => exact ⟨ih.1.move ih.2 hmove, ih.2.move hmove⟩

/-! ## The end of the text -/

theorem hasContent_endLine (s : Scan) : s.endLine.hasContent = false := by
  unfold endLine
  split_ifs with hcontent
  · rfl
  · exact Bool.eq_false_iff.mpr hcontent

theorem finish_eq_append (s : Scan) : s.finish =
    s.endLine.found ++ List.replicate s.indents.length ⟨.dedent, s.line⟩ ++ [⟨.eof, s.line⟩] := by
  rw [finish_eq, lineTokens, List.append_assoc]
  rfl

/-- Behind the tokens of the text stand the end of the last line and the ends of the blocks. -/
theorem finish_eq_found_append (s : Scan) : ∃ marks, s.finish = s.found ++ marks ∧
    (∀ t ∈ marks, t.token ≠ .indent) ∧ ∀ t ∈ marks.tail, t.token = .dedent ∨ t.token = .eof := by
  have hmarks : ∀ t ∈ lineTokens s.line s.line s.indents [],
      t.token = .dedent ∨ t.token = .eof := by
    intro t ht
    rcases List.mem_append.mp ht with ht | ht
    · exact .inl (List.eq_of_mem_replicate ht ▸ rfl)
    · exact .inr (List.mem_singleton.mp ht ▸ rfl)
  have hindent : ∀ t ∈ lineTokens s.line s.line s.indents [], t.token ≠ .indent := by
    intro t ht heq
    simpa [heq] using hmarks t ht
  by_cases hcontent : s.hasContent = true
  · exact ⟨_, finish_of_hasContent hcontent, List.forall_mem_cons.mpr ⟨nofun, hindent⟩, hmarks⟩
  · exact ⟨_, finish_of_hasContent_eq_false (Bool.eq_false_iff.mpr hcontent), hindent,
      fun t ht => hmarks t (List.mem_of_mem_tail ht)⟩

theorem Orderly.mem_finish (h : s.Orderly) {t : Placed} (ht : t ∈ s.finish) :
    (1 ≤ t.line ∧ t.line ≤ s.line) ∧
      (t.token.isLayout = true ∨ t.token.IsContent ∨ t.token = .eof) := by
  have hhere : 1 ≤ s.line ∧ s.line ≤ s.line := ⟨h.line_pos, Nat.le_refl s.line⟩
  rw [finish_eq_append, List.mem_append, List.mem_append] at ht
  rcases ht with (ht | ht) | ht
  · exact ⟨s.line_endLine ▸ h.endLine.line_mem t ht, (h.endLine.plain t ht).imp_right .inl⟩
  · rw [List.eq_of_mem_replicate ht]
    exact ⟨hhere, .inl rfl⟩
  · rw [List.mem_singleton.mp ht]
    exact ⟨hhere, .inr (.inr rfl)⟩

theorem Orderly.isTokenStream_finish (h : s.Orderly) (hjoined : s.Joined) :
    IsTokenStream s.finish := by
  have hend := h.endLine
  have hblocks := hend.blocks
  rw [indents_endLine] at hblocks
  have hline : ∀ t ∈ s.endLine.found ++ List.replicate s.indents.length ⟨.dedent, s.line⟩,
      t.line ≤ s.line := fun t ht =>
    (h.mem_finish (s.finish_eq_append ▸ List.mem_append_left _ ht)).1.2
  have heof : ∀ t ∈ s.endLine.found ++ List.replicate s.indents.length ⟨.dedent, s.line⟩,
      t.token ≠ .eof := by
    refine List.forall_mem_append.mpr ⟨fun t ht heq => ?_,
      fun t ht => List.eq_of_mem_replicate ht ▸ nofun⟩
    rcases heq ▸ hend.plain t ht with hlayout | hcontent
    · exact absurd hlayout (by decide)
    · exact hcontent
  have hclose := hend.close (hasContent_eq_false_iff.mp s.hasContent_endLine)
    (fun t ht => hline t (List.mem_append_left _ ht)) s.indents.length (Nat.le_of_eq hblocks)
  refine ⟨?_, ?_, ⟨_, s.line, s.finish_eq_append, heof⟩, ?_⟩
  · rw [finish_eq_append]
    exact hclose.concat (standsAfter_of_not_isLayout _ rfl) hline nofun
  · rw [finish_eq_append]
    simp only [occurrences_append, occurrences_replicate, occurrences_singleton, reduceCtorEq,
      if_true, if_false, Nat.add_zero]
    omega
  · intro before t after hfinish ht hopen
    obtain ⟨marks, hmarks, hindent, htail⟩ := s.finish_eq_found_append
    rw [hfinish] at hmarks
    have hmark : ∀ passed, marks = passed ++ t :: after →
        t.token ≠ .indent ∧ ∀ u ∈ after, u.token = .dedent ∨ u.token = .eof := by
      rintro passed rfl
      refine ⟨hindent t (by simp), fun u hu => htail u ?_⟩
      cases passed <;> simp [hu]
    rcases List.append_eq_append_iff.mp hmarks with ⟨passed, hfound, hrest⟩ | ⟨passed, -, hrest⟩
    · cases passed with
      | nil => exact hmark [] hrest.symm
      | cons u passed =>
          obtain ⟨rfl, -⟩ := List.cons.inj hrest
          have hbefore : before ++ [t] <+: s.found := ⟨passed, by simp [hfound]⟩
          rw [hjoined.unbroken before t hbefore ht] at hopen
          exact absurd hopen (Nat.lt_irrefl 0)
    · exact hmark passed hrest

end Scan

/-- The tokens of a text are laid out in lines and blocks up to the mark of its end. -/
theorem isTokenStream_of_tokenize {text : List Char} {tokens : List Placed}
    (h : tokenize text = .ok tokens) : IsTokenStream tokens := by
  obtain ⟨s, hs, rfl⟩ := exists_through_of_tokenize h
  exact hs.orderly_and_joined.1.isTokenStream_finish hs.orderly_and_joined.2

theorem isTokenStream_open_bracket :
    tokenize "if a:\n  b(\nc".toList = .ok [⟨.name "if", 1⟩, ⟨.name "a", 1⟩, ⟨.op ":", 1⟩,
      ⟨.newline, 1⟩, ⟨.indent, 2⟩, ⟨.name "b", 2⟩, ⟨.op "(", 2⟩, ⟨.name "c", 3⟩, ⟨.newline, 3⟩,
      ⟨.dedent, 3⟩, ⟨.eof, 3⟩] ∧
    IsTokenStream [⟨.name "if", 1⟩, ⟨.name "a", 1⟩, ⟨.op ":", 1⟩,
      ⟨.newline, 1⟩, ⟨.indent, 2⟩, ⟨.name "b", 2⟩, ⟨.op "(", 2⟩, ⟨.name "c", 3⟩, ⟨.newline, 3⟩,
      ⟨.dedent, 3⟩, ⟨.eof, 3⟩] := by
  have htokens : tokenize "if a:\n  b(\nc".toList = .ok [⟨.name "if", 1⟩, ⟨.name "a", 1⟩,
      ⟨.op ":", 1⟩, ⟨.newline, 1⟩, ⟨.indent, 2⟩, ⟨.name "b", 2⟩, ⟨.op "(", 2⟩, ⟨.name "c", 3⟩,
      ⟨.newline, 3⟩, ⟨.dedent, 3⟩, ⟨.eof, 3⟩] := rfl
  exact ⟨htokens, isTokenStream_of_tokenize htokens⟩

/-! ## Single tokens -/

theorem exists_eq_append_eof {text : List Char} {tokens : List Placed}
    (h : tokenize text = .ok tokens) : ∃ body line, tokens = body ++ [⟨.eof, line⟩] := by
  obtain ⟨s, -, rfl⟩ := exists_through_of_tokenize h
  exact ⟨_, s.line, s.finish_eq_append⟩

/-- Tokens stand on lines of their text, and each is a mark of the layout, content or the end. -/
theorem mem_of_tokenize {text : List Char} {tokens : List Placed} (h : tokenize text = .ok tokens)
    {t : Placed} (ht : t ∈ tokens) : (1 ≤ t.line ∧ t.line ≤ 1 + text.count '\n') ∧
      (t.token.isLayout = true ∨ t.token.IsContent ∨ t.token = .eof) := by
  obtain ⟨s, hs, rfl⟩ := exists_through_of_tokenize h
  have hmem := hs.orderly_and_joined.1.mem_finish ht
  exact ⟨⟨hmem.1.1, Nat.le_trans hmem.1.2 hs.ahead.count_le⟩, hmem.2⟩

end ModelGraph.Script
