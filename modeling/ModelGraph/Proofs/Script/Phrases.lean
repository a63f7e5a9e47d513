import ModelGraph.Proofs.Script.Layout
import ModelGraph.Proofs.Script.RoundTrip

/-!
# Lines of tokens

The tokens of a statement can be written and close every bracket that they open, so each statement
or header stands on a line of its own.
-/

namespace ModelGraph.Script

/-! ## Brackets -/

namespace Balanced

variable {xs ys : List Token}

theorem nil : Balanced [] := fun _ => rfl

theorem append (hx : Balanced xs) (hy : Balanced ys) : Balanced (xs ++ ys) := by
  intro depth
  rw [List.foldl_append, hx, hy]

theorem cons {t : Token} (ht : ∀ depth, t.depthAfter depth = depth) (h : Balanced xs) :
    Balanced (t :: xs) := by
  intro depth
  rw [List.foldl_cons, ht, h]

theorem name (n : String) (h : Balanced xs) : Balanced (.name n :: xs) := cons (fun _ => rfl) h

theorem op {o : String} (ho : o ∉ ["(", "[", "\x7b", ")", "]", "\x7d"]) (h : Balanced xs) :
    Balanced (.op o :: xs) := by
  refine cons (fun depth => ?_) h
  simp only [List.mem_cons, List.not_mem_nil, or_false, not_or] at ho
  simp [Token.depthAfter, depthAfter, ho]

theorem enclosed {l r : String} (hmarks : (l, r) ∈ [("(", ")"), ("[", "]"), ("\x7b", "\x7d")])
    (h : Balanced xs) : Balanced (.op l :: xs ++ [.op r]) := by
  intro depth
  simp only [List.mem_cons, Prod.mk.injEq, List.not_mem_nil, or_false] at hmarks
  rw [List.cons_append, List.foldl_cons, List.foldl_append, h]
  rcases hmarks with ⟨rfl, rfl⟩ | ⟨rfl, rfl⟩ | ⟨rfl, rfl⟩ <;> simp [Token.depthAfter, depthAfter]

theorem commas {runs : List (List Token)} (h : ∀ run ∈ runs, Balanced run) :
    Balanced (commas runs) := by
  induction runs with
  | nil => exact nil
  | cons run runs ih =>
      have hrest := ih fun run hrun => h run (List.mem_cons_of_mem _ hrun)
      have hrun := h run (by simp)
      cases runs with
      | nil => simpa using hrun
      | cons next runs =>
          rw [commas_cons_cons]
          exact hrun.append (hrest.op (by decide))

end Balanced

theorem BinaryOperator.depthAfter_token (op : BinaryOperator) (depth : Nat) :
    op.token.depthAfter depth = depth := by
  cases op <;> simp [token, Token.depthAfter, depthAfter]

theorem UnaryOperator.depthAfter_token (op : UnaryOperator) (depth : Nat) :
    op.token.depthAfter depth = depth := by
  cases op <;> simp [token, Token.depthAfter, depthAfter]

theorem ComparisonOperator.balanced_tokens (op : ComparisonOperator) : Balanced op.tokens := by
  intro depth
  cases op <;> simp [tokens, Token.depthAfter, depthAfter]

namespace Surface

variable {e : Surface}

theorem balanced_enclose (h : Balanced e.tokens) (place : Nat) :
    Balanced (enclose place e e.tokens) := by
  unfold enclose
  split_ifs
  · exact .enclosed (by decide) h
  · exact h

theorem balanced_argument {a : Option Identifier × Surface} (h : Balanced a.2.tokens) :
    Balanced (argument a) := by
  obtain ⟨keyword, value⟩ := a
  cases keyword with
  | none => exact h
  | some keyword => exact .name _ (.op (by decide) h)

theorem balanced_bound {bound : Option Surface} (h : ∀ e ∈ bound, Balanced e.tokens) :
    Balanced (boundTokens bound) ∧ Balanced (stepTokens bound) := by
  cases bound with
  | none => exact ⟨.nil, .nil⟩
  | some e => exact ⟨h e rfl, .op (by decide) (h e rfl)⟩

theorem balanced_chain {others : List (ComparisonOperator × Surface)}
    (h : ∀ link ∈ others, Balanced link.2.tokens) : Balanced (chainTokens others) := by
  induction others with
  | nil => exact .nil
  | cons link others ih =>
      obtain ⟨op, e⟩ := link
      have hrest := ih fun link hlink => h link (List.mem_cons_of_mem _ hlink)
      have he : Balanced e.tokens := h (op, e) (by simp)
      exact (op.balanced_tokens.append (balanced_enclose he 4)).append hrest

/-- An expression closes every bracket that it opens. -/
theorem balanced_tokens (e : Surface) : Balanced e.tokens := by
  induction e with
  | name n => exact .name _ .nil
  | text s => exact .cons (fun _ => rfl) .nil
  | integer n => exact .cons (fun _ => rfl) .nil
  | list items ih =>
      rw [tokens, tokensAll_eq_map]
      exact .enclosed (by decide) (.commas (List.forall_mem_map.mpr ih))
  | tuple items ih =>
      have hitems := Balanced.commas (List.forall_mem_map.mpr ih)
      rw [tokens, tokensAll_eq_map]
      split_ifs
      · have henclosed := Balanced.enclosed (l := "(") (r := ")") (by decide)
          (hitems.append (.op (o := ",") (by decide) .nil))
        simpa using henclosed
      · exact .enclosed (by decide) hitems
  | dict entries ih =>
      rw [tokens, entryTokens_eq_map]
      exact .enclosed (by decide) (.commas (List.forall_mem_map.mpr fun entry hentry =>
        (ih entry hentry).1.append (.op (by decide) (ih entry hentry).2)))
  | attr target member ih =>
      exact (balanced_enclose ih 10).append (.op (by decide) (.name _ .nil))
  | call target arguments ih iharguments =>
      rw [tokens, argumentTokens_eq_map, List.append_assoc]
      exact (balanced_enclose ih 10).append (.enclosed (by decide)
        (.commas (List.forall_mem_map.mpr fun a ha => balanced_argument (iharguments a ha))))
  | index target first others ih ihfirst ihothers =>
      rw [tokens, tokensAll_eq_map, List.append_assoc]
      exact (balanced_enclose ih 10).append (.enclosed (by decide)
        (.commas (List.forall_mem_cons.mpr ⟨ihfirst, List.forall_mem_map.mpr ihothers⟩)))
  | slice target start stop step ih ihstart ihstop ihstep =>
      have hbounds : Balanced (boundTokens start ++ .op ":" :: boundTokens stop ++ stepTokens step) :=
        ((balanced_bound ihstart).1.append (.op (by decide) (balanced_bound ihstop).1)).append
          (balanced_bound ihstep).2
      have henclosed := (balanced_enclose ih 10).append
        (.enclosed (l := "[") (r := "]") (by decide) hbounds)
      simpa [tokens] using henclosed
  | binary op left right ihleft ihright =>
      exact (balanced_enclose ihleft _).append (.cons op.depthAfter_token (balanced_enclose ihright _))
  | not operand ih => exact .name _ (balanced_enclose ih 2)
  | compare first op second others ihfirst ihsecond ihothers =>
      exact (((balanced_enclose ihfirst 4).append op.balanced_tokens).append
        (balanced_enclose ihsecond 4)).append (balanced_chain ihothers)
  | unary op operand ih => exact .cons op.depthAfter_token (balanced_enclose ih 8)
  | power base exponent ihbase ihexponent =>
      exact (balanced_enclose ihbase 10).append (.op (by decide) (balanced_enclose ihexponent 8))

end Surface

/-! ## Lines -/

namespace IsPhrase

variable {xs ys : List Token}

theorem nil : IsPhrase [] := ⟨allWritten_nil, .nil⟩

theorem append (hx : IsPhrase xs) (hy : IsPhrase ys) : IsPhrase (xs ++ ys) :=
  ⟨allWritten_append.mpr ⟨hx.written, hy.written⟩, hx.balanced.append hy.balanced⟩

theorem name {n : String} (hn : isWord n) (h : IsPhrase xs) : IsPhrase (.name n :: xs) :=
  ⟨allWritten_cons.mpr ⟨hn, h.written⟩, h.balanced.name n⟩

theorem op {o : String} (ho : o ∈ operators ∧ o ∉ ["(", "[", "\x7b", ")", "]", "\x7d"])
    (h : IsPhrase xs) : IsPhrase (.op o :: xs) :=
  ⟨allWritten_cons.mpr ⟨ho.1, h.written⟩, h.balanced.op ho.2⟩

theorem parenthesized (h : IsPhrase xs) : IsPhrase (.op "(" :: xs ++ [.op ")"]) :=
  ⟨allWritten_append.mpr ⟨allWritten_cons.mpr ⟨by simp [operators], h.written⟩, by simp [operators]⟩,
    .enclosed (by decide) h.balanced⟩

theorem commas {runs : List (List Token)} (h : ∀ run ∈ runs, IsPhrase run) :
    IsPhrase (commas runs) :=
  ⟨allWritten_commas fun run hrun => (h run hrun).written,
    .commas fun run hrun => (h run hrun).balanced⟩

end IsPhrase

theorem Surface.isPhrase_tokens (e : Surface) : IsPhrase e.tokens :=
  ⟨e.allWritten_tokens, e.balanced_tokens⟩

theorem Surface.isPhrase_tokensAt (place : Nat) (e : Surface) : IsPhrase (e.tokensAt place) :=
  ⟨allWritten_enclose e.allWritten_tokens place, balanced_enclose e.balanced_tokens place⟩

theorem isPhrase_markedTokens {m : String}
    (hm : m ∈ operators ∧ m ∉ ["(", "[", "\x7b", ")", "]", "\x7d"]) (e : Option Surface) :
    IsPhrase (markedTokens m e) := by
  cases e with
  | none => exact .nil
  | some e => exact .op hm e.isPhrase_tokens

namespace Listing

theorem begins_tokens (l : Listing) : Begins 0 l.tokens := by
  cases l with
  | one e => exact e.begins_tokens.mono (Nat.zero_le _)
  | bare first others => exact (first.begins_tokens.mono (Nat.zero_le _)).append (by simp)

/-- Names, attributes, calls, subscripts and tuples bind most strongly, so a statement may begin with
any of them. -/
theorem head?_tokens_ne {l : Listing} (h : 2 < l.first.strength) :
    l.tokens.head? ≠ some (.name "not") := by
  have hnot : ¬ opens l.first.strength (.name "not") := by
    simp only [opens, isKeyword, keywords]
    rintro (h' | ⟨-, h'⟩)
    · simp at h'
    · omega
  cases l with
  | one e => exact e.begins_tokens.head?_ne hnot
  | bare first others =>
      rw [tokens, List.head?_append_of_ne_nil _ first.begins_tokens.ne_nil]
      exact first.begins_tokens.head?_ne hnot

theorem isPhrase_tokens (l : Listing) : IsPhrase l.tokens := by
  cases l with
  | one e => exact e.isPhrase_tokens
  | bare first others =>
      exact first.isPhrase_tokens.append (.op (by decide)
        (.commas (List.forall_mem_map.mpr fun e _ => e.isPhrase_tokens)))

end Listing

theorem DottedName.isPhrase_tokens (n : DottedName) : IsPhrase n.tokens := by
  refine .name n.first.isWord_name ?_
  induction n.members with
  | nil => exact .nil
  | cons member members ih => exact .op (by decide) (.name member.isWord_name ih)

theorem Imported.isPhrase_tokens {α : Type} {run : α → List Token} (hrun : ∀ a, IsPhrase (run a))
    (i : Imported α) : IsPhrase (i.tokens run) := by
  refine (hrun i.source).append ?_
  cases i.localName with
  | none => exact .nil
  | some n => exact .name (by decide) (.name n.isWord_name .nil)

theorem isPhrase_imported {α : Type} {run : α → List Token} (hrun : ∀ a, IsPhrase (run a))
    (is : List (Imported α)) : IsPhrase (commas (is.map (Imported.tokens run))) :=
  .commas (List.forall_mem_map.mpr fun i _ => i.isPhrase_tokens hrun)

theorem SimpleStatement.isLine_tokens (s : SimpleStatement) : IsLine s.tokens := by
  cases s with
  | pass => exact ⟨.name (by decide) .nil, by simp [tokens]⟩
  | «return» value =>
      cases value with
      | none => exact ⟨.name (by decide) .nil, by simp [tokens]⟩
      | some value => exact ⟨.name (by decide) value.isPhrase_tokens, by simp [tokens]⟩
  | declare name declaredType =>
      exact ⟨.name name.isWord_name (.op (by decide) declaredType.isPhrase_tokens), by simp [tokens]⟩
  | assign target declaredType value =>
      have htarget := target.listing.isPhrase_tokens.append
        (isPhrase_markedTokens (m := ":") (by decide) declaredType)
      exact ⟨htarget.append (.op (by decide) value.isPhrase_tokens), by simp [tokens]⟩
  | expr value =>
      exact ⟨value.listing.isPhrase_tokens, value.listing.begins_tokens.ne_nil⟩
  | imports first others =>
      exact ⟨.name (by decide) (isPhrase_imported DottedName.isPhrase_tokens _), by simp [tokens]⟩
  | importsFrom module first others =>
      have hnames : ∀ n : Identifier, IsPhrase [.name n.name] := fun n => .name n.isWord_name .nil
      exact ⟨.append (.name (by decide) module.isPhrase_tokens)
        (.name (by decide) (isPhrase_imported hnames _)), by simp [tokens]⟩

theorem SurfaceParameter.isPhrase_tokens (p : SurfaceParameter) : IsPhrase p.tokens :=
  .append (.name p.name.isWord_name (isPhrase_markedTokens (by decide) p.declaredType))
    (isPhrase_markedTokens (by decide) p.default)

theorem isPhrase_colon : IsPhrase [.op ":"] := .op (by decide) .nil

theorem Header.isLine_tokens (h : Header) : IsLine h.tokens := by
  cases h with
  | defineFunction name parameters returns =>
      have hparameters : IsPhrase (commas (parameters.map SurfaceParameter.tokens)) :=
        .commas (List.forall_mem_map.mpr fun p _ => p.isPhrase_tokens)
      have hreturns := (isPhrase_markedTokens (m := "->") (by decide) returns).append isPhrase_colon
      have hname := IsPhrase.name name.isWord_name (hparameters.parenthesized.append hreturns)
      exact ⟨by simpa [tokens] using hname.name (n := "def") (by decide), by simp [tokens]⟩
  | defineClass name bases =>
      cases bases with
      | none => exact ⟨.name (by decide) (.name name.isWord_name isPhrase_colon), by simp [tokens]⟩
      | some bases =>
          have hbases : IsPhrase (commas (bases.map Surface.tokens)) :=
            .commas (List.forall_mem_map.mpr fun e _ => e.isPhrase_tokens)
          have hname := IsPhrase.name name.isWord_name (hbases.parenthesized.append isPhrase_colon)
          exact ⟨by simpa [tokens] using hname.name (n := "class") (by decide), by simp [tokens]⟩
  | «for» target targets iterable iterables =>
      have htargets : IsPhrase (commas ((target :: targets).map (Surface.tokensAt 4))) :=
        .commas (List.forall_mem_map.mpr fun e _ => e.isPhrase_tokensAt 4)
      have hiterables : IsPhrase (commas ((iterable :: iterables).map Surface.tokens)) :=
        .commas (List.forall_mem_map.mpr fun e _ => e.isPhrase_tokens)
      exact ⟨((IsPhrase.name (by decide) htargets).append
        (.name (by decide) hiterables)).append isPhrase_colon, by simp [tokens]⟩
  | «while» condition =>
      exact ⟨(IsPhrase.name (by decide) condition.isPhrase_tokens).append isPhrase_colon,
        by simp [tokens]⟩

/-- The tokens of a line that asks for a condition. -/
theorem isLine_condition {n : String} (hn : isWord n) (condition : Surface) :
    IsLine (.name n :: condition.tokens ++ [.op ":"]) :=
  ⟨(IsPhrase.name hn condition.isPhrase_tokens).append isPhrase_colon, by simp⟩

end ModelGraph.Script
