import ModelGraph.Proofs.Script.Steps

/-!
# Parameters of functions in scripts

Statements define functions, in their blocks too. The parameters of all of them have proper names if
those of the blocks' functions have.
-/

namespace ModelGraph.Script

mutual

/-- The functions that a statement defines, those in its blocks included. -/
def Statement.functions : Statement → List Function
  | .defineFunction name parameters returns body =>
    ⟨name, parameters, returns, body⟩ :: functionsOf body
  | .defineClass _ _ body => functionsOf body
  | .branch _ thenBody elseBody => functionsOf thenBody ++ functionsOf elseBody
  | .for _ _ body => functionsOf body
  | .while _ body => functionsOf body
  | _ => []

/-- The functions that statements define. -/
def functionsOf : List Statement → List Function
  | [] => []
  | s :: rest => s.functions ++ functionsOf rest

end

theorem mem_functionsOf {f : Function} {body : List Statement} :
    f ∈ functionsOf body ↔ ∃ s ∈ body, f ∈ s.functions := by
  induction body with
  | nil => simp [functionsOf]
  | cons s rest ih => simp [functionsOf, ih]

/-- No parameter has a name that begins with a digit. -/
def ProperlyNamed (parameters : List Parameter) : Prop := ∀ p ∈ parameters, IsNoNumber p.name

/-- The parameters of all functions that the statement defines are properly named. -/
def Statement.HasNames (s : Statement) : Prop := ∀ f ∈ s.functions, ProperlyNamed f.parameters

/-- All statements of a block have proper names. -/
def HaveNames (body : List Statement) : Prop := ∀ s ∈ body, s.HasNames

theorem HaveNames.of_mem_functionsOf {body : List Statement} (h : HaveNames body) {f : Function}
    (hf : f ∈ functionsOf body) : ProperlyNamed f.parameters := by
  obtain ⟨s, hs, hf⟩ := mem_functionsOf.mp hf
  exact h s hs f hf

namespace Statement.HasNames

variable {s : Statement} {body elseBody : List Statement}

theorem of_functions_eq_nil (h : s.functions = []) : s.HasNames := by
  intro f hf
  rw [h] at hf
  cases hf

theorem of_block (hfunctions : s.functions = functionsOf body) (hbody : HaveNames body) :
    s.HasNames := by
  intro f hf
  rw [hfunctions] at hf
  exact hbody.of_mem_functionsOf hf

theorem defineFunction {name : String} {parameters : List Parameter} {returns : Option Expr}
    (hparameters : ProperlyNamed parameters) (hbody : HaveNames body) :
    (Statement.defineFunction name parameters returns body).HasNames := by
  intro f hf
  rcases List.mem_cons.mp hf with rfl | hf
  · exact hparameters
  · exact hbody.of_mem_functionsOf hf

theorem branch {condition : Expr} (hbody : HaveNames body) (helse : HaveNames elseBody) :
    (Statement.branch condition body elseBody).HasNames := by
  intro f hf
  rcases List.mem_append.mp hf with hf | hf
  · exact hbody.of_mem_functionsOf hf
  · exact helse.of_mem_functionsOf hf

end Statement.HasNames

end ModelGraph.Script
