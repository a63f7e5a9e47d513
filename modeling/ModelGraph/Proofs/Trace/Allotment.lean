import Mathlib.Data.List.Forall2
import ModelGraph.Proofs.Trace.Attempts
import ModelGraph.Proofs.Trace.Binding

/-!
# Which parameter takes which argument

The parameters of a schema have their turns in order. Each takes the argument at the front or, if it is
optional, leaves it to the next; arguments that all have keywords are allotted by name in the end. A
call is recorded with what was allotted: the parameters of tensors give the inputs, in the order of
their turns, and the others the attributes.
-/

namespace ModelGraph

open Exec
open Operator (Parameter)

/-- The argument that looks for a parameter by its keyword finds this one. -/
def Operator.Parameter.answers (p : Parameter) (a : PendingArgument) : Bool := some p.name == a.1

/-- How the arguments of a call are allotted to the parameters of a schema. -/
structure Allotment where
  /-- The parameters that had their turn, with the argument that each took. -/
  tried : List (Parameter × Option PendingArgument) := []
  untried : List Parameter
  /-- The last arguments, for the untried parameters of their names. -/
  byName : List PendingArgument := []

namespace Allotment

/-- The same after a turn of another parameter. -/
def turn (a : Allotment) (p : Parameter) (next? : Option PendingArgument) : Allotment :=
  { a with tried := (p, next?) :: a.tried }

def parameters (a : Allotment) : List Parameter := a.tried.map (·.1) ++ a.untried

/-- The arguments that were taken in turn, with the parameters that took them. -/
def taken (a : Allotment) : List (Parameter × PendingArgument) :=
  a.tried.filterMap fun e => e.2.map (e.1, ·)

/-- Those that were taken as inputs. -/
def consumed (a : Allotment) : List (Parameter × PendingArgument) :=
  a.taken.filter (·.1.kind.isTensor)

/-- Those that were found by name and fit. -/
def found (h : Heap) (a : Allotment) : List (String × Value) :=
  a.byName.filterMap fun next =>
    ((a.untried.find? (·.answers next)).filter (h.fits next.2 ·.kind)).map (·.name, next.2)

def attributes (h : Heap) (a : Allotment) : List (String × Value) :=
  ((a.taken.filter (!·.1.kind.isTensor)).map fun e => (e.1.name, e.2.2)) ++ a.found h

variable {a : Allotment} {p : Parameter} {next : PendingArgument}

@[simp] theorem parameters_turn (next? : Option PendingArgument) :
    (a.turn p next?).parameters = p :: a.parameters := rfl

@[simp] theorem taken_turn_some : (a.turn p (some next)).taken = (p, next) :: a.taken := rfl

@[simp] theorem found_turn (h : Heap) (next? : Option PendingArgument) :
    (a.turn p next?).found h = a.found h := rfl

theorem mem_parameters_of_taken (h : (p, next) ∈ a.taken) : p ∈ a.parameters := by
  obtain ⟨e, he, hsome⟩ := List.mem_filterMap.mp h
  obtain ⟨_, -, heq⟩ := Option.map_eq_some_iff.mp hsome
  cases heq
  exact List.mem_append_left _ (List.mem_map_of_mem he)

end Allotment

/-- An allotment that the matching makes. -/
inductive Allots (h : Heap) : List Parameter → List PendingArgument → Allotment → Prop
  /-- No argument is left. -/
  | finished {parameters arguments} (hunpack : unpackFront h arguments = .ok []) :
      Allots h parameters arguments { untried := parameters }
  | byName {parameters arguments left} (hunpack : unpackFront h arguments = .ok left)
      (hkeywords : ∀ a ∈ left, a.1.isSome) (hkinds : ∀ p ∈ parameters, p.kind.isTensor = false)
      (hfound : ∀ a ∈ left, ∃ p, parameters.find? (·.answers a) = some p ∧
        (h.fits a.2 p.kind ∨ p.optional)) :
      Allots h parameters arguments { untried := parameters, byName := left }
  | took {p parameters arguments next rest a} (hunpack : unpackFront h arguments = .ok (next :: rest))
      (hfit : p.fit h next ≠ .misfit) (hrest : Allots h parameters rest a) :
      Allots h (p :: parameters) arguments (a.turn p (some next))
  | left {p parameters arguments next rest a} (hunpack : unpackFront h arguments = .ok (next :: rest))
      (hfit : p.fit h next = .misfit) (hoptional : p.optional)
      (hrest : Allots h parameters (next :: rest) a) :
      Allots h (p :: parameters) arguments (a.turn p none)

namespace Allots

variable {h h' : Heap} {parameters : List Parameter} {arguments : List PendingArgument}
  {a : Allotment}

theorem congr (halike : h.Alike h') (hallots : Allots h' parameters arguments a) :
    Allots h parameters arguments a := by
  induction hallots with
  | finished hunpack =>
      rw [halike.unpackFront_eq] at hunpack
      exact .finished hunpack
  | byName hunpack hkeywords hkinds hfound =>
      rw [halike.unpackFront_eq] at hunpack
      simp only [halike.fits_eq] at hfound
      exact .byName hunpack hkeywords hkinds hfound
  | took hunpack hfit _ ih =>
      rw [halike.unpackFront_eq] at hunpack
      rw [halike.fit_eq] at hfit
      exact .took hunpack hfit ih
  | left hunpack hfit hoptional _ ih =>
      rw [halike.unpackFront_eq] at hunpack
      rw [halike.fit_eq] at hfit
      exact .left hunpack hfit hoptional ih

theorem parameters_eq (hallots : Allots h parameters arguments a) : a.parameters = parameters := by
  induction hallots with
  | finished | byName => rfl
  | took _ _ _ ih => rw [Allotment.parameters_turn, ih]
  | left _ _ _ _ ih => rw [Allotment.parameters_turn, ih]

/-- A parameter that takes nothing in its turn is optional. -/
theorem optional_of_left (hallots : Allots h parameters arguments a) {p : Parameter}
    (hp : (p, none) ∈ a.tried) : p.optional := by
  induction hallots with
  | finished | byName => cases hp
  | took _ _ _ ih =>
      rcases List.mem_cons.mp hp with heq | hp
      · cases heq
      · exact ih hp
  | left _ _ hoptional _ ih =>
      rcases List.mem_cons.mp hp with heq | hp
      · cases heq
        exact hoptional
      · exact ih hp

theorem fit_of_taken (hallots : Allots h parameters arguments a) {p : Parameter}
    {next : PendingArgument} (htaken : (p, next) ∈ a.taken) : p.fit h next ≠ .misfit := by
  induction hallots with
  | finished | byName => cases htaken
  | took _ hfit _ ih =>
      rw [Allotment.taken_turn_some] at htaken
      rcases List.mem_cons.mp htaken with heq | htaken
      · cases heq
        exact hfit
      · exact ih htaken
  | left _ _ _ _ ih => exact ih htaken

/-- No argument is lost: one that is not unpacked is taken in turn or looks for its name. -/
theorem mem_taken_or_byName (hallots : Allots h parameters arguments a) {argument : PendingArgument}
    (hmem : argument ∈ arguments) (hspreads : h.spreads argument.2 = false) :
    (∃ p, (p, argument) ∈ a.taken) ∨ argument ∈ a.byName := by
  induction hallots with
  | finished hunpack => cases Heap.mem_of_unpackFront hunpack hmem hspreads
  | byName hunpack => exact .inr (Heap.mem_of_unpackFront hunpack hmem hspreads)
  | took hunpack _ _ ih =>
      rcases List.mem_cons.mp (Heap.mem_of_unpackFront hunpack hmem hspreads) with rfl | hmem
      · exact .inl ⟨_, List.mem_cons_self⟩
      · apply (ih hmem).imp_left
        rintro ⟨p, hp⟩
        exact ⟨p, List.mem_cons_of_mem _ hp⟩
  | left hunpack _ _ _ ih => exact ih (Heap.mem_of_unpackFront hunpack hmem hspreads)

/-- An argument that looks for its name finds a parameter, which it fits or which is optional. -/
theorem answered (hallots : Allots h parameters arguments a) {argument : PendingArgument}
    (hmem : argument ∈ a.byName) : ∃ p, a.untried.find? (·.answers argument) = some p ∧
      p.kind.isTensor = false ∧ (h.fits argument.2 p.kind ∨ p.optional) := by
  induction hallots with
  | finished => cases hmem
  | byName _ _ hkinds hfound =>
      obtain ⟨p, hp, hfits⟩ := hfound argument hmem
      exact ⟨p, hp, hkinds p (List.mem_of_find?_eq_some hp), hfits⟩
  | took _ _ _ ih | left _ _ _ _ ih => exact ih hmem

end Allots

/-- An attribute is of its parameter's type or absent, and its keyword, if it has one, is the parameter's
name. -/
theorem attribute_of_fit {h : Heap} {p : Parameter} {next : PendingArgument}
    (hfit : p.fit h next = .attribute) :
    (h.fits next.2 p.kind ∨ next.2.isNone) ∧ ∀ keyword ∈ next.1, keyword = p.name := by
  unfold Parameter.fit at hfit
  split at hfit
  · split_ifs at hfit
  · split at hfit
    · split_ifs at hfit
    · cases hfit
  · split_ifs at hfit with htakes
    rw [Bool.and_eq_true, Bool.or_eq_true] at htakes
    obtain ⟨hfits, hname⟩ := htakes
    refine ⟨hfits, fun keyword hkeyword => ?_⟩
    rw [Option.mem_def.mp hkeyword] at hname
    simpa using hname

theorem Allots.attribute_of_taken {h : Heap} {parameters : List Parameter}
    {arguments : List PendingArgument} {a : Allotment} (hallots : Allots h parameters arguments a)
    {p : Parameter} {next : PendingArgument} (htaken : (p, next) ∈ a.taken)
    (hkind : p.kind.isTensor = false) : p.fit h next = .attribute := by
  rcases hfit : p.fit h next with values | _ | _
  · rw [isTensor_of_fit hfit] at hkind
    cases hkind
  · rfl
  · exact (hallots.fit_of_taken htaken hfit).elim

/-! ## What is recorded -/

/-- The input slot records the tensors that the parameter takes of the argument. -/
def Operator.Parameter.Fills (start final : Heap) (e : Parameter × PendingArgument)
    (slot : List TracedValue) : Prop :=
  ∃ values, e.1.fit start e.2 = .tensors values ∧
    List.Forall₂ (fun v named => named.Stands start final v) values slot

theorem Operator.Parameter.Fills.mono {start start' final final' : Heap}
    {e : Parameter × PendingArgument} {slot : List TracedValue} (halike : start.Alike start')
    (hstart : start.size ≤ start'.size)
    (hfinal : ∀ {id name}, final.nameOf? id = some name → final'.nameOf? id = some name)
    (h : Parameter.Fills start' final e slot) : Parameter.Fills start final' e slot := by
  obtain ⟨values, hfit, hslot⟩ := h
  rw [halike.fit_eq] at hfit
  exact ⟨values, hfit, hslot.imp fun _ _ hstands => hstands.mono hstart hfinal⟩

/-- What is bound, beside what was bound before, is what is allotted. -/
structure Allotment.Binds (a : Allotment) (start final : Heap) (before after : Binding) : Prop where
  inputs : ∃ slots, after.inputs = before.inputs ++ slots ∧
    List.Forall₂ (Parameter.Fills start final) a.consumed slots
  attributes : after.attributes = before.attributes ++ a.attributes start

/-- The recorded call has as inputs and attributes what is allotted. -/
structure Allotment.Recorded (a : Allotment) (start final : Heap) (call : TracedCall) : Prop where
  inputs : List.Forall₂ (Parameter.Fills start final) a.consumed call.inputs
  attributes : call.attributes = a.attributes start

namespace Allotment

variable {start start' final : Heap} {a : Allotment} {p : Parameter} {next : PendingArgument}
  {before after : Binding}

theorem attributes_eq (halike : start.Alike start') (a : Allotment) :
    a.attributes start' = a.attributes start := by
  simp only [attributes, found, halike.fits_eq]

namespace Binds

theorem untried (start final : Heap) (parameters : List Parameter) (b : Binding) :
    ({ untried := parameters } : Allotment).Binds start final b b where
  inputs := ⟨[], (List.append_nil _).symm, .nil⟩
  attributes := (List.append_nil _).symm

theorem tensors (hbinds : a.Binds start final (before.addInput slot) after)
    (hslot : Parameter.Fills start final (p, next) slot) (hkind : p.kind.isTensor = true) :
    (a.turn p (some next)).Binds start final before after where
  inputs := by
    obtain ⟨slots, hinputs, hslots⟩ := hbinds.inputs
    refine ⟨slot :: slots, ?_, ?_⟩
    · simpa [Binding.addInput] using hinputs
    · rw [consumed, taken_turn_some, List.filter_cons_of_pos (by simpa using hkind)]
      exact .cons hslot hslots
  attributes := by
    have hattributes : (a.turn p (some next)).attributes start = a.attributes start := by
      simp [Allotment.attributes, hkind]
    rw [hattributes]
    exact hbinds.attributes

theorem other (hbinds : a.Binds start final (before.addAttribute p.name next.2) after)
    (hkind : p.kind.isTensor = false) : (a.turn p (some next)).Binds start final before after where
  inputs := by
    have hconsumed : (a.turn p (some next)).consumed = a.consumed := by
      simp [consumed, hkind]
    rw [hconsumed]
    exact hbinds.inputs
  attributes := by
    have hattributes : (a.turn p (some next)).attributes start =
        (p.name, next.2) :: a.attributes start := by
      simp [Allotment.attributes, hkind]
    rw [hattributes, hbinds.attributes]
    simp [Binding.addAttribute]

/-- The naming of inputs in between changes nothing. -/
theorem of_alike (hbinds : a.Binds start' final before after) (halike : start.Alike start')
    (hsize : start.size ≤ start'.size) : a.Binds start final before after where
  inputs := by
    obtain ⟨slots, hinputs, hslots⟩ := hbinds.inputs
    refine ⟨slots, hinputs, hslots.imp ?_⟩
    intro e slot hfills
    exact hfills.mono halike hsize id
  attributes := by
    rw [← a.attributes_eq halike]
    exact hbinds.attributes

end Binds

namespace Recorded

variable {traced : TracedCall}

/-- Each consumed argument has its slot. -/
theorem exists_slot (hrecorded : a.Recorded start final traced) (h : (p, next) ∈ a.consumed) :
    ∃ slot, ((p, next), slot) ∈ a.consumed.zip traced.inputs ∧
      Parameter.Fills start final (p, next) slot := by
  obtain ⟨hlength, hfills⟩ := List.forall₂_iff_zip.mp hrecorded.inputs
  rw [← List.map_fst_zip (Nat.le_of_eq hlength)] at h
  obtain ⟨⟨e, slot⟩, hmem, heq⟩ := List.mem_map.mp h
  cases heq
  exact ⟨slot, hmem, hfills hmem⟩

theorem mem_attributes_of_taken (hrecorded : a.Recorded start final traced) (h : (p, next) ∈ a.taken)
    (hkind : p.kind.isTensor = false) : (p.name, next.2) ∈ traced.attributes := by
  rw [hrecorded.attributes]
  apply List.mem_append_left
  refine List.mem_map.mpr ⟨(p, next), List.mem_filter.mpr ⟨h, ?_⟩, rfl⟩
  simpa using hkind

theorem mem_attributes_of_found (hrecorded : a.Recorded start final traced) (h : next ∈ a.byName)
    (hfind : a.untried.find? (·.answers next) = some p) (hfits : start.fits next.2 p.kind) :
    (p.name, next.2) ∈ traced.attributes := by
  rw [hrecorded.attributes]
  apply List.mem_append_right
  refine List.mem_filterMap.mpr ⟨next, h, ?_⟩
  simp [hfind, hfits]

end Recorded

end Allotment

theorem addNamed_eq_some {h : Heap} {parameters : List Parameter} {arguments : List PendingArgument}
    {start b : Binding} (hadd : start.addNamed h parameters arguments = some b) :
    b.inputs = start.inputs ∧
      b.attributes = start.attributes ++
        ({ untried := parameters, byName := arguments } : Allotment).found h ∧
      ∀ next ∈ arguments, ∃ p, parameters.find? (·.answers next) = some p ∧
        (h.fits next.2 p.kind ∨ p.optional) := by
  induction arguments generalizing start with
  | nil =>
      cases hadd
      simp [Allotment.found]
  | cons next rest ih =>
      obtain ⟨keyword, value⟩ := next
      have hanswers : parameters.find? (some ·.name == keyword) =
          parameters.find? (·.answers (keyword, value)) := rfl
      rw [Binding.addNamed, hanswers] at hadd
      rcases hp : parameters.find? (·.answers (keyword, value)) with _ | p <;> rw [hp] at hadd
      · cases hadd
      · dsimp only at hadd
        split_ifs at hadd with hfits hoptional
        · obtain ⟨hinputs, hattributes, hrest⟩ := ih hadd
          refine ⟨hinputs, ?_, List.forall_mem_cons.mpr ⟨⟨p, hp, .inl hfits⟩, hrest⟩⟩
          simp [hattributes, Binding.addAttribute, Allotment.found, hp, hfits]
        · obtain ⟨hinputs, hattributes, hrest⟩ := ih hadd
          refine ⟨hinputs, ?_, List.forall_mem_cons.mpr ⟨⟨p, hp, .inr hoptional⟩, hrest⟩⟩
          simp [hattributes, Allotment.found, hp, hfits]

variable {m m' : Machine}

/-- Arguments that fit are allotted, and bound so. -/
theorem exists_allots {parameters : List Parameter} {arguments : List PendingArgument}
    {start b : Binding} (htraced : m.tracer?.isSome)
    (h : (bindArguments parameters arguments start).outcome m = (.ok (some b), m')) :
    ∃ a, Allots m.heap parameters arguments a ∧ a.Binds m.heap m'.heap start b := by
  induction parameters generalizing m arguments start with
  | nil =>
      cases arguments <;> cases h
      exact ⟨_, .finished rfl, .untried _ _ [] _⟩
  | cons p parameters ih =>
      rw [outcome_bindArguments] at h
      rcases hunpack : unpackFront m.heap arguments with e | _ | ⟨next, rest⟩ <;> rw [hunpack] at h
      · cases h
      · cases h
        exact ⟨_, .finished hunpack, .untried _ _ (p :: parameters) _⟩
      · dsimp only at h
        by_cases hnamed : ((next :: rest).all (·.1.isSome) &&
            (p :: parameters).all (!·.kind.isTensor)) = true
        · rw [if_pos hnamed] at h
          obtain ⟨hadd, rfl⟩ := Prod.mk.inj h
          obtain ⟨hinputs, hattributes, hfound⟩ := addNamed_eq_some (Except.ok.inj hadd)
          rw [Bool.and_eq_true, List.all_eq_true, List.all_eq_true] at hnamed
          refine ⟨_, .byName hunpack hnamed.1 (by simpa using hnamed.2) hfound, ⟨[], ?_, .nil⟩, ?_⟩
          · rw [hinputs, List.append_nil]
          · exact hattributes
        · rw [if_neg hnamed] at h
          rcases hfit : p.fit m.heap next with values | _ | _ <;> rw [hfit] at h <;> dsimp only at h
          · -- The tensors are named, which the turns of the other parameters do not notice.
            obtain ⟨named, m₁, hok, hnames⟩ := Machine.outcome_nameInputs htraced values
            have hmarks := hnames.marks htraced
            have htraced₁ := hmarks.traced.trans htraced
            rw [outcome_bind_ok hok] at h
            obtain ⟨a, hallots, hbinds⟩ := ih htraced₁ h
            have hslot : Parameter.Fills m.heap m'.heap (p, next) named := by
              refine ⟨values, hfit, (hnames.stands htraced (isTensorOrNone_of_fit hfit).2).imp ?_⟩
              intro v one hstands
              apply hstands.mono (Nat.le_refl _)
              have hlater := marks_bindArguments htraced₁ parameters rest (start.addInput named)
              rw [h] at hlater
              intro id name hname
              exact hlater.nameOf?_eq_some hname
            exact ⟨_, .took hunpack (by simp [hfit]) (hallots.congr hnames.alike),
              (hbinds.of_alike hnames.alike hmarks.size_le).tensors hslot (isTensor_of_fit hfit)⟩
          · obtain ⟨a, hallots, hbinds⟩ := ih htraced h
            exact ⟨_, .took hunpack (by simp [hfit]) hallots,
              hbinds.other (not_isTensor_of_fit hfit)⟩
          · by_cases hoptional : p.optional
            · rw [if_pos hoptional] at h
              obtain ⟨a, hallots, hbinds⟩ := ih htraced h
              exact ⟨_, .left hunpack hfit hoptional hallots, ⟨hbinds.inputs, hbinds.attributes⟩⟩
            · rw [if_neg hoptional] at h
              cases h

/-- A call that fits a schema is recorded once, with what is allotted and with one slot for each output. -/
theorem exists_recorded {call : String} {schema : Operator.Schema} {arguments : Arguments}
    {wantsInt : Bool} {v : Value} (htraced : m.tracer?.isSome)
    (h : (matchSchema call schema arguments wantsInt).outcome m = (.ok (some v), m')) :
    ∃ a traced, Allots m.heap schema.parameters arguments.pending a ∧
      m'.calls = m.calls ++ [traced] ∧ traced.name = call ∧ traced.schema = schema ∧
      a.Recorded m.heap m'.heap traced ∧ traced.outputs.length = schema.outputs.length := by
  obtain ⟨b, m₁, made, hbound, hcalls, hlength, hkept⟩ := exists_call_of_outcome htraced h
  obtain ⟨a, hallots, hbinds⟩ := exists_allots htraced hbound
  refine ⟨a, b.toCall call schema made, hallots, hcalls, rfl, rfl, ⟨?_, ?_⟩, ?_⟩
  · obtain ⟨slots, hinputs, hslots⟩ := hbinds.inputs
    rw [Binding.toCall, hinputs]
    exact hslots.imp fun e slot hfills => hfills.mono (.refl _) (Nat.le_refl _) hkept
  · rw [Binding.toCall, hbinds.attributes]
    rfl
  · rw [Binding.toCall, List.length_map, hlength]

end ModelGraph
