import ModelGraph.Proofs.Machine.Outcome

/-!
# Built-in operations are plain

Making instances, the operations behind the primitives, and the binding of definitions neither look at
a trace nor write tags. The primitives that start calls of their own, and the run of a compiled model,
are treated with the actions they start.
-/

namespace ModelGraph

open Exec

namespace Plain

variable {code : Prop}

/-! ## Instances -/

theorem convert (type : String) (value : Value) : Plain code (Exec.convert type value) := by
  unfold Exec.convert
  split
  · exact pure _
  · exact pure _
  · exact pure _
  · exact pure _
  · exact pure _
  · exact (describe value).bind fun _ => pure _
  · exact dict _
  · exact (items value).bind fun _ => list _

theorem setUp (constructor : Constructor) (target : Value) (arguments : List Value) :
    Plain code (Exec.setUp constructor target arguments) := by
  unfold Exec.setUp
  dsimp only
  split
  · exact pure _
  · exact pure _
  · exact pure _
  · exact pure _
  · exact setAttribute target _ _
  · refine (setAttribute target _ _).bind fun _ => ?_
    split
    · exact setAttribute target _ _
    · exact pure _
  · exact setAttributes target _
  · exact setAttributes target _
  · split
    · exact unsupported _
    · exact setAttributes target _

theorem construct (id : Nat) (arguments : List Value) : Plain code (Exec.construct id arguments) := by
  refine heap.bind fun h => ?_
  split
  · exact typeFault _
  · split
    · exact alloc rfl
    · exact (record _ _ _).bind fun made => (setUp _ made arguments).bind fun _ => pure _
    · exact record _ _ _
    · exact convert _ _
    · split
      · exact (items _).bind fun _ => list _
      · exact (items _).bind fun _ => list _
      · exact dict _
      · exact pure _

/-! ## Saved states -/

theorem constructor? (v : Value) : Plain code (Exec.constructor? v) := by
  refine heap.bind fun h => ?_
  split <;> exact pure _

theorem className? (v : Value) : Plain code (Exec.className? v) := by
  unfold Exec.className?
  split
  · exact pure _
  · exact heap.bind fun _ => pure _

theorem restoreArray (target shape type data : Value) :
    Plain code (Exec.restoreArray target shape type data) := by
  refine heap.bind fun h => (className? _).bind fun name => ?_
  split
  extract_lets width restore
  have hrestore (data : Value) : Plain code (restore data) := by
    dsimp only [restore]
    split
    · refine modifyHeap fun h => h.grows_modify _ fun o => ?_
      cases o <;> rfl
    · exact pure _
  split
  · dsimp only
    split
    · exact (typeFault _).bind fun _ => hrestore _
    · exact (bytes _).bind fun _ => hrestore _
  · exact (pure _).bind fun _ => hrestore _

theorem restoreLayout (constructor : Option Constructor) (target : Value) (state : List Value) :
    Plain code (Exec.restoreLayout constructor target state) := by
  unfold Exec.restoreLayout
  split
  · exact (setAttribute target _ _).bind fun _ => pure _
  · exact (setAttribute target _ _).bind fun _ => pure _
  · exact (setAttributes target _).bind fun _ => pure _
  · exact (restoreArray target _ _ _).bind fun _ => pure _
  · exact unsupported _
  · split
    · exact unsupported _
    · exact (setAttributes target _).bind fun _ => pure _
  · exact pure _

theorem mergeEntries (target : Value) (entries : Dict) :
    Plain code (Exec.mergeEntries target entries) := by
  refine modifyHeap fun h => ?_
  induction entries.entries generalizing h with
  | nil => exact .refl h
  | cons e rest ih => exact (h.grows_setItem target _ _).trans (ih _)

theorem mergeState (target state : Value) : Plain code (Exec.mergeState target state) := by
  refine heap.bind fun h => ?_
  split
  · exact mergeEntries target _
  · split
    · refine (forIn (fun item _ => heap.bind fun h => ?_) _ _).bind fun _ => pure _
      split
      · exact (mergeEntries target _).bind fun _ => pure _
      · exact pure _
    · exact setAttributes target _
  · exact pure _

/-! ## Operations -/

theorem range (arguments : List Value) : Plain code (Builtin.range arguments) := by
  unfold Builtin.range
  dsimp only
  split
  · exact list _
  · exact list _
  · split
    · exact unsupported _
    · exact list _
  · exact unsupported _

theorem rangeLength (start stop step : Value) : Plain code (Builtin.rangeLength start stop step) := by
  unfold Builtin.rangeLength
  split
  · exact unsupported _
  · exact pure _
  · exact pure _

theorem pairs (v : Value) : Plain code (Builtin.pairs v) := heap.bind fun _ => dict _

theorem arrayScalar (type data : Value) : Plain code (Builtin.arrayScalar type data) := by
  refine (attribute? type "name").bind fun name => heap.bind fun h => ?_
  dsimp only
  split
  · exact typeFault _
  · exact ofExcept _

theorem rebuildTensor (arg : Nat → Value) (further : List (String × Value)) :
    Plain code (Builtin.rebuildTensor arg further) := by
  refine heap.bind fun h => ?_
  split
  · exact (describe _).bind fun _ => typeFault _
  · exact (record _ _ _).bind fun made => (setAttributes made _).bind fun _ =>
      (setAttributes made further).bind fun _ => pure _

theorem minimum (arguments : List Value) : Plain code (Builtin.minimum arguments) := by
  refine heap.bind fun h => ?_
  dsimp only
  split
  · exact pure _
  · exact ofExcept _

theorem prepack (type : String) (names : List String) (arguments : List Value) :
    Plain code (Builtin.prepack type names arguments) :=
  (record _ _ _).bind fun made => (setAttributes made _).bind fun _ => pure _

theorem contains (container item : Value) : Plain code (Builtin.contains container item) := by
  refine heap.bind fun h => ?_
  split
  · exact pure _
  · split
    · exact pure _
    · exact pure _
    · exact unsupported _

theorem identical (left right : Value) : Plain code (Builtin.identical left right) := by
  unfold Builtin.identical
  split
  · exact pure _
  · exact pure _
  · exact pure _
  · exact pure _
  · exact unsupported _

theorem sum (left right : Value) : Plain code (Builtin.sum left right) := by
  refine heap.bind fun h => ?_
  split
  · exact pure _
  · split
    · exact list _
    · exact ofExcept _

theorem arithmetic (op : ArithmeticOp) (left right : Value) :
    Plain code (Builtin.arithmetic op left right) :=
  heap.bind fun _ => ofExcept _

theorem negative (v : Value) : Plain code (Builtin.negative v) := by
  unfold Builtin.negative
  split
  · exact pure _
  · exact pure _
  · exact pure _
  · exact (describe v).bind fun _ => unsupported _

theorem comparison (left right : Value) (holds : Ordering → Bool) :
    Plain code (Builtin.comparison left right holds) := by
  unfold Builtin.comparison
  split
  · exact pure _
  · exact heap.bind fun _ => (ofExcept _).bind fun _ => pure _

theorem append (v item : Value) : Plain code (Builtin.append v item) := by
  refine heap.bind fun h => ?_
  split
  · refine (modifyHeap fun h => h.grows_modify _ fun o => ?_).bind fun _ => pure _
    cases o <;> rfl
  · exact typeFault _

theorem slice (v start stop step : Value) : Plain code (Builtin.slice v start stop step) := by
  have single : Plain code (if (step.whole?.getD 1) = 1 then return else Exec.unsupported .sliceStep) := by
    split
    · exact pure _
    · exact unsupported _
  refine heap.bind fun h => ?_
  dsimp only
  split
  · exact single.bind fun _ => pure _
  · exact single.bind fun _ => list _
  · exact pure _

theorem load (compilation model buffers : Value) :
    Plain code (Compilation.load compilation model buffers) := by
  refine heap.bind fun h => ?_
  split
  · exact typeFault _
  · split
    · exact throw _
    · exact (setAttributes compilation _).bind fun _ => pure _

/-! ## Definitions and packages -/

theorem define (definition : Script.Function) (scope : Scope) :
    Plain True (Host.define definition scope) := by
  have hbind (module : String) (method : Bool) (globals : Scope) : Plain True (do
      let made ← Exec.alloc
        (.function { module, name := definition.name, kind := .script definition globals, method })
      Exec.assign scope definition.name made) :=
    (alloc (o := .function _) trivial).bind fun made => assign scope _ made
  refine heap.bind fun h => ?_
  dsimp only
  split
  · exact unsupported _
  · split
    · exact hbind _ _ _
    · exact hbind _ _ _
    · exact unsupported _

theorem packageNamespace (name : String) : Plain code (Host.packageNamespace name) := by
  refine (global? name).bind fun bound? => heap.bind fun h => ?_
  split
  · exact pure _
  · exact (alloc (o := .namespace {}) trivial).bind fun made =>
      (bindGlobal name made).bind fun _ => pure _

theorem parseFile (file source : String) : Plain code (Host.parseFile file source) := by
  unfold Host.parseFile
  split
  · exact pure _
  · exact throw _

end Plain

/-! ## Primitives -/

/-- The primitives that start calls of their own, and the run of a compiled model. -/
def Primitive.startsCalls : Primitive → Bool
  | .reconstruct | .rebuildParameter | .rebuildFromType | .compilationRun => true
  | _ => false

/-- The other primitives do the same under every host. -/
theorem Host.primitive_eq (host host' : Host) {p : Primitive} (hp : p.startsCalls = false)
    (arguments : List Value) : host.primitive p arguments = host'.primitive p arguments := by
  cases p with
  | reconstruct => contradiction
  | rebuildParameter => contradiction
  | rebuildFromType => contradiction
  | compilationRun => contradiction
  | _ => rfl

theorem Plain.primitive {code : Prop} (host : Host) {p : Primitive} (hp : p.startsCalls = false)
    (arguments : List Value) : Plain code (host.primitive p arguments) := by
  cases p with
  | reconstruct => contradiction
  | rebuildParameter => contradiction
  | rebuildFromType => contradiction
  | compilationRun => contradiction
  | bytes => exact heap.bind fun _ => bytes _
  | getAttribute =>
      unfold Host.primitive
      dsimp only
      split
      · exact (attribute? _ _).bind fun _ => pure _
      · exact typeFault _
  | set => exact (items _).bind fun _ => list _
  | list => exact (items _).bind fun _ => list _
  | size => exact (items _).bind fun _ => list _
  | slice =>
      exact (record _ _ _).bind fun made => (setAttributes made _).bind fun _ => pure _
  | counter => exact dict _
  | defaultDict => exact dict _
  | orderedDict => exact pairs _
  | dict => exact pairs _
  | encode => exact bytes _
  | arrayScalar => exact arrayScalar _ _
  | range => exact range arguments
  | rebuildTensor => exact rebuildTensor _ _
  | rebuildTensorV2 => exact rebuildTensor _ _
  | rebuildQuantized => exact rebuildTensor _ _
  | numToTensor =>
      exact (record _ _ _).bind fun made => (setAttribute made _ _).bind fun _ => pure _
  | minimum => exact minimum arguments
  | shape => exact (attribute? _ _).bind fun _ => pure _
  | raise =>
      unfold Host.primitive
      dsimp only
      split
      · exact throw _
      · exact (describe _).bind fun _ => throw _
  | convPrepack => exact prepack _ _ _
  | linearPrepack => exact prepack _ _ _
  | setItem => exact (modifyHeap fun h => h.grows_setItem _ _ _).bind fun _ => pure _
  | contains => exact contains _ _
  | rangeLength => exact rangeLength _ _ _
  | is => exact (identical _ _).bind fun _ => pure _
  | isNot => exact (identical _ _).bind fun _ => pure _
  | not =>
      unfold Host.primitive
      dsimp only
      split
      · exact pure _
      · exact (describe _).bind fun _ => unsupported _
  | add => exact sum _ _
  | sub => exact arithmetic _ _ _
  | mul => exact arithmetic _ _ _
  | div => exact arithmetic _ _ _
  | floorDiv => exact arithmetic _ _ _
  | remainder => exact arithmetic _ _ _
  | negate => exact negative _
  | eq => exact heap.bind fun _ => pure _
  | ne => exact heap.bind fun _ => pure _
  | lt => exact comparison _ _ _
  | le => exact comparison _ _ _
  | gt => exact comparison _ _ _
  | ge => exact comparison _ _ _
  | append => exact append _ _
  | dim => exact heap.bind fun _ => pure _
  | keys => exact heap.bind fun _ => list _
  | values => exact heap.bind fun _ => list _
  | length => exact heap.bind fun _ => pure _
  | tensorSize => exact heap.bind fun _ => pure _
  | tensorSlice => exact slice _ _ _ _
  | compilationInit => exact load _ _ _
  | _ => exact pure _

end ModelGraph
