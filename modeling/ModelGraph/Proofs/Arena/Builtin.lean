import ModelGraph.Proofs.Arena.Instances

/-!
# Built-in operations are tame

What a built-in function gives is a scalar, something that it found in its arguments, or a new object
made of that; what it changes is one of its arguments. The functions that start calls of their own, and the
run of a compiled model, are treated with the actions they start.
-/

namespace ModelGraph

open Exec Enclave

variable {c : Enclave} {h : Heap} {v : Value}

namespace Enclave

theorem has_dim (h : Heap) (v : Value) : c.Has h (Builtin.dim h v) := by
  unfold Builtin.dim
  split <;> trivial

theorem has_conjunction {left right : Value} (hleft : c.Has h left) (hright : c.Has h right) :
    c.Has h (Builtin.conjunction left right) := by
  unfold Builtin.conjunction
  split
  · trivial
  · trivial
  · split
    · exact hright
    · exact hleft

theorem has_disjunction {left right : Value} (hleft : c.Has h left) (hright : c.Has h right) :
    c.Has h (Builtin.disjunction left right) := by
  unfold Builtin.disjunction
  split
  · trivial
  · trivial
  · split
    · exact hleft
    · exact hright

theorem has_least {best : Value} {candidates : List Value} (hbest : c.Has h best)
    (hcandidates : c.HasAll h candidates) (hv : Builtin.least h best candidates = .ok v) : c.Has h v := by
  induction candidates generalizing best with
  | nil =>
      cases hv
      exact hbest
  | cons first rest ih =>
      obtain ⟨hfirst, hrest⟩ := List.forall_mem_cons.mp hcandidates
      unfold Builtin.least at hv
      cases hcompare : h.compare best first with
      | error e =>
          rw [hcompare] at hv
          cases hv
      | ok order =>
          rw [hcompare] at hv
          cases order with
          | gt => exact ih hfirst hrest hv
          | _ => exact ih hbest hrest hv

theorem hasAll_between {items : List Value} (hitems : c.HasAll h items) (start stop : Option Int) :
    c.HasAll h (Builtin.between items start stop) :=
  fun v hv => hitems v (List.mem_of_mem_drop (List.mem_of_mem_take hv))

namespace Closed

variable (hh : c.Closed h)
include hh

theorem length (hv : c.Outside v) : c.Has h (Builtin.length h v) := by
  unfold Builtin.length
  split
  · trivial
  · trivial
  · trivial
  · trivial
  · refine HasIf.getD (fun found hfound => ?_) has_unknown
    obtain ⟨size, hsize, hitem⟩ := Option.bind_eq_some_iff.mp hfound
    exact hh.item? (hh.attribute? hv "size" size hsize).outside _ found hitem

theorem tensorSize (hv : c.Outside v) (dimension : Value) : c.Has h (Builtin.tensorSize h v dimension) := by
  unfold Builtin.tensorSize
  split
  · trivial
  · next size hsize =>
      have hhas := hh.attribute? hv "size" size hsize
      split_ifs
      · exact hhas
      · exact (hh.item? hhas.outside dimension).getD has_unknown

end Closed

end Enclave

namespace Tame

theorem arithmetic (op : ArithmeticOp) (left right : Value) :
    Tame c h c.Has (Builtin.arithmetic op left right) :=
  .afterHeap fun _ => ofExcept fun _ hv => has_of_scalar (h.scalar_arithmetic op hv)

theorem range (arguments : List Value) : Tame c h c.Has (Builtin.range arguments) := by
  have hnumbers (numbers : List Int) : c.HasAll h (numbers.map fun i => .int (Int64.ofInt i)) := by
    intro v hv
    obtain ⟨i, -, rfl⟩ := List.mem_map.mp hv
    trivial
  unfold Builtin.range
  dsimp only
  split
  · exact list (hnumbers _)
  · exact list (hnumbers _)
  · split
    · exact unsupported _
    · exact list (hnumbers _)
  · exact unsupported _

theorem rangeLength (start stop step : Value) : Tame c h c.Has (Builtin.rangeLength start stop step) := by
  unfold Builtin.rangeLength
  split
  · exact unsupported _
  · exact pure trivial
  · exact pure trivial

theorem pairs (hv : c.Outside v) : Tame c h c.Has (Builtin.pairs v) := by
  refine .afterHeap fun hh => dict (.dict_ofList fun e he => ?_)
  obtain ⟨pair, hpair, hentry⟩ := List.mem_filterMap.mp he
  split at hentry <;> cases hentry
  next key value hitems =>
    have hboth := hh.items? (hh.getItems hv pair hpair).outside hitems
    exact ⟨has_key (hboth key (by simp)), hboth value (by simp)⟩

theorem arrayScalar {type : Value} (htype : c.Outside type) (data : Value) :
    Tame c h c.Has (Builtin.arrayScalar type data) := by
  refine .afterAttribute htype fun name _ => .afterHeap fun _ => ?_
  dsimp only
  split
  · exact typeFault _
  · exact ofExcept fun _ hv => has_of_scalar (scalar_read hv)

theorem rebuildTensor {arg : Nat → Value} (harg : ∀ i, c.Has h (arg i)) {further : List (String × Value)}
    (hfurther : ∀ e ∈ further, c.Has h e.2) : Tame c h c.Has (Builtin.rebuildTensor arg further) := by
  refine .afterHeap fun _ => ?_
  split
  · exact .afterDescribe fun _ => typeFault _
  · refine (plainRecord _ _).bind fun h' v hkeeps hv => ?_
    have hlayout : ∀ e ∈ [("storage", arg 0), ("storage_offset", arg 1), ("size", arg 2), ("stride", arg 3)],
        c.Has h' e.2 := by simp [(harg _).mono hkeeps]
    refine (setAttributes hv.outside hlayout).bind fun h'' _ hkeeps' _ => ?_
    refine (setAttributes hv.outside fun e he => (hfurther e he).mono (hkeeps.trans hkeeps')).bind
      fun _ _ hkeeps'' _ => pure (hv.mono (hkeeps'.trans hkeeps''))

theorem minimum {arguments : List Value} (hall : c.HasAll h arguments) :
    Tame c h c.Has (Builtin.minimum arguments) := by
  refine .afterHeap fun hh => ?_
  extract_lets candidates
  have hcandidates : c.HasAll h candidates := by
    dsimp only [candidates]
    split
    · next v =>
        cases hitems : h.items? v with
        | none => exact hall
        | some items => exact hh.items? (hall v List.mem_cons_self).outside hitems
    · exact hall
  clear_value candidates
  cases candidates with
  | nil => exact pure has_unknown
  | cons v rest =>
      obtain ⟨hv, hrest⟩ := List.forall_mem_cons.mp hcandidates
      exact ofExcept fun _ hleast => has_least hv hrest hleast

theorem prepack (type : String) (names : List String) {arguments : List Value}
    (hall : c.HasAll h arguments) : Tame c h c.Has (Builtin.prepack type names arguments) := by
  refine recordWith _ _ fun e he => ?_
  obtain ⟨i, hi, rfl⟩ := List.mem_mapIdx.mp he
  exact has_argument hall i

theorem contains (container item : Value) : Tame c h c.Has (Builtin.contains container item) := by
  refine .afterHeap fun _ => ?_
  split
  · exact pure trivial
  · split
    · exact pure trivial
    · exact pure trivial
    · exact unsupported _

theorem identical (left right : Value) : Tame c h Anything (Builtin.identical left right) := by
  unfold Builtin.identical
  split
  · exact done
  · exact done
  · exact done
  · exact done
  · exact unsupported _

theorem sum {left right : Value} (hleft : c.Outside left) (hright : c.Outside right) :
    Tame c h c.Has (Builtin.sum left right) := by
  refine .afterHeap fun hh => ?_
  split
  · exact pure trivial
  · split
    · next hxs hys => exact list (hasAll_append (hh.items? hleft hxs) (hh.items? hright hys))
    · exact ofExcept fun _ hv => has_of_scalar (h.scalar_arithmetic .add hv)

theorem negative (v : Value) : Tame c h c.Has (Builtin.negative v) := by
  unfold Builtin.negative
  split
  · exact pure trivial
  · exact pure trivial
  · exact pure trivial
  · exact .afterDescribe fun _ => unsupported _

theorem comparison (left right : Value) (holds : Ordering → Bool) :
    Tame c h c.Has (Builtin.comparison left right holds) := by
  unfold Builtin.comparison
  split
  · exact pure trivial
  · exact .afterHeap fun _ => (ofExcept fun _ _ => trivial : Tame c h Anything _).bind
      fun _ _ _ _ => pure trivial

theorem append {item : Value} (hv : c.Outside v) (hitem : c.Has h item) :
    Tame c h c.Has (Builtin.append v item) := by
  refine .afterHeap fun _ => ?_
  split
  · exact (modifyHeap fun hh => hh.append hv (hasAll_cons hitem hasAll_nil)).bind fun _ _ hkeeps _ =>
      pure (hitem.mono hkeeps)
  · exact typeFault _

theorem slice (hv : c.Has h v) (start stop step : Value) :
    Tame c h c.Has (Builtin.slice v start stop step) := by
  have single {h : Heap} : Tame c h Anything
      (if (step.whole?.getD 1) = 1 then return else Exec.unsupported .sliceStep) := by
    split
    · exact done
    · exact unsupported _
  refine .afterHeap fun hh => ?_
  dsimp only
  split
  · exact single.bind fun _ _ _ _ => pure trivial
  · next items _ hitems =>
      have hall := hasAll_between (hh.items? hv.outside hitems)
      exact single.bind fun _ _ hkeeps _ => list ((hall _ _).mono hkeeps)
  · exact pure hv

theorem load {compilation model buffers : Value} (hcompilation : c.Outside compilation)
    (hmodel : c.Has h model) (hbuffers : c.Has h buffers) :
    Tame c h c.Has (Compilation.load compilation model buffers) := by
  refine .afterHeap fun _ => ?_
  split
  · exact typeFault _
  · split
    · exact throw _
    · refine (setAttributes hcompilation ?_).bind fun _ _ _ _ => pure trivial
      simp [hmodel, hbuffers]

/-! ## Primitives -/

theorem primitive (host : Host) {p : Primitive} (hp : p.startsCalls = false) {arguments : List Value}
    (hall : c.HasAll h arguments) : Tame c h c.Has (host.primitive p arguments) := by
  have harg := has_argument hall
  cases p with
  | reconstruct => contradiction
  | rebuildParameter => contradiction
  | rebuildFromType => contradiction
  | compilationRun => contradiction
  | bytes => exact .afterHeap fun _ => bytes _
  | getAttribute =>
      unfold Host.primitive
      dsimp only
      split
      · exact .afterAttribute (harg 0).outside fun _ hfound => pure (hfound.getD (harg 2))
      · exact typeFault _
  | set => exact .afterItems (harg 0).outside fun _ hitems => list hitems
  | list => exact .afterItems (harg 0).outside fun _ hitems => list hitems
  | size => exact .afterItems (harg 0).outside fun _ hitems => list hitems
  | slice => exact recordWith _ _ (by simp [harg])
  | counter => exact emptyDict
  | defaultDict => exact emptyDict
  | orderedDict => exact pairs (harg 0).outside
  | dict => exact pairs (harg 0).outside
  | encode => exact bytes _
  | arrayScalar => exact arrayScalar (harg 0).outside _
  | range => exact range arguments
  | rebuildTensor => exact rebuildTensor harg (by simp)
  | rebuildTensorV2 => exact rebuildTensor harg (by simp [harg])
  | rebuildQuantized => exact rebuildTensor harg (by simp [harg])
  | numToTensor =>
      refine (plainRecord _ _).bind fun h' v hkeeps hv => ?_
      exact (setAttribute hv.outside _ ((harg 0).mono hkeeps)).bind fun _ _ hkeeps' _ => pure (hv.mono hkeeps')
  | minimum => exact minimum hall
  | shape => exact .afterAttribute (harg 0).outside fun _ hfound => pure (hfound.getD trivial)
  | raise =>
      unfold Host.primitive
      dsimp only
      split
      · exact throw _
      · exact .afterDescribe fun _ => throw _
  | convPrepack => exact prepack _ _ hall
  | linearPrepack => exact prepack _ _ hall
  | setItem => exact (setItem (harg 0).outside (harg 1) (harg 2)).bind fun _ _ _ _ => pure trivial
  | contains => exact contains _ _
  | rangeLength => exact rangeLength _ _ _
  | is => exact (identical _ _).bind fun _ _ _ _ => pure trivial
  | isNot => exact (identical _ _).bind fun _ _ _ _ => pure trivial
  | not =>
      unfold Host.primitive
      dsimp only
      split
      · exact pure trivial
      · exact .afterDescribe fun _ => unsupported _
  | add => exact sum (harg 0).outside (harg 1).outside
  | sub => exact arithmetic _ _ _
  | mul => exact arithmetic _ _ _
  | div => exact arithmetic _ _ _
  | floorDiv => exact arithmetic _ _ _
  | remainder => exact arithmetic _ _ _
  | negate => exact negative _
  | eq => exact .afterHeap fun _ => pure trivial
  | ne => exact .afterHeap fun _ => pure trivial
  | lt => exact comparison _ _ _
  | le => exact comparison _ _ _
  | gt => exact comparison _ _ _
  | ge => exact comparison _ _ _
  | append => exact append (harg 0).outside (harg 1)
  | dim => exact .afterHeap fun _ => pure (has_dim _ _)
  | keys =>
      exact .afterHeap fun hh => list fun v hv =>
        (hh.dictOrEmpty (harg 0).outside).parts v (List.mem_append_left _ hv)
  | values =>
      exact .afterHeap fun hh => list fun v hv =>
        (hh.dictOrEmpty (harg 0).outside).parts v (List.mem_append_right _ hv)
  | length => exact .afterHeap fun hh => pure (hh.length (harg 0).outside)
  | tensorSize => exact .afterHeap fun hh => pure (hh.tensorSize (harg 0).outside _)
  | tensorSlice => exact slice (harg 0) _ _ _
  | compilationInit => exact load (harg 0).outside (harg 1) (harg 2)
  | annotate =>
      refine pure ?_
      cases hlast : arguments.getLast? with
      | none => trivial
      | some v => exact hall v (List.mem_of_getLast? hlast)
  | identity => exact pure (harg 0)
  | listWithDefault => exact pure (harg 0)
  | restoreTypeTag => exact pure (harg 0)
  | buildList => exact pure (harg 0)
  | toInt => exact pure (has_of_scalar (Value.scalar_toWhole _))
  | toFloat => exact pure (has_of_scalar (Value.scalar_toFloat _))
  | deriveIndex => exact pure (has_of_scalar (scalar_deriveIndex _ _ _))
  | and => exact pure (has_conjunction (harg 0) (harg 1))
  | or => exact pure (has_disjunction (harg 0) (harg 1))
  | _ => exact pure trivial

end Tame

end ModelGraph
