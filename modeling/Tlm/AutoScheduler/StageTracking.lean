import Tlm.AutoScheduler.AttachRelation

set_option autoImplicit false

namespace Tlm.AutoScheduler

open Cpp

def Step.stageId? : Step → Option Int32
  | .annotate id _ _ | .fuse id _ | .pragma id _ _ | .reorder id _ | .followSplit id _ _ _
  | .followFusedSplit id _ _ _ _ | .storageAlign id _ _ _ | .computeAt id _ _ | .computeInline id
  | .computeRoot id | .cacheRead id _ _ | .cacheWrite id _ | .rfactor id _ _ => some id
  | .split fields | .splitCopy fields => some fields.stageId
  | _ => none

-- `IsStageNumberChangingStep`, with the stage that the step names.
def Step.changes? : Step → Option Int32
  | .cacheWrite id _ | .cacheRead id _ _ | .rfactor id _ _ => some id
  | _ => none

def countStage (stageId : Int32) (stageInc : Int) (id : Int32) : Int :=
  if id.toInt ≤ stageId.toInt + stageInc then stageInc + 1 else stageInc

def getTargetStageIDInState (s : State) (stepId : Nat) : Option Int := do
  let stageId ← (← s.transformSteps[stepId]?).stageId?
  let later := (s.transformSteps.drop (stepId + 1)).filterMap Step.changes?
  return stageId.toInt + later.foldl (countStage stageId) 0

section

variable (te : Te) (dag : ComputeDAG)

def applyStep (s : State) (step : Step) : Except Fault State :=
  stepApplyToState te dag s.transformSteps.length step (s.push step)

-- Where the stage at `t` stands after a step that adds `added` stages.
def Step.moved (added t : Nat) : Step → Nat
  | .cacheRead id _ _ => if t ≤ id.toInt then t else t + 1
  | .cacheWrite id _ => if t < id.toInt then t else if t = id.toInt then t + 1 else t + added
  | .rfactor id _ _ => if t < id.toInt then t else t + 1
  | _ => t

def trackStep (st : State × Nat) (step : Step) : Except Fault (State × Nat) := do
  let s ← applyStep te dag st.1 step
  return (s, step.moved (s.stages.length - st.1.stages.length) st.2)

-- A `cache_read` of the stage itself, or a `cache_write` that adds several stages before it.
def Mistracks (st : State × Nat) : Step → Prop
  | .cacheRead id _ _ => id.toInt = st.2
  | .cacheWrite id scope => id.toInt < st.2 ∧
    ∃ s, applyStep te dag st.1 (.cacheWrite id scope) = .ok s ∧ s.stages.length ≠ st.1.stages.length + 1
  | _ => False

end

variable {te : Te} {dag : ComputeDAG} {s s' : State} {step : Step}

theorem copyLengths_map {β : Type} {f : Step → β}
    (blind : ∀ target lengths, f (.split { target with lengths }) = f (.split target))
    (fields : SplitFields) (steps : List Step) : (copyLengths fields steps).map f = steps.map f := by
  fun_induction copyLengths fields steps <;> simp_all

theorem applyStep_map {β : Type} {f : Step → β}
    (blind : ∀ target lengths, f (.split { target with lengths }) = f (.split target))
    (run : applyStep te dag s step = .ok s') :
    s'.transformSteps.map f = s.transformSteps.map f ++ [f step] := by
  cases copy : step.splitCopy? with
  | none => simp [stepApplyToState_history run copy]
  | some fields =>
    obtain rfl := Step.eq_splitCopy copy
    cases run
    simp [applySplitCopy, copyLengths_map blind]

theorem getTargetStageIDInState_eq (s : State) (stepId : Nat) :
    getTargetStageIDInState s stepId =
      (s.transformSteps.map Step.stageId?)[stepId]?.join.map fun stageId =>
        stageId.toInt +
          (((s.transformSteps.map Step.changes?).drop (stepId + 1)).filterMap id).foldl
            (countStage stageId) 0 := by
  rw [← List.map_drop, List.filterMap_map]
  cases found : s.transformSteps[stepId]? with
  | none => simp [getTargetStageIDInState, found]
  | some step => cases named : step.stageId? <;> simp [getTargetStageIDInState, found, named]

theorem getTargetStageIDInState_step {stepId : Nat} {t : Int} (run : applyStep te dag s step = .ok s')
    (before : getTargetStageIDInState s stepId = some t) :
    getTargetStageIDInState s' stepId =
      some (if step.changes?.any (·.toInt ≤ t) then t + 1 else t) := by
  rw [getTargetStageIDInState_eq] at before ⊢
  obtain ⟨stageId, named, rfl⟩ := Option.map_eq_some_iff.mp before
  have inside : stepId < (s.transformSteps.map Step.stageId?).length := by
    by_contra outside
    simp [List.getElem?_eq_none (not_lt.mp outside)] at named
  rw [applyStep_map (fun _ _ => rfl) run, applyStep_map (fun _ _ => rfl) run,
    List.getElem?_append_left inside, named, List.drop_append_of_le_length (by simpa [Nat.succ_le_iff] using inside)]
  cases changed : step.changes? with
  | none => simp
  | some id => simp [countStage]; split <;> omega

theorem trackStep_iff {stepId : Nat} {st st' : State × Nat}
    (before : getTargetStageIDInState st.1 stepId = some (st.2 : Int))
    (run : trackStep te dag st step = .ok st') :
    getTargetStageIDInState st'.1 stepId = some (st'.2 : Int) ↔ ¬Mistracks te dag st step := by
  simp only [trackStep, bind_ok, pure_ok] at run
  obtain ⟨s', run, rfl⟩ := run
  rw [getTargetStageIDInState_step run before, Option.some.injEq]
  cases step with
  | cacheRead | cacheWrite | rfactor =>
    simp only [Step.changes?, Step.moved, Mistracks, Option.any_some, decide_eq_true_eq, run,
      Except.ok.injEq, exists_eq_left', not_false_iff, iff_true]
    split_ifs <;> omega
  | _ => simp [Step.changes?, Step.moved, Mistracks]

theorem getTargetStageIDInState_tracks_iff {te : Te} {dag : ComputeDAG} {s start final : State}
    {step : Step} {steps : List Step} {stageId : Int32} {t last : Nat}
    (acts : step.stageId? = some stageId) (stage : stageId.toInt = t)
    (first : applyStep te dag s step = .ok start)
    (run : steps.foldlM (trackStep te dag) (start, t) = .ok (final, last)) :
    Along (fun st _ => getTargetStageIDInState st.1 s.transformSteps.length = some (st.2 : Int))
          (trackStep te dag) steps (start, t) ∧
        getTargetStageIDInState final s.transformSteps.length = some (last : Int) ↔
      Along (fun st later => ¬Mistracks te dag st later) (trackStep te dag) steps (start, t) := by
  refine along_and_iff (P := fun st => getTargetStageIDInState st.1 _ = some (st.2 : Int))
    (fun before run => trackStep_iff before run) ?_ run
  rw [getTargetStageIDInState_eq, applyStep_map (fun _ _ => rfl) first, applyStep_map (fun _ _ => rfl) first]
  simp [acts, stage, List.drop_eq_nil_of_le]

def readTe : Te where
  replayAndGetDAG _ _ := .ok (dagOf [producer 0, copying 2, copying 1])
  inferBound _ _ := .error .check

theorem getTargetStageIDInState_tracks_reader :
    ∃ start final, applyStep readTe (dagOf []) Reshape.attachedPair (.annotate 1 0 .parallel) = .ok start ∧
      [Step.cacheRead 0 "shared" [1]].foldlM (trackStep readTe (dagOf [])) (start, 1) = .ok (final, 2) ∧
      getTargetStageIDInState final 0 = some 2 := by
  refine ⟨_, _, rfl, rfl, ?_⟩
  refine ((@getTargetStageIDInState_tracks_iff readTe (dagOf []) Reshape.attachedPair _ _
    (.annotate 1 0 .parallel) [.cacheRead 0 "shared" [1]] 1 1 2 rfl rfl rfl rfl).mpr ?_).2
  exact ⟨by simp [Mistracks], fun _ _ => trivial⟩

-- The annotated stage stays in front of its cache stage.
theorem cacheRead_mistracked :
    ∃ final, [Step.annotate 0 0 .parallel, .cacheRead 0 "shared" [1]].foldlM
        (applyStep readTe (dagOf [])) Reshape.attachedPair = .ok final ∧
      getTargetStageIDInState final 0 = some 1 ∧
      (final.itersOf 0).map Iterator.annotationKind = [.parallel] ∧
      (final.itersOf 1).map Iterator.annotationKind = [.none] :=
  ⟨_, rfl, rfl, rfl, rfl⟩

section

variable {ops : List Operation} {n : Nat} {stages later : List Stage}

theorem updateOps_iters (run : updateOps ops n stages = .ok later) :
    later.map Stage.iters = stages.map Stage.iters := by
  induction stages generalizing n later with
  | nil =>
    cases run
    rfl
  | cons stage rest ih =>
    simp only [updateOps, bind_ok, pure_ok] at run
    obtain ⟨_, _, others, run, rfl⟩ := run
    simp [ih run]

theorem setOps_iters (run : setOps ops stages = .ok later) :
    later.map Stage.iters = stages.map Stage.iters := by
  induction ops generalizing stages later with
  | nil =>
    cases run
    rfl
  | cons op ops ih =>
    cases stages with
    | nil => cases run
    | cons stage rest =>
      simp only [setOps, bind_ok, pure_ok] at run
      obtain ⟨others, run, rfl⟩ := run
      simp [ih run]

theorem itersOf_replaced {i t : Nat} (s' : State) (first : Stage) (new : List Stage)
    (inside : i < s.stages.length)
    (stages : s'.stages = s.stages.take i ++ first :: new ++ later)
    (kept : later.map Stage.iters = (s.stages.drop (i + 1)).map Stage.iters) (apart : t ≠ i) :
    s'.stages.length = s.stages.length + new.length ∧
      s'.itersOf (if t < i then t else t + new.length) = s.itersOf t := by
  have size := congrArg List.length kept
  simp only [List.length_map, List.length_drop] at size
  simp only [State.itersOf, ← List.getElem?_map, stages, List.map_append, kept]
  refine ⟨by simp; omega, ?_⟩
  split
  · next early =>
    rw [List.append_assoc, List.getElem?_append_left (by simp; omega), List.map_take,
      List.getElem?_take_of_lt early]
  · rw [List.getElem?_append_right (by simp; omega), List.map_drop, List.getElem?_drop]
    congr 2
    simp
    omega

theorem stepApplyToState_moved {current t : Nat} {id : Int32} (changes : step.changes? = some id)
    (run : stepApplyToState te dag current step s = .ok s')
    (other : (∃ scope readers, step = .cacheRead id scope readers) ∨ id.toInt ≠ t) :
    s'.itersOf (step.moved (s'.stages.length - s.stages.length) t) = s.itersOf t := by
  cases step with
  | cacheRead =>
    cases changes
    simp only [stepApplyToState, applyCacheRead, bind_ok, Prod.exists, stageAt_ok, pure_ok] at run
    obtain ⟨_, -, _, -, i, stage, ⟨same, present⟩, op, -, added, -, later, updated, made⟩ := run
    have inside := (List.getElem?_eq_some_iff.mp present).1
    by_cases apart : t = i
    · simp [Step.moved, same, State.itersOf, present, ← made, apart, Nat.min_eq_left inside.le]
    · obtain ⟨size, found⟩ := itersOf_replaced s' { stage with op } [added] inside (by simp [← made])
        (updateOps_iters updated) apart
      simpa [Step.moved, same, Nat.lt_iff_le_and_ne, apart] using found
  | cacheWrite =>
    cases changes
    simp only [stepApplyToState, applyCacheWrite, bind_ok, Prod.exists, stageAt_ok, pure_ok] at run
    obtain ⟨_, -, _, -, _, -, i, stage, ⟨same, present⟩, added, -, target, -, second, -, later, updated,
      made⟩ := run
    have apart : t ≠ i := by simpa [same, eq_comm, Int.natCast_inj] using other
    obtain ⟨size, found⟩ := itersOf_replaced s' added (target :: second)
      (List.getElem?_eq_some_iff.mp present).1 (by simp [← made]) (setOps_iters updated) apart
    simpa [Step.moved, same, size, Int.natCast_inj, apart] using found
  | rfactor =>
    cases changes
    simp only [stepApplyToState, applyRfactor, bind_ok, Prod.exists, stageAt_ok, pure_ok] at run
    obtain ⟨i, stage, ⟨same, present⟩, _, -, _, -, added, -, target, -, later, updated, made⟩ := run
    have apart : t ≠ i := by simpa [same, eq_comm, Int.natCast_inj] using other
    obtain ⟨size, found⟩ := itersOf_replaced s' added [{ target with computeAt := stage.computeAt }]
      (List.getElem?_eq_some_iff.mp present).1 (by simp [← made]) (updateOps_iters updated) apart
    simpa [Step.moved, same] using found
  | _ => cases changes

end

theorem stepApplyToState_moved_reader :
    ∃ s', stepApplyToState readTe (dagOf []) 0 (.cacheRead 0 "shared" [1]) Reshape.attachedPair = .ok s' ∧
      s'.itersOf 2 = Reshape.attachedPair.itersOf 1 :=
  ⟨_, rfl, @stepApplyToState_moved readTe (dagOf []) _ _ (.cacheRead 0 "shared" [1]) 0 1 0 rfl rfl (.inl ⟨_, _, rfl⟩)⟩

end Tlm.AutoScheduler
