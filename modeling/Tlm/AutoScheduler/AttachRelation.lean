import Tlm.AutoScheduler.AttachFollow
import Tlm.Shared.Loop

set_option autoImplicit false

namespace Tlm.AutoScheduler

open Cpp AttachMap

def ClashesAt (s : State) (stageId iterId : Int32) (count : Nat) : Prop :=
  ∃ i j : Nat, stageId.toInt = i ∧ iterId.toInt = j ∧
    SplitClash s.attachMap i j count (s.itersOf i).length

def Step.Clashes (s : State) : Step → Prop
  | .split fields => ClashesAt s fields.stageId fields.iterId fields.lengths.length
  | .followSplit stageId iterId _ nSplit =>
    ClashesAt s stageId iterId ((nSplit.toInt - 1).toNat + 1)
  | .followFusedSplit stageId iterId .. => ClashesAt s stageId iterId 1
  | _ => False

variable {stageId : Int32} {s s' : State} {iterId : Int32} {lengths : List (Option Int32)}

theorem applySplit_consistent {innerToOuter : Bool} (consistent : s.attachMap.Consistent)
    (run : applySplit stageId iterId lengths innerToOuter s = .ok s') :
    s'.attachMap.Consistent ↔ ¬ClashesAt s stageId iterId lengths.length := by
  obtain ⟨i, j, stage, iter, outs, same, sameIter, present, -, -, -, moved⟩ := applySplit_ok run
  rw [moved, updateIters_consistent splitMoves_distinct consistent, splitMoves_alone,
    ← State.itersOf_of_some present]
  constructor
  · rintro free ⟨i', j', same', sameIter', clash⟩
    obtain rfl : i = i' := by omega
    obtain rfl : j = j' := by omega
    exact free clash
  · exact fun free clash => free ⟨i, j, same, sameIter, clash⟩

theorem applyFuse_consistent {ids : List Int32} {newIter : Iterator}
    (consistent : s.attachMap.Consistent) (run : applyFuse stageId ids s = .ok (s', newIter)) :
    s'.attachMap.Consistent := by
  obtain ⟨i, stage, -, -, ⟨-, -, kept⟩ | ⟨first, last, -, order, -, bound, quiet, -, moved⟩⟩ :=
    applyFuse_ok run
  · rwa [kept]
  · rw [moved, updateIters_consistent fuseMoves_distinct consistent]
    exact fun key carries => fuseMoves_alone order bound quiet carries

theorem applyPragma_consistent {pragmaType : String} (consistent : s.attachMap.Consistent)
    (run : applyPragma stageId pragmaType s = .ok s') : s'.attachMap.Consistent := by
  unfold applyPragma at run
  split at run
  · simp only [bind_ok, pure_ok] at run
    obtain ⟨map, deleted, rfl⟩ := run
    exact (deleteStage_consistent consistent deleted).1
  · split at run
    · simp only [bind_ok] at run
      obtain ⟨⟨i, stage⟩, _, run⟩ := run
      split at run
      · exact absurd run throw_ok
      · simp only [bind_ok, pure_ok] at run
        obtain ⟨_, _, rfl⟩ := run
        exact consistent
    · exact absurd run throw_ok

theorem extractSplitLengths_length {srcStepId nSplit : Int32} {steps : List Step}
    (run : extractSplitLengths srcStepId nSplit steps = .ok lengths) :
    lengths.length = (nSplit.toInt - 1).toNat + 1 := by
  simp only [extractSplitLengths, bind_ok, ensure_ok, decide_eq_true_eq, pure_ok] at run
  obtain ⟨fields, -, _, bounds, rfl⟩ := run
  simp only [List.length_append, List.length_take, List.length_singleton]
  omega

variable {te : Te} {dag : ComputeDAG}

theorem stepApplyToState_consistent {current : Nat} {step : Step}
    (consistent : s.attachMap.Consistent) (run : stepApplyToState te dag current step s = .ok s') :
    s'.attachMap.Consistent ↔ ¬step.Clashes s := by
  cases step with
  | split => exact applySplit_consistent consistent run
  | followSplit =>
    simp only [stepApplyToState, bind_ok] at run
    obtain ⟨lengths, extracted, run⟩ := run
    rw [applySplit_consistent consistent run, extractSplitLengths_length extracted]
    rfl
  | followFusedSplit =>
    simp only [stepApplyToState, bind_ok] at run
    obtain ⟨length, -, run⟩ := run
    exact applySplit_consistent consistent run
  | annotate =>
    simp only [stepApplyToState, map_ok, applyAnnotate, bind_ok, pure_ok] at run
    obtain ⟨_, ⟨_, _, _, _, _, _, rfl⟩, rfl⟩ := run
    simpa [Step.Clashes] using consistent
  | fuse =>
    simp only [stepApplyToState, map_ok] at run
    obtain ⟨⟨_, newIter⟩, run, rfl⟩ := run
    simpa [Step.Clashes] using applyFuse_consistent consistent run
  | pragma => simpa [Step.Clashes] using applyPragma_consistent consistent run
  | reorder =>
    obtain ⟨_, _, _, _, _, _, _, kept⟩ := applyReorder_ok run
    simpa [Step.Clashes, kept] using consistent
  | splitCopy | prompt | splitStart | computeLocationStart | unrollStart | vectorizationStart
  | threadBindStart =>
    cases run
    simpa [Step.Clashes, applySplitCopy] using consistent
  | storageAlign =>
    simp only [stepApplyToState, applyStorageAlign, bind_ok, pure_ok] at run
    obtain ⟨_, _, rfl⟩ := run
    simpa [Step.Clashes] using consistent
  | computeAt =>
    simp only [stepApplyToState, applyComputeAt, bind_ok, pure_ok] at run
    obtain ⟨_, _, map, placed, rfl⟩ := run
    simpa [Step.Clashes] using setComputeAtIter_consistent consistent placed
  | computeInline =>
    simp only [stepApplyToState, applyComputeInline, bind_ok, pure_ok] at run
    obtain ⟨_, _, _, _, map, deleted, rfl⟩ := run
    simpa [Step.Clashes] using (deleteStage_consistent consistent deleted).1
  | computeRoot =>
    simp only [stepApplyToState, applyComputeRoot, bind_ok, pure_ok] at run
    obtain ⟨_, _, map, deleted, rfl⟩ := run
    simpa [Step.Clashes] using (deleteStage_consistent consistent deleted).1
  | cacheRead =>
    simp only [stepApplyToState, applyCacheRead, bind_ok, pure_ok] at run
    obtain ⟨_, _, _, _, _, _, _, _, _, _, _, _, rfl⟩ := run
    simpa [Step.Clashes] using applyStageIdOffset_consistent consistent _ (by decide)
  | cacheWrite =>
    simp only [stepApplyToState, applyCacheWrite, bind_ok, pure_ok] at run
    obtain ⟨_, _, _, _, _, _, _, _, _, _, _, _, _, _, _, _, rfl⟩ := run
    simpa [Step.Clashes] using applyStageIdOffset_consistent consistent _ (Int.natCast_nonneg _)
  | rfactor =>
    simp only [stepApplyToState, applyRfactor, bind_ok, pure_ok] at run
    obtain ⟨_, _, _, _, _, _, _, _, _, _, _, _, rfl⟩ := run
    simpa [Step.Clashes] using applyStageIdOffset_consistent consistent _ (by decide)

-- The iterator is split into `count` more parts while a list stands where another one goes.
def SplitsOnto (s : State) (stageId : Nat) (iter : Iterator) (count : Nat) : Prop :=
  ∃ j, getIndex (s.itersOf stageId) iter = .ok j ∧
    SplitClash s.attachMap stageId j count (s.itersOf stageId).length

def Primitive.Clashes (s : State) : Primitive → Prop
  | .split stageId iter lengths _ => SplitsOnto s stageId iter lengths.length
  | .followSplit stageId iter _ nSplit => SplitsOnto s stageId iter ((nSplit.toInt - 1).toNat + 1)
  | .followFusedSplit stageId iter .. => SplitsOnto s stageId iter 1
  | _ => False

variable {iter : Iterator}

theorem clashesAt_iff {stageId j : Nat} {stage : Stage} {id : Int32}
    (present : s.stages[stageId]? = some stage) (located : getIndex stage.iters iter = .ok j)
    (same : id.toInt = stageId) (sameIter : iterId.toInt = j) (step : Step) (count : Nat) :
    ClashesAt (s.push step) id iterId count ↔ SplitsOnto s stageId iter count := by
  have iters := State.itersOf_of_some present
  constructor
  · rintro ⟨i, j', same', sameIter', clash⟩
    obtain rfl : i = stageId := by omega
    obtain rfl : j' = j := by omega
    exact ⟨j', by rw [iters, located], clash⟩
  · rintro ⟨j', located', clash⟩
    rw [iters, located, Except.ok.injEq] at located'
    subst located'
    exact ⟨stageId, j, same, sameIter, clash⟩

theorem annotateIter_step (te : Te) (dag : ComputeDAG) {stageId : Nat} {ann : IteratorAnnotation}
    {result : State × Iterator} (run : s.annotateIter stageId iter ann = .ok result) :
    ∃ step, stepApplyToState te dag s.transformSteps.length step (s.push step) = .ok result.1 ∧
      ¬step.Clashes (s.push step) := by
  simp only [State.annotateIter, bind_ok] at run
  obtain ⟨_, _, _, _, iterId, _, stageId, _, run⟩ := run
  exact ⟨.annotate stageId iterId ann, map_ok.mpr ⟨result, run, rfl⟩, fun clash => clash⟩

variable {primitive : Primitive}

-- A primitive records a step and applies it; only a limited `unroll` may do nothing.
theorem Primitive.apply_cases (run : primitive.apply te dag s = .ok s') :
    (s' = s ∧ ¬primitive.Clashes s) ∨
      ∃ step, stepApplyToState te dag s.transformSteps.length step (s.push step) = .ok s' ∧
        (step.Clashes (s.push step) ↔ primitive.Clashes s) := by
  cases primitive with
  | bindIter =>
    simp only [Primitive.apply, map_ok, State.bindIter, bind_ok] at run
    obtain ⟨_, ⟨_, _, run⟩, rfl⟩ := run
    obtain ⟨step, applied, quiet⟩ := annotateIter_step te dag run
    exact .inr ⟨step, applied, iff_of_false quiet id⟩
  | parallel | vectorize =>
    simp only [Primitive.apply, map_ok] at run
    obtain ⟨_, run, rfl⟩ := run
    obtain ⟨step, applied, quiet⟩ := annotateIter_step te dag run
    exact .inr ⟨step, applied, iff_of_false quiet id⟩
  | unroll =>
    simp only [Primitive.apply, map_ok, State.unroll] at run
    obtain ⟨_, run, rfl⟩ := run
    split at run
    all_goals split at run
    all_goals first
      | cases run
        exact .inl ⟨rfl, id⟩
      | obtain ⟨step, applied, quiet⟩ := annotateIter_step te dag run
        exact .inr ⟨step, applied, iff_of_false quiet id⟩
  | fuse =>
    simp only [Primitive.apply, map_ok, State.fuse, bind_ok] at run
    obtain ⟨result, ⟨_, _, ids, _, stageId, _, run⟩, rfl⟩ := run
    exact .inr ⟨.fuse stageId ids, map_ok.mpr ⟨result, run, rfl⟩, Iff.rfl⟩
  | pragma =>
    simp only [Primitive.apply, State.pragma, bind_ok] at run
    obtain ⟨_, _, _, _, iterId, _, stageId, _, run⟩ := run
    exact .inr ⟨.pragma stageId iterId _, run, Iff.rfl⟩
  | reorder =>
    simp only [Primitive.apply, State.reorder, bind_ok] at run
    obtain ⟨_, _, _, _, ids, _, stageId, _, run⟩ := run
    exact .inr ⟨.reorder stageId ids, run, Iff.rfl⟩
  | split =>
    simp only [Primitive.apply, State.split, bind_ok, found_ok, narrow_ok] at run
    obtain ⟨stage, present, j, located, iterId, sameIter, stageId, same, run⟩ := run
    exact .inr ⟨.split _, run, clashesAt_iff present located same sameIter _ _⟩
  | followSplit =>
    simp only [Primitive.apply, State.followSplit, bind_ok, found_ok, narrow_ok] at run
    obtain ⟨stage, present, j, located, iterId, sameIter, stageId, same, lengths, extracted, run⟩ :=
      run
    exact .inr ⟨.followSplit stageId iterId _ _, bind_ok.mpr ⟨lengths, extracted, run⟩,
      clashesAt_iff present located same sameIter _ _⟩
  | followFusedSplit =>
    simp only [Primitive.apply, State.followFusedSplit, bind_ok, found_ok, narrow_ok] at run
    obtain ⟨stage, present, j, located, iterId, sameIter, stageId, same, length, extracted, run⟩ :=
      run
    exact .inr ⟨.followFusedSplit stageId iterId _ _ _, bind_ok.mpr ⟨length, extracted, run⟩,
      clashesAt_iff present located same sameIter _ _⟩
  | storageAlign =>
    simp only [Primitive.apply, State.storageAlign, bind_ok] at run
    obtain ⟨_, _, _, _, iterId, _, stageId, _, run⟩ := run
    exact .inr ⟨.storageAlign stageId iterId _ _, run, Iff.rfl⟩
  | computeAt =>
    simp only [Primitive.apply, State.computeAt, bind_ok] at run
    obtain ⟨_, _, _, _, iterId, _, stageId, _, targetId, _, run⟩ := run
    exact .inr ⟨.computeAt stageId targetId iterId, run, Iff.rfl⟩
  | computeInline =>
    simp only [Primitive.apply, State.computeInline, bind_ok] at run
    obtain ⟨stageId, _, run⟩ := run
    exact .inr ⟨.computeInline stageId, run, Iff.rfl⟩
  | computeRoot =>
    simp only [Primitive.apply, State.computeRoot, bind_ok] at run
    obtain ⟨stageId, _, run⟩ := run
    exact .inr ⟨.computeRoot stageId, run, Iff.rfl⟩
  | splitCopy fields => exact .inr ⟨.splitCopy fields, run, Iff.rfl⟩
  | addPrompt => exact .inr ⟨.prompt, run, Iff.rfl⟩
  | splitStart => exact .inr ⟨.splitStart, run, Iff.rfl⟩
  | threadBindStart => exact .inr ⟨.threadBindStart, run, Iff.rfl⟩
  | computeLocationStart =>
    simp only [Primitive.apply, State.computeLocationStart, bind_ok, pure_ok] at run
    obtain ⟨ids, _, rfl⟩ := run
    exact .inr ⟨.computeLocationStart ids, rfl, Iff.rfl⟩
  | unrollStart =>
    simp only [Primitive.apply, State.unrollStart, bind_ok, pure_ok] at run
    obtain ⟨ids, _, rfl⟩ := run
    exact .inr ⟨.unrollStart ids, rfl, Iff.rfl⟩
  | vectorizationStart =>
    simp only [Primitive.apply, State.vectorizationStart, bind_ok, pure_ok] at run
    obtain ⟨ids, _, rfl⟩ := run
    exact .inr ⟨.vectorizationStart ids, rfl, Iff.rfl⟩
  | cacheRead =>
    simp only [Primitive.apply, State.cacheRead, bind_ok] at run
    obtain ⟨stageId, _, run⟩ := run
    exact .inr ⟨.cacheRead stageId _ _, run, Iff.rfl⟩
  | cacheWrite =>
    simp only [Primitive.apply, State.cacheWrite, bind_ok] at run
    obtain ⟨stageId, _, run⟩ := run
    exact .inr ⟨.cacheWrite stageId _, run, Iff.rfl⟩
  | rfactor =>
    simp only [Primitive.apply, State.rfactor, bind_ok] at run
    obtain ⟨_, _, _, _, iterId, _, stageId, _, run⟩ := run
    exact .inr ⟨.rfactor stageId iterId _, run, Iff.rfl⟩

theorem Primitive.apply_consistent (consistent : s.attachMap.Consistent)
    (run : primitive.apply te dag s = .ok s') : s'.attachMap.Consistent ↔ ¬primitive.Clashes s := by
  rcases Primitive.apply_cases run with ⟨rfl, quiet⟩ | ⟨step, applied, clashes⟩
  · exact iff_of_true consistent quiet
  · rw [← clashes, stepApplyToState_consistent (s := s.push step) consistent applied]

theorem State.ofOps_attachMap {ops : List Operation} (start : State.ofOps ops = .ok s) :
    s.attachMap = .empty := by
  refine foldlM_inv (P := fun s => s.attachMap = .empty) ?_ start rfl
  intro s op s' kept round
  simp only [bind_ok, pure_ok] at round
  obtain ⟨_, _, rfl⟩ := round
  exact kept

theorem attachMap_consistent_iff {te : Te} {dag : ComputeDAG} {ops : List Operation}
    {primitives : List Primitive} {s s' : State} (start : State.ofOps ops = .ok s)
    (run : primitives.foldlM (Primitive.apply te dag) s = .ok s') :
    Along (fun s _ => s.attachMap.Consistent) (Primitive.apply te dag) primitives s ∧
        s'.attachMap.Consistent ↔
      Along (fun s primitive => ¬primitive.Clashes s) (Primitive.apply te dag) primitives s :=
  along_and_iff (fun consistent first => Primitive.apply_consistent consistent first)
    (State.ofOps_attachMap start ▸ empty_consistent) run

def axisOf (name : String) : IterVar := ⟨name, ⟨.imm 0, .imm 8⟩⟩

def producer (obj : Nat) : Operation := ⟨obj, .compute [axisOf "x"] [], none⟩

def reduction (obj : Nat) : Operation := ⟨obj, .compute [axisOf "i"] [axisOf "k"], none⟩

def copying (obj : Nat) : Operation := ⟨obj, .compute [axisOf "i"] [], none⟩

def dagOf (ops : List Operation) : ComputeDAG := ⟨ops, fun _ => none, fun _ => none⟩

def loop (obj : Nat) (kind : IteratorKind) (name : String) : Iterator :=
  Iterator.ofAxis kind obj (axisOf name)

-- Replaying the cache write puts the reduction in front of the stage that copies its result.
def cachedTe : Te where
  replayAndGetDAG _ _ := .ok (dagOf [producer 0, producer 1, reduction 3, copying 2])
  inferBound _ _ := .error .check

def attachTwice : List Primitive :=
  [.computeAt 0 2 (loop 2 .spatial "i"), .computeAt 1 2 (loop 3 .reduction "k")]

def cacheAndSplit : List Primitive :=
  attachTwice ++ [.cacheWrite 2 "local", .split 3 (loop 8 .spatial "i") [some 4] true]

theorem attachMap_consistent_iff_attached :
    ∃ s s', State.ofOps [producer 0, producer 1, reduction 2] = .ok s ∧
      attachTwice.foldlM (Primitive.apply cachedTe (dagOf [])) s = .ok s' ∧
      s'.attachMap.Consistent := by
  refine ⟨_, _, rfl, rfl, ?_⟩
  refine ((@attachMap_consistent_iff cachedTe (dagOf []) [producer 0, producer 1, reduction 2]
    attachTwice _ _ rfl rfl).mpr ?_).2
  exact ⟨id, fun _ _ => ⟨id, fun _ _ => trivial⟩⟩

theorem cacheAndSplit_inconsistent :
    ∃ s s', State.ofOps [producer 0, producer 1, reduction 2] = .ok s ∧
      cacheAndSplit.foldlM
        (Primitive.apply cachedTe (dagOf [producer 0, producer 1, reduction 2])) s = .ok s' ∧
      s'.attachMap.stageToAttachIter 1 = some (3, 1) ∧
      s'.attachMap.iterToAttachedStages (3, 1) = some [0] ∧ ¬s'.attachMap.Consistent := by
  refine ⟨_, _, rfl, rfl, rfl, rfl, ?_⟩
  intro consistent
  obtain ⟨stages, listed, member⟩ := (consistent.inverse 1 (3, 1)).mp rfl
  obtain rfl : [0] = stages := Option.some.inj listed
  simp at member

end Tlm.AutoScheduler
