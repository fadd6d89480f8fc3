import Tlm.AutoScheduler.LoopState
import Tlm.Shared.Decimal
import Tlm.Shared.Loop

set_option autoImplicit false

namespace Tlm.AutoScheduler

open Cpp

structure Te where
  -- `ComputeDAG::ReplayAndGetDAG`.
  replayAndGetDAG : ComputeDAG → List Step → Except Fault ComputeDAG
  -- `ComputeDAG::ApplySteps` and `te::InferBound`: the range of iterator j of stage i.
  inferBound : ComputeDAG → List Step → Except Fault (Nat → Nat → Option Range)

def stageAt (s : State) (stageId : Int32) : Except Fault (Nat × Stage) := do
  let i ← position .check stageId
  return (i, ← found .check s.stages[i]?)

def iterAt (stage : Stage) (iterId : Int32) : Except Fault (Nat × Iterator) := do
  let i ← position .check iterId
  return (i, ← found .check stage.iters[i]?)

variable {s : State} {stageId : Int32}

theorem stageAt_ok {i : Nat} {stage : Stage} :
    stageAt s stageId = .ok (i, stage) ↔ stageId.toInt = i ∧ s.stages[i]? = some stage := by
  constructor
  · intro run
    simp only [stageAt, bind_ok, position_ok, found_ok] at run
    obtain ⟨_, same, _, present, rfl, rfl⟩ := run
    exact ⟨same, present⟩
  · rintro ⟨same, present⟩
    simp [stageAt, same, present]

variable {iterId : Int32} {iter : Iterator}

theorem iterAt_ok {stage : Stage} {i : Nat} :
    iterAt stage iterId = .ok (i, iter) ↔ iterId.toInt = i ∧ stage.iters[i]? = some iter := by
  constructor
  · intro run
    simp only [iterAt, bind_ok, position_ok, found_ok] at run
    obtain ⟨_, same, _, present, rfl, rfl⟩ := run
    exact ⟨same, present⟩
  · rintro ⟨same, present⟩
    simp [iterAt, same, present]

def applyAnnotate (stageId iterId : Int32) (ann : IteratorAnnotation) (s : State) :
    Except Fault (State × Iterator) := do
  let (i, stage) ← stageAt s stageId
  let (j, iter) ← iterAt stage iterId
  ensure .check (iter.annotationKind = .none)
  let newIter := { iter with obj := s.freshObj, annotationKind := ann }
  return (s.setStage i { stage with iters := stage.iters.set j newIter }, newIter)

def collectFused (s : State) (i : Nat) (stage : Stage) :
    Option Int32 → List Int32 → Except Fault (List Iterator)
  | _, [] => .ok []
  | previous, iterId :: rest => do
      ensure .check (previous.all fun before => iterId.toInt = before.toInt + 1)
      -- only the last one may carry attached stages
      ensure .check (rest.isEmpty || (s.attachMap.iterToAttachedStages (i, iterId.toInt)).isNone)
      let (_, iter) ← iterAt stage iterId
      return iter :: (← collectFused s i stage (some iterId) rest)

def fusedExtent (iters : List Iterator) : Option PrimExpr :=
  iters.foldl
    (fun extent iter => do return (← extent).times (← iter.range).extent)
    (some (.imm 1))

def fusedKind : List Iterator → IteratorKind
  | [] => .special
  | first :: rest =>
    rest.foldl (fun kind iter => if kind = iter.iterKind then kind else .mixed) first.iterKind

def fusedIterator (obj : Nat) (iters : List Iterator) : Iterator :=
  ⟨obj, iters.foldl (fun name iter => name ++ iter.name ++ "@") "",
    (fusedExtent iters).map fun extent => ⟨.imm 0, extent⟩, fusedKind iters, .none⟩

def fuseMoves (i firstId lastId size : Nat) : List (IterKey × IterKey) :=
  (List.range size).filterMap fun j =>
    if j ≤ firstId then none
    else if lastId < j then some ((i, j), (i, j - lastId + firstId))
    else some ((i, j), (i, firstId))

def applyFuse (stageId : Int32) (fusedIds : List Int32) (s : State) :
    Except Fault (State × Iterator) := do
  let (i, stage) ← stageAt s stageId
  let newIter := fusedIterator s.freshObj (← collectFused s i stage none fusedIds)
  match fusedIds.head?, fusedIds.getLast? with
  | some front, some back =>
    let firstId ← position .check front
    let lastId ← position .check back
    let newIters := stage.iters.take firstId ++ newIter :: stage.iters.drop (lastId + 1)
    let moves := fuseMoves i firstId lastId stage.iters.length
    return ({ s.setStage i { stage with iters := newIters } with
      attachMap := s.attachMap.updateIters moves }, newIter)
  | _, _ => return (s.setStage i { stage with iters := [newIter] }, newIter)

def autoUnrollKey : String := "auto_unroll_max_step"

def applyPragma (stageId : Int32) (pragmaType : String) (s : State) : Except Fault State := do
  if pragmaType = "debug_skip_region" then
    return { s with attachMap := ← s.attachMap.deleteStage stageId.toInt }
  else if autoUnrollKey.toList.isPrefixOf pragmaType.toList then
    let (i, stage) ← stageAt s stageId
    match pragmaType.toList.dropWhile (· ≠ '$') with
    | [] => throw .check
    | _ :: value => return s.setStage i { stage with autoUnrollMaxStep := ← atoi value }
  else
    throw .check

def itersAt (stage : Stage) : List Int32 → Except Fault (List Iterator)
  | [] => .ok []
  | iterId :: rest => return (← iterAt stage iterId).2 :: (← itersAt stage rest)

def applyReorder (stageId : Int32) (afterIds : List Int32) (s : State) : Except Fault State := do
  let (i, stage) ← stageAt s stageId
  return s.setStage i { stage with iters := ← itersAt stage afterIds }

-- The loops split off one after another, then the loop that is left; `none` is unknown.
def splitRanges : Option Range → List (Option Int32) → Except Fault (List (Option Range))
  | left, [] => .ok [left]
  | some ⟨min, extent⟩, some length :: rest => do
      let quotient ← ((extent.plus (.imm length)).minus (.imm 1)).indexdiv (.imm length)
      return some ⟨min, .imm length⟩ :: (← splitRanges (some ⟨.imm 0, quotient⟩) rest)
  | _, _ :: rest => return none :: (← splitRanges none rest)

def orderedRanges (range : Option Range) (lengths : List (Option Int32)) (innerToOuter : Bool) :
    Except Fault (List (Option Range)) :=
  if innerToOuter then List.reverse <$> splitRanges range lengths.reverse
  else splitRanges range lengths

def splitIters (obj : Nat) (iter : Iterator) (ranges : List (Option Range)) : List Iterator :=
  ranges.mapIdx fun k range =>
    ⟨obj + k, iter.name ++ "." ++ toString k, range, iter.iterKind, .none⟩

def applySplit (stageId iterId : Int32) (lengths : List (Option Int32)) (innerToOuter : Bool)
    (s : State) : Except Fault State := do
  let (i, stage) ← stageAt s stageId
  let (j, iter) ← iterAt stage iterId
  let outs := splitIters s.freshObj iter (← orderedRanges iter.range lengths innerToOuter)
  let newIters := stage.iters.take j ++ outs ++ stage.iters.drop (j + 1)
  let moves := (List.range' j (stage.iters.length - j)).map fun (k : Nat) =>
    (((i, k), (i, k + lengths.length)) : IterKey × IterKey)
  return { s.setStage i { stage with iters := newIters } with
    attachMap := s.attachMap.updateIters moves
    concrete := s.concrete && lengths.all Option.isSome }

-- `SplitCopyStepNode::ApplyToState`: the first split of the same iterator takes the lengths.
def copyLengths (fields : SplitFields) : List Step → List Step
  | [] => []
  | .split target :: rest =>
    if target.key = fields.key then .split { target with lengths := fields.lengths } :: rest
    else .split target :: copyLengths fields rest
  | step :: rest => step :: copyLengths fields rest

def applySplitCopy (fields : SplitFields) (s : State) : State :=
  { s with transformSteps := copyLengths fields s.transformSteps }

def splitAt (steps : List Step) (stepId : Int32) : Except Fault SplitFields := do
  let i ← position .check stepId
  match steps[i]? with
  | some (.split fields) => return fields
  | _ => throw .check

def extractSplitLengths (srcStepId nSplit : Int32) (steps : List Step) :
    Except Fault (List (Option Int32)) := do
  let fields ← splitAt steps srcStepId
  let taken := (nSplit.toInt - 1).toNat
  ensure .check (0 ≤ nSplit.toInt ∧ nSplit.toInt ≤ fields.lengths.length + 1)
  let lastFactor := (fields.lengths.drop taken).foldl
    (fun product length => do return (← product) * (← length)) (some 1)
  return fields.lengths.take taken ++ [lastFactor]

-- `FollowFusedSplitStepNode::ExtractSplitLength`: an undefined length ends the scan.
def extractSplitLength (level : Int32) (steps : List Step) :
    Int32 → List Int32 → Except Fault (Option Int32)
  | product, [] => .ok (some product)
  | product, srcStepId :: rest => do
      let fields ← splitAt steps srcStepId
      let i ← position .check level
      match ← found .check fields.lengths[i]? with
      | some length => extractSplitLength level steps (product * length) rest
      | none => return none

def applyStorageAlign (stageId offset : Int32) (s : State) : Except Fault State := do
  let (i, stage) ← stageAt s stageId
  return s.setStage i { stage with storageOffset := offset }

-- The bounds are forgotten, since they may not be accurate at the new place.
def forgetBounds (obj : Nat) (iters : List Iterator) : List Iterator :=
  iters.mapIdx fun k iter => { iter with obj := obj + k, range := none }

def applyComputeAt (stageId targetStageId targetIterId : Int32) (s : State) :
    Except Fault State := do
  let (i, stage) ← stageAt s stageId
  let newIters := forgetBounds s.freshObj stage.iters
  return { s.setStage i { stage with iters := newIters, computeAt := .iter } with
    attachMap := ← s.attachMap.setComputeAtIter i (targetStageId.toInt, targetIterId.toInt) }

def applyComputeInline (stageId : Int32) (s : State) : Except Fault State := do
  let (i, stage) ← stageAt s stageId
  ensure .check ((List.range stage.iters.length).all fun j =>
    (s.attachMap.iterToAttachedStages (i, j)).isNone)
  return { s.setStage i { stage with computeAt := .inlined } with
    attachMap := ← s.attachMap.deleteStage i }

def applyComputeRoot (stageId : Int32) (s : State) : Except Fault State := do
  let (i, stage) ← stageAt s stageId
  let newIters := forgetBounds s.freshObj stage.iters
  return { s.setStage i { stage with iters := newIters, computeAt := .root } with
    attachMap := ← s.attachMap.deleteStage i }

-- `GetFormerStageModifiableSteps`, with the two steps before the scanned ones.
def formerSteps : Option Step → Option Step → List Step → Except Fault (List Step)
  | _, _, [] => .ok []
  | second, first, step :: rest => do
      let own ← match step with
        | .cacheRead .. | .cacheWrite .. => pure [step]
        | .rfactor stageId _ _ => do
            let fuse := second.toList.filter fun
              | .fuse fusedStage _ => fusedStage = stageId
              | _ => false
            match first with
            | some (.split fields) =>
              ensure .check (fields.stageId = stageId)
              pure (fuse ++ [.split fields, step])
            | _ => throw .check
        | _ => pure []
      return own ++ (← formerSteps first (some step) rest)

-- A step finds itself in the history by address, so it comes with its position.
def getFormerStageModifiableSteps (current : Nat) (steps : List Step) :
    Except Fault (List Step) :=
  formerSteps none none (steps.take (current + 1))

def updateOps (ops : List Operation) : Nat → List Stage → Except Fault (List Stage)
  | _, [] => .ok []
  | i, stage :: rest =>
    return { stage with op := ← found .check ops[i]? } :: (← updateOps ops (i + 1) rest)

def newStage (obj : Nat) (dag : ComputeDAG) (i : Nat) : Except Fault Stage := do
  Stage.ofOp obj (← found .check dag.ops[i]?)

-- `cache_write` on a stage with several outputs may add two operations.
def secondStage (obj : Nat) (dag : ComputeDAG) (i addedOps : Nat) : Except Fault (List Stage) :=
  if addedOps = 2 then List.singleton <$> newStage obj dag i else .ok []

def setOps : List Operation → List Stage → Except Fault (List Stage)
  | [], stages => .ok stages
  | _ :: _, [] => .error .check
  | op :: ops, stage :: rest => return { stage with op } :: (← setOps ops rest)

section

variable (te : Te) (dag : ComputeDAG) (current : Nat)

def applyCacheRead (stageId : Int32) (s : State) : Except Fault State := do
  let newDag ← te.replayAndGetDAG dag (← getFormerStageModifiableSteps current s.transformSteps)
  let (i, stage) ← stageAt s stageId
  let target := { stage with op := ← found .check newDag.ops[i]? }
  let added ← newStage s.freshObj newDag (i + 1)
  let later ← updateOps newDag.ops (i + 2) (s.stages.drop (i + 1))
  return { s with
    stages := s.stages.take i ++ target :: added :: later
    attachMap := s.attachMap.applyStageIdOffset (i + 1) 1
    currentComputeDag := some newDag }

def applyCacheWrite (stageId : Int32) (s : State) : Except Fault State := do
  let newDag ← te.replayAndGetDAG dag (← getFormerStageModifiableSteps current s.transformSteps)
  let lastSize := (s.currentComputeDag.getD dag).ops.length
  let addedOps := newDag.ops.length - lastSize
  ensure .check (1 ≤ addedOps)
  let (i, _) ← stageAt s stageId
  let added ← newStage s.freshObj newDag i
  let nextObj := s.freshObj + added.iters.length
  let target ← newStage nextObj newDag (i + 1)
  let second ← secondStage (nextObj + target.iters.length) newDag (i + 2) addedOps
  let nextStageId := i + 2 + second.length
  let later ← setOps (newDag.ops.drop nextStageId) (s.stages.drop (i + 1))
  return { s with
    stages := s.stages.take i ++ added :: target :: second ++ later
    attachMap := s.attachMap.applyStageIdOffset i addedOps
    currentComputeDag := some newDag }

def applyRfactor (stageId : Int32) (s : State) : Except Fault State := do
  let (i, stage) ← stageAt s stageId
  let newDag ← te.replayAndGetDAG dag (← getFormerStageModifiableSteps current s.transformSteps)
  let added ← newStage s.freshObj newDag i
  let nextObj := s.freshObj + added.iters.length
  let target ← newStage nextObj newDag (i + 1)
  let later ← updateOps newDag.ops (i + 2) (s.stages.drop (i + 1))
  return { s with
    stages := s.stages.take i ++ added :: { target with computeAt := stage.computeAt } :: later
    attachMap := s.attachMap.applyStageIdOffset i 1
    currentComputeDag := some newDag }

def stepApplyToState (step : Step) (s : State) : Except Fault State :=
  match step with
  | .annotate stageId iterId ann => Prod.fst <$> applyAnnotate stageId iterId ann s
  | .fuse stageId fusedIds => Prod.fst <$> applyFuse stageId fusedIds s
  | .pragma stageId _ pragmaType => applyPragma stageId pragmaType s
  | .reorder stageId afterIds => applyReorder stageId afterIds s
  | .split fields => applySplit fields.stageId fields.iterId fields.lengths fields.innerToOuter s
  | .splitCopy fields => .ok (applySplitCopy fields s)
  | .prompt | .splitStart | .computeLocationStart _ | .unrollStart _ | .vectorizationStart _
  | .threadBindStart => .ok s
  | .followSplit stageId iterId srcStepId nSplit => do
      applySplit stageId iterId (← extractSplitLengths srcStepId nSplit s.transformSteps) true s
  | .followFusedSplit stageId iterId srcStepIds level factorOrNparts => do
      let length ← extractSplitLength level s.transformSteps 1 srcStepIds
      applySplit stageId iterId [length] factorOrNparts s
  | .storageAlign stageId _ _ offset => applyStorageAlign stageId offset s
  | .computeAt stageId targetStageId targetIterId =>
    applyComputeAt stageId targetStageId targetIterId s
  | .computeInline stageId => applyComputeInline stageId s
  | .computeRoot stageId => applyComputeRoot stageId s
  | .cacheRead stageId _ _ => applyCacheRead te dag current stageId s
  | .cacheWrite stageId _ => applyCacheWrite te dag current stageId s
  | .rfactor stageId _ _ => applyRfactor te dag current stageId s

end

variable {s' : State}

theorem applyAnnotate_history {ann : IteratorAnnotation}
    (run : applyAnnotate stageId iterId ann s = .ok (s', iter)) : s'.transformSteps = s.transformSteps := by
  simp only [applyAnnotate, bind_ok] at run
  obtain ⟨_, _, _, _, _, _, rfl, _⟩ := run
  rfl

theorem applyFuse_history {fusedIds : List Int32} (run : applyFuse stageId fusedIds s = .ok (s', iter)) :
    s'.transformSteps = s.transformSteps := by
  simp only [applyFuse, bind_ok] at run
  obtain ⟨⟨i, stage⟩, _, iters, _, run⟩ := run
  split at run
  · simp only [bind_ok] at run
    obtain ⟨_, _, _, _, rfl, _⟩ := run
    rfl
  · obtain ⟨rfl, _⟩ := run
    rfl

theorem applyPragma_history {pragmaType : String} (run : applyPragma stageId pragmaType s = .ok s') :
    s'.transformSteps = s.transformSteps := by
  unfold applyPragma at run
  split at run
  · simp only [bind_ok, pure_ok] at run
    obtain ⟨_, _, rfl⟩ := run
    rfl
  · split at run
    · simp only [bind_ok] at run
      obtain ⟨⟨i, stage⟩, _, run⟩ := run
      split at run
      · exact absurd run throw_ok
      · simp only [bind_ok, pure_ok] at run
        obtain ⟨_, _, rfl⟩ := run
        rfl
    · exact absurd run throw_ok

theorem applySplit_history {lengths : List (Option Int32)} {innerToOuter : Bool}
    (run : applySplit stageId iterId lengths innerToOuter s = .ok s') :
    s'.transformSteps = s.transformSteps := by
  simp only [applySplit, bind_ok, pure_ok] at run
  obtain ⟨_, _, _, _, _, _, rfl⟩ := run
  rfl

theorem applyComputeAt_history {targetStageId targetIterId : Int32}
    (run : applyComputeAt stageId targetStageId targetIterId s = .ok s') :
    s'.transformSteps = s.transformSteps := by
  simp only [applyComputeAt, bind_ok, pure_ok] at run
  obtain ⟨_, _, _, _, rfl⟩ := run
  rfl

theorem applyComputeInline_history (run : applyComputeInline stageId s = .ok s') :
    s'.transformSteps = s.transformSteps := by
  simp only [applyComputeInline, bind_ok, pure_ok] at run
  obtain ⟨_, _, _, _, _, _, rfl⟩ := run
  rfl

theorem applyComputeRoot_history (run : applyComputeRoot stageId s = .ok s') :
    s'.transformSteps = s.transformSteps := by
  simp only [applyComputeRoot, bind_ok, pure_ok] at run
  obtain ⟨_, _, _, _, rfl⟩ := run
  rfl

theorem stepApplyToState_history {te : Te} {dag : ComputeDAG} {current : Nat} {step : Step}
    (run : stepApplyToState te dag current step s = .ok s') (plain : step.splitCopy? = none) :
    s'.transformSteps = s.transformSteps := by
  cases step with
  | annotate | fuse =>
    simp only [stepApplyToState, map_ok] at run
    obtain ⟨⟨_, _⟩, run, rfl⟩ := run
    first | exact applyAnnotate_history run | exact applyFuse_history run
  | pragma => exact applyPragma_history run
  | split => exact applySplit_history run
  | splitCopy => simp [Step.splitCopy?] at plain
  | prompt | splitStart | computeLocationStart | unrollStart | vectorizationStart
  | threadBindStart =>
    cases run
    rfl
  | followSplit | followFusedSplit =>
    simp only [stepApplyToState, bind_ok] at run
    obtain ⟨_, _, run⟩ := run
    exact applySplit_history run
  | computeAt => exact applyComputeAt_history run
  | computeInline => exact applyComputeInline_history run
  | computeRoot => exact applyComputeRoot_history run
  | reorder | storageAlign =>
    simp only [stepApplyToState, applyReorder, applyStorageAlign, bind_ok, pure_ok] at run
    grind [State.setStage]
  | cacheRead | cacheWrite | rfactor =>
    simp only [stepApplyToState, applyCacheRead, applyCacheWrite, applyRfactor, bind_ok, pure_ok] at run
    grind

theorem copyLengths_length (fields : SplitFields) (steps : List Step) :
    (copyLengths fields steps).length = steps.length := by
  fun_induction copyLengths fields steps <;> simp_all

section

variable (te : Te) (dag : ComputeDAG)

-- The loop runs over the array as it was given; a step that rewrites it works on a copy.
def replaySteps (steps : List Step) (s : State) : Except Fault State :=
  steps.zipIdx.foldlM (fun s (step, current) => stepApplyToState te dag current step s) s

def rebuild (s : State) : Except Fault State := do
  let initState ← State.ofOps dag.ops
  replaySteps te dag s.transformSteps { initState with transformSteps := s.transformSteps }

-- A state without stages is rebuilt from the initial state of the compute DAG.
def complete (s : State) : Except Fault State :=
  if s.stages.isEmpty then rebuild te dag s else .ok s

end

def boundIters (bounds : Nat → Option Range) (obj : Nat) :
    Nat → List Iterator → Except Fault (List Iterator)
  | _, [] => .ok []
  | j, iter :: rest => do
      let range ← found .check (bounds j)
      return { iter with obj := obj + j, range := some range } :: (← boundIters bounds obj (j + 1) rest)

def boundStages (bounds : Nat → Nat → Option Range) :
    Nat → Nat → List Stage → Except Fault (List Stage)
  | _, _, [] => .ok []
  | obj, i, stage :: rest =>
    if stage.computeAt = .inlined then
      return stage :: (← boundStages bounds obj (i + 1) rest)
    else do
      let iters ← boundIters (bounds i) obj 0 stage.iters
      return { stage with iters } :: (← boundStages bounds (obj + iters.length) (i + 1) rest)

def inferBound (te : Te) (dag : ComputeDAG) (s : State) : Except Fault State := do
  ensure .check s.concrete
  let s ← complete te dag s
  let bounds ← te.inferBound dag s.transformSteps
  return { s with stages := ← boundStages bounds s.freshObj 0 s.stages }

theorem inferBound_ok {te : Te} {dag : ComputeDAG} (run : inferBound te dag s = .ok s') :
    ∃ completed, complete te dag s = .ok completed ∧ s'.transformSteps = completed.transformSteps := by
  simp only [inferBound, bind_ok, pure_ok] at run
  obtain ⟨_, _, completed, whole, _, _, _, _, rfl⟩ := run
  exact ⟨completed, whole, rfl⟩

theorem inferBound_history {te : Te} {dag : ComputeDAG} (staged : s.stages ≠ [])
    (run : inferBound te dag s = .ok s') : s'.transformSteps = s.transformSteps := by
  obtain ⟨completed, whole, same⟩ := inferBound_ok run
  rw [complete, if_neg (by simpa using staged)] at whole
  cases whole
  exact same

theorem stepApplyToState_length {te : Te} {dag : ComputeDAG} {current : Nat} {step : Step}
    (run : stepApplyToState te dag current step s = .ok s') :
    s'.transformSteps.length = s.transformSteps.length := by
  cases copied : step.splitCopy? with
  | none => rw [stepApplyToState_history run copied]
  | some fields =>
    obtain rfl := Step.eq_splitCopy copied
    cases run
    exact copyLengths_length fields s.transformSteps

theorem inferBound_length {te : Te} {dag : ComputeDAG} (run : inferBound te dag s = .ok s') :
    s'.transformSteps.length = s.transformSteps.length := by
  obtain ⟨completed, whole, same⟩ := inferBound_ok run
  rw [same]
  unfold complete at whole
  split at whole
  · simp only [rebuild, bind_ok] at whole
    obtain ⟨initState, _, replayed⟩ := whole
    exact foldlM_inv (P := fun st : State => st.transformSteps.length = s.transformSteps.length)
      (fun start step => (stepApplyToState_length step).trans start) replayed rfl
  · cases whole
    rfl

end Tlm.AutoScheduler
