import Tlm.AutoScheduler.TransformStep
import Tlm.AutoScheduler.Record

set_option autoImplicit false

namespace Tlm.AutoScheduler

open Cpp

def Step.tokens (step : Step) : List String :=
  jsonDfsItems step.writeToRecord

def recordTokens (steps : List Step) : List String :=
  jsonDfsItems (steps.map fun step => .arr step.writeToRecord)

theorem recordTokens_flatMap (steps : List Step) : recordTokens steps = steps.flatMap Step.tokens := by
  rw [recordTokens, jsonDfsItems_flatMap, List.flatMap_map]
  rfl

@[simp] theorem recordTokens_nil : recordTokens [] = [] := rfl

@[simp] theorem recordTokens_cons (step : Step) (steps : List Step) :
    recordTokens (step :: steps) = step.tokens ++ recordTokens steps := by
  simp [recordTokens_flatMap]

@[simp] theorem recordTokens_append (left right : List Step) :
    recordTokens (left ++ right) = recordTokens left ++ recordTokens right := by
  simp [recordTokens_flatMap]

def SplitFields.tokens (fields : SplitFields) : List String :=
  [fields.stageId.toInt.repr, fields.iterId.toInt.repr, (fields.extent.getD 0).toInt.repr] ++
    fields.lengths.map (fun length => (length.getD (-100)).toInt.repr) ++
      [if fields.innerToOuter then "1" else "0"]

theorem Step.tokens_splitCopy (fields : SplitFields) :
    (Step.splitCopy fields).tokens = "SPC" :: fields.tokens := by
  have lengths : (fields.lengths.map fun length => (length.getD (-100))).map Json.ofInt32 =
      fields.lengths.map fun length => .num (length.getD (-100)).toInt := by
    simp [Json.ofInt32]
  have order : jsonDfsItems [.ofBool fields.innerToOuter] =
      [if fields.innerToOuter then "1" else "0"] := by
    cases fields.innerToOuter <;> rfl
  simp only [Step.tokens, writeToRecord, recordPrefixStr, items, SplitFields.items,
    Json.ofLengths, Json.ofInt32s, lengths, jsonDfsItems, jsonDfsWithoutBracket,
    jsonDfsItems_num, Json.ofInt32, SplitFields.tokens]
  simpa [jsonDfsItems] using order

-- `GetIndex`: the first item that is the same object.
def getIndex (iters : List Iterator) (iter : Iterator) : Except Fault Nat :=
  found .check (iters.findIdx? (· = iter))

def getIndices (iters : List Iterator) : List Iterator → Except Fault (List Int32)
  | [] => .ok []
  | iter :: rest => do
      let index ← narrow .undefined (← getIndex iters iter)
      return index :: (← getIndices iters rest)

def stageIdArray : List Nat → Except Fault (List Int32)
  | [] => .ok []
  | stageId :: rest => return (← narrow .undefined stageId) :: (← stageIdArray rest)

namespace State

def annotateIter (stageId : Nat) (iter : Iterator) (ann : IteratorAnnotation) (s : State) :
    Except Fault (State × Iterator) := do
  let stage ← found .check s.stages[stageId]?
  let iterId ← narrow .undefined (← getIndex stage.iters iter)
  let stageId ← narrow .undefined stageId
  applyAnnotate stageId iterId ann (s.push (.annotate stageId iterId ann))

-- An iterator longer than `maxUnroll` is left alone; -1 is no limit.
def unroll (stageId : Nat) (iter : Iterator) (maxUnroll : Int32) (s : State) :
    Except Fault (State × Iterator) :=
  let tooLong : Bool := match iter.range with
    | some ⟨_, .imm value⟩ => maxUnroll ≠ -1 ∧ maxUnroll < value
    | _ => false
  if tooLong then .ok (s, iter) else s.annotateIter stageId iter .unroll

def vectorize (stageId : Nat) (iter : Iterator) (s : State) : Except Fault (State × Iterator) :=
  s.annotateIter stageId iter .vectorize

-- `State::bind`: only the block, thread and virtual thread annotations are taken.
def bindIter (stageId : Nat) (iter : Iterator) (threadType : IteratorAnnotation) (s : State) :
    Except Fault (State × Iterator) := do
  let lowest := IteratorAnnotation.vThread.code
  let highest := IteratorAnnotation.threadZ.code
  ensure .check (lowest ≤ threadType.code ∧ threadType.code ≤ highest)
  s.annotateIter stageId iter threadType

def parallel (stageId : Nat) (iter : Iterator) (s : State) : Except Fault (State × Iterator) :=
  s.annotateIter stageId iter .parallel

def fuse (stageId : Nat) (iters : List Iterator) (s : State) :
    Except Fault (State × Iterator) := do
  let stage ← found .check s.stages[stageId]?
  let indices ← getIndices stage.iters iters
  let stageId ← narrow .undefined stageId
  applyFuse stageId indices (s.push (.fuse stageId indices))

def pragma (stageId : Nat) (iter : Iterator) (pragmaType : String) (s : State) :
    Except Fault State := do
  let stage ← found .check s.stages[stageId]?
  let iterId ← narrow .undefined (← getIndex stage.iters iter)
  let stageId ← narrow .undefined stageId
  applyPragma stageId pragmaType (s.push (.pragma stageId iterId pragmaType))

def reorder (stageId : Nat) (order : List Iterator) (s : State) : Except Fault State := do
  let stage ← found .check s.stages[stageId]?
  ensure .check (order.length = stage.iters.length)
  let afterIds ← getIndices stage.iters order
  let stageId ← narrow .undefined stageId
  applyReorder stageId afterIds (s.push (.reorder stageId afterIds))

def constantExtent (iter : Iterator) : Option Int32 :=
  match iter.range with
  | some ⟨_, .imm value⟩ => some value
  | _ => none

def split (stageId : Nat) (iter : Iterator) (lengths : List (Option Int32)) (innerToOuter : Bool)
    (s : State) : Except Fault State := do
  let stage ← found .check s.stages[stageId]?
  let iterId ← narrow .undefined (← getIndex stage.iters iter)
  let stageId ← narrow .undefined stageId
  applySplit stageId iterId lengths innerToOuter
    (s.push (.split ⟨stageId, iterId, constantExtent iter, lengths, innerToOuter⟩))

def followSplit (stageId : Nat) (iter : Iterator) (srcStepId nSplit : Int32) (s : State) :
    Except Fault State := do
  let stage ← found .check s.stages[stageId]?
  let iterId ← narrow .undefined (← getIndex stage.iters iter)
  let stageId ← narrow .undefined stageId
  let s := s.push (.followSplit stageId iterId srcStepId nSplit)
  applySplit stageId iterId (← extractSplitLengths srcStepId nSplit s.transformSteps) true s

def followFusedSplit (stageId : Nat) (iter : Iterator) (srcStepIds : List Int32) (level : Int32)
    (factorOrNparts : Bool) (s : State) : Except Fault State := do
  let stage ← found .check s.stages[stageId]?
  let iterId ← narrow .undefined (← getIndex stage.iters iter)
  let stageId ← narrow .undefined stageId
  let s := s.push (.followFusedSplit stageId iterId srcStepIds level factorOrNparts)
  applySplit stageId iterId [← extractSplitLength level s.transformSteps 1 srcStepIds]
    factorOrNparts s

def storageAlign (stageId : Nat) (iter : Iterator) (factor offset : Int32) (s : State) :
    Except Fault State := do
  let stage ← found .check s.stages[stageId]?
  let iterId ← narrow .undefined (← getIndex stage.iters iter)
  let stageId ← narrow .undefined stageId
  applyStorageAlign stageId offset (s.push (.storageAlign stageId iterId factor offset))

def computeAt (stageId targetStageId : Nat) (targetIter : Iterator) (s : State) :
    Except Fault State := do
  let targetStage ← found .check s.stages[targetStageId]?
  let targetIterId ← narrow .undefined (← getIndex targetStage.iters targetIter)
  let stageId ← narrow .undefined stageId
  let targetStageId ← narrow .undefined targetStageId
  applyComputeAt stageId targetStageId targetIterId
    (s.push (.computeAt stageId targetStageId targetIterId))

def computeInline (stageId : Nat) (s : State) : Except Fault State := do
  let stageId ← narrow .undefined stageId
  applyComputeInline stageId (s.push (.computeInline stageId))

def computeRoot (stageId : Nat) (s : State) : Except Fault State := do
  let stageId ← narrow .undefined stageId
  applyComputeRoot stageId (s.push (.computeRoot stageId))

def splitCopy (fields : SplitFields) (s : State) : State :=
  applySplitCopy fields (s.push (.splitCopy fields))

def addPrompt (s : State) : State := s.push .prompt

def splitStart (s : State) : State := s.push .splitStart

def threadBindStart (s : State) : State := s.push .threadBindStart

def computeLocationStart (stageIds : List Nat) (s : State) : Except Fault State :=
  return s.push (.computeLocationStart (← stageIdArray stageIds))

def unrollStart (stageIds : List Nat) (s : State) : Except Fault State :=
  return s.push (.unrollStart (← stageIdArray stageIds))

def vectorizationStart (stageIds : List Nat) (s : State) : Except Fault State :=
  return s.push (.vectorizationStart (← stageIdArray stageIds))

section

variable (te : Te) (dag : ComputeDAG)

def cacheRead (stageId : Nat) (scopeName : String) (readerStageIds : List Int32) (s : State) :
    Except Fault State := do
  let stageId ← narrow .undefined stageId
  applyCacheRead te dag s.transformSteps.length stageId
    (s.push (.cacheRead stageId scopeName readerStageIds))

def cacheWrite (stageId : Nat) (scopeName : String) (s : State) : Except Fault State := do
  let stageId ← narrow .undefined stageId
  applyCacheWrite te dag s.transformSteps.length stageId (s.push (.cacheWrite stageId scopeName))

def rfactor (stageId : Nat) (iter : Iterator) (factorIterId : Int32) (s : State) :
    Except Fault State := do
  let stage ← found .check s.stages[stageId]?
  let iterId ← narrow .undefined (← getIndex stage.iters iter)
  let stageId ← narrow .undefined stageId
  applyRfactor te dag s.transformSteps.length stageId
    (s.push (.rfactor stageId iterId factorIterId))

end

end State

inductive Primitive where
  | bindIter (stageId : Nat) (iter : Iterator) (threadType : IteratorAnnotation)
  | parallel (stageId : Nat) (iter : Iterator)
  | unroll (stageId : Nat) (iter : Iterator) (maxUnroll : Int32)
  | vectorize (stageId : Nat) (iter : Iterator)
  | fuse (stageId : Nat) (iters : List Iterator)
  | pragma (stageId : Nat) (iter : Iterator) (pragmaType : String)
  | reorder (stageId : Nat) (order : List Iterator)
  | split (stageId : Nat) (iter : Iterator) (lengths : List (Option Int32)) (innerToOuter : Bool)
  | followSplit (stageId : Nat) (iter : Iterator) (srcStepId nSplit : Int32)
  | followFusedSplit (stageId : Nat) (iter : Iterator) (srcStepIds : List Int32) (level : Int32)
      (factorOrNparts : Bool)
  | storageAlign (stageId : Nat) (iter : Iterator) (factor offset : Int32)
  | computeAt (stageId targetStageId : Nat) (targetIter : Iterator)
  | computeInline (stageId : Nat)
  | computeRoot (stageId : Nat)
  | splitCopy (fields : SplitFields)
  | addPrompt
  | splitStart
  | threadBindStart
  | computeLocationStart (stageIds : List Nat)
  | unrollStart (stageIds : List Nat)
  | vectorizationStart (stageIds : List Nat)
  | cacheRead (stageId : Nat) (scopeName : String) (readerStageIds : List Int32)
  | cacheWrite (stageId : Nat) (scopeName : String)
  | rfactor (stageId : Nat) (iter : Iterator) (factorIterId : Int32)

def Primitive.apply (te : Te) (dag : ComputeDAG) (s : State) : Primitive → Except Fault State
  | .bindIter stageId iter threadType => Prod.fst <$> s.bindIter stageId iter threadType
  | .parallel stageId iter => Prod.fst <$> s.parallel stageId iter
  | .unroll stageId iter maxUnroll => Prod.fst <$> s.unroll stageId iter maxUnroll
  | .vectorize stageId iter => Prod.fst <$> s.vectorize stageId iter
  | .fuse stageId iters => Prod.fst <$> s.fuse stageId iters
  | .pragma stageId iter pragmaType => s.pragma stageId iter pragmaType
  | .reorder stageId order => s.reorder stageId order
  | .split stageId iter lengths innerToOuter => s.split stageId iter lengths innerToOuter
  | .followSplit stageId iter srcStepId nSplit => s.followSplit stageId iter srcStepId nSplit
  | .followFusedSplit stageId iter srcStepIds level factorOrNparts =>
    s.followFusedSplit stageId iter srcStepIds level factorOrNparts
  | .storageAlign stageId iter factor offset => s.storageAlign stageId iter factor offset
  | .computeAt stageId targetStageId targetIter => s.computeAt stageId targetStageId targetIter
  | .computeInline stageId => s.computeInline stageId
  | .computeRoot stageId => s.computeRoot stageId
  | .splitCopy fields => .ok (s.splitCopy fields)
  | .addPrompt => .ok s.addPrompt
  | .splitStart => .ok s.splitStart
  | .threadBindStart => .ok s.threadBindStart
  | .computeLocationStart stageIds => s.computeLocationStart stageIds
  | .unrollStart stageIds => s.unrollStart stageIds
  | .vectorizationStart stageIds => s.vectorizationStart stageIds
  | .cacheRead stageId scopeName readerStageIds =>
    s.cacheRead te dag stageId scopeName readerStageIds
  | .cacheWrite stageId scopeName => s.cacheWrite te dag stageId scopeName
  | .rfactor stageId iter factorIterId => s.rfactor te dag stageId iter factorIterId

inductive DeviceType where
  | cpu
  | cuda
  | openCL
  | vulkan
  | metal
  | rocm
  | openGL
  | other
  deriving DecidableEq, Repr

structure SearchTask where
  computeDag : ComputeDAG
  deviceType : DeviceType

def isGPUTask (task : SearchTask) : Bool :=
  match task.deviceType with
  | .cuda | .openCL | .vulkan | .metal | .rocm | .openGL => true
  | .cpu | .other => false

-- The parameters that the rules read with `GetIntParam`.
structure SketchPolicy where
  searchTask : SearchTask
  maxInnermostSplitFactor : Int32
  maxVectorizeSize : Int32
  disableChangeComputeLocation : Int32

abbrev RandGen := Nat → Nat

def draw (rand : RandGen) : Nat × RandGen :=
  (rand 0, fun n => rand (n + 1))

end Tlm.AutoScheduler
