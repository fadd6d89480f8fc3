import Tlm.AutoScheduler.SearchUtils
import Tlm.Shared.Cursor
import Mathlib.Algebra.GroupWithZero.Nat

set_option autoImplicit false

namespace Tlm.AutoScheduler

open Cpp

def fusibleFrom (policy : SketchPolicy) (s : State) (stageId : Nat) (stage : Stage) :
    Nat → Int64 → List Iterator → Except Fault Nat
  | numFusible, _, [] => .ok numFusible
  | numFusible, cumLengthProd, iter :: outer => do
      -- the position of `iter` is the number of iterators around it
      if (s.attachMap.iterToAttachedStages (stageId, outer.length)).isSome then return numFusible
      if iter.iterKind = .reduction || iter.annotationKind ≠ .none then return numFusible
      if (← isTiled stage) && numFusible ≠ 0 then return numFusible
      let cumLengthProd := cumLengthProd * iter.getExtent
      if policy.maxVectorizeSize.toInt64 < cumLengthProd then return numFusible
      fusibleFrom policy s stageId stage (numFusible + 1) cumLengthProd outer

def numFusible (policy : SketchPolicy) (s : State) (stageId : Nat) (stage : Stage) :
    Except Fault Nat :=
  if stage.computeAt = .inlined || stage.opType = .placeholder then .ok 0
  else fusibleFrom policy s stageId stage 0 1 stage.iters.reverse

def fusibleAt (policy : SketchPolicy) (s : State) (stageId : Nat) :
    Except Fault (List (Nat × Nat)) := do
  let stage ← found .check s.stages[stageId]?
  let count ← numFusible policy s stageId stage
  return if count = 0 then [] else [(stageId, count)]

def fusibleStages (policy : SketchPolicy) (s : State) : Except Fault (List (Nat × Nat)) :=
  concatM (fusibleAt policy s) (List.range s.stages.length)

def vectorizeLast (stageId : Nat) (stage : Stage) (s : State) : Except Fault State := do
  let iter ← found .check stage.iters.getLast?
  return (← s.vectorize stageId iter).1

-- The innermost `count` iterators. A range that begins before the array is undefined.
def innermost (stage : Stage) (count : Nat) : Except Fault (List Iterator) := do
  ensure .undefined (count ≤ stage.iters.length)
  return stage.iters.drop (stage.iters.length - count)

def fuseAndVectorize (stageId : Nat) (toFuse : List Iterator) (s : State) :
    Except Fault State := do
  let (s, iter) ← s.fuse stageId toFuse
  return (← s.vectorize stageId iter).1

def drawCount (count : Nat) (rand : RandGen) : Nat × RandGen :=
  if 1 < count then
    let (value, rand) := draw rand
    (1 + value % (count - 1), rand)
  else (count, rand)

def applyCount (stageId : Nat) (stage : Stage) (s : State) : Nat → Except Fault State
  | 0 => .ok s
  | 1 => vectorizeLast stageId stage s
  | count => do fuseAndVectorize stageId (← innermost stage count) s

def vectorizeStage (policy : SketchPolicy) (st : State × RandGen) (stageId : Nat) :
    Except Fault (State × RandGen) := do
  let (s, rand) := st
  let stage ← found .check s.stages[stageId]?
  let (count, rand) := drawCount (← numFusible policy s stageId stage) rand
  return (← applyCount stageId stage s count, rand)

def initVectorization (policy : SketchPolicy) (s : State) (rand : RandGen) :
    Except Fault (State × RandGen) := do
  let s ← s.vectorizationStart ((← fusibleStages policy s).map Prod.fst)
  (List.range s.stages.length).foldlM (vectorizeStage policy) (s, rand)

def decodeVectorize (stageId : Nat) (stage : Stage) (s : State) : Cursor State := do
  expectUnsigned stageId
  let iter ← raise (found .check stage.iters.getLast?)
  let iterId ← raise (getIndex stage.iters iter >>= fun index => narrow .undefined index)
  expectInt iterId
  expectInt IteratorAnnotation.vectorize.code
  raise (vectorizeLast stageId stage s)

def fuseVec : List String → Except Stop (List Int32 × List String)
  | [] => .error (.fault .outOfRange)
  | token :: rest =>
    if token = "AN" then .ok ([], rest)
    else do
      let value ← raise (stoi token)
      let (values, rest) ← fuseVec rest
      return (value :: values, rest)

def fuseSpan (first last : Int32) : Except Fault Nat := do
  let span := last.toInt - first.toInt + 1
  ensure .undefined (span ≤ 2 ^ 31)
  return span.toNat

def decodeFuse (stageId : Nat) (stage : Stage) (s : State) : Cursor State := do
  expectUnsigned stageId
  let values ← fuseVec
  match values with
  | first :: second :: rest =>
    let last := (second :: rest).getLast (by simp)
    require (first < last)
    expectUnsigned stageId
    let toFuse ← raise (fuseSpan first last >>= innermost stage)
    let (fused, iter) ← raise (s.fuse stageId toFuse)
    let fusedStage ← raise (found .check fused.stages[stageId]?)
    let iterId ← raise (getIndex fusedStage.iters iter >>= fun index => narrow .undefined index)
    expectInt iterId
    expectInt IteratorAnnotation.vectorize.code
    raise (Prod.fst <$> fused.vectorize stageId iter)
  | _ => throw .leave

def decodeGroup (stageId : Nat) (stage : Stage) (s : State) : Cursor State := do
  let stepname ← nextToken
  if stepname = "AN" then decodeVectorize stageId stage s
  else if stepname = "FU" then decodeFuse stageId stage s
  else throw .leave

def decodeVectorization (policy : SketchPolicy) (st : State × List String) (stageId : Nat) :
    Except Stop (State × List String) := do
  let (s, tokens) := st
  let stage ← outside (found .check s.stages[stageId]?)
  if (← outside (numFusible policy s stageId stage)) = 0 then return st
  decodeGroup stageId stage s tokens

def decodeVectorizations (policy : SketchPolicy) (s : State) (tokens : List String) :
    Except Fault (Option State) := do
  let walked ← guarded ((List.range s.stages.length).foldlM (decodeVectorization policy) (s, tokens))
  return walked.map Prod.fst

def promptVectorization (policy : SketchPolicy) (s : State) : Except Fault (State × Nat) := do
  let stages ← fusibleStages policy s
  return (← s.vectorizationStart (stages.map Prod.fst), (stages.map fun (_, count) => count + 6).sum)

def initVectorizationTokens (policy : SketchPolicy) (states : List State) (genFunc : GenFunc) :
    Except Fault (List State) :=
  tokenRule (promptVectorization policy) (decodeVectorizations policy) states genFunc

end Tlm.AutoScheduler
