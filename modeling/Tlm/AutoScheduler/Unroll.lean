import Tlm.AutoScheduler.SearchUtils
import Tlm.Shared.Cursor

set_option autoImplicit false

namespace Tlm.AutoScheduler

open Cpp

def autoUnrollConfigs (task : SearchTask) : List Int32 :=
  if isGPUTask task then [0, 16, 64, 512, 1024] else [0, 16, 64, 512]

-- The parts of a name between the marks of fuse and split, split numbers left out.
def extractOriginalIterators (name : String) : List String :=
  let parts := (name.toList.splitOnP fun c => c = '@' ∨ c = '.').filter fun part =>
    part.head?.any fun c => !c.isDigit
  (parts.map String.ofList).eraseDups

def unrollTargets (names : List String) : List String → List Iterator → List Iterator
  | _, [] => []
  | visitedNames, iter :: rest =>
    let name := extractOriginalIterators iter.name
    let visited := name ∪ visitedNames
    if visited.length = visitedNames.length then []
    else if name.length = 1 && name.all (· ∈ names) && iter.annotationKind = .none then
      iter :: unrollTargets names visited rest
    else unrollTargets names visited rest

-- The loop looks at the stage as it was before the first of its iterators is unrolled.
def innerTargets (stage : Stage) : List Iterator :=
  match stage.op.alwaysUnrollInner with
  | none => []
  | some names => unrollTargets names [] stage.iters.reverse

def unrollInner (stageId : Nat) (stage : Stage) (s : State) : Except Fault State :=
  (innerTargets stage).foldlM (fun s iter => Prod.fst <$> s.unroll stageId iter (-1)) s

def skipsUnroll (stage : Stage) : Bool :=
  stage.computeAt = .inlined || stage.opType = .placeholder

def unrollStageIds (s : State) : List Nat :=
  (List.range s.stages.length).filter fun stageId =>
    s.stages[stageId]?.any fun stage => !skipsUnroll stage && hasReduceIter stage

def outermostIter (stageId : Nat) (s : State) : Except Fault Iterator := do
  let stage ← found .check s.stages[stageId]?
  found .check stage.iters[0]?

def unrollPragma (limit : Int32) : String :=
  "auto_unroll_max_step" ++ "$" ++ toString limit.toInt

def drawLimit (policy : SketchPolicy) (stageId : Nat) (s : State) (rand : RandGen) :
    Except Fault (State × RandGen) := do
  let configs := autoUnrollConfigs policy.searchTask
  let (value, rand) := draw rand
  let limit ← found .undefined configs[value % configs.length]?
  return (← s.pragma stageId (← outermostIter stageId s) (unrollPragma limit), rand)

def unrollStage (policy : SketchPolicy) (st : State × RandGen) (stageId : Nat) :
    Except Fault (State × RandGen) := do
  let (s, rand) := st
  let stage ← found .check s.stages[stageId]?
  if skipsUnroll stage then return st
  let s ← unrollInner stageId stage s
  if hasReduceIter stage then drawLimit policy stageId s rand else return (s, rand)

def initUnroll (policy : SketchPolicy) (s : State) (rand : RandGen) :
    Except Fault (State × RandGen) := do
  let s ← s.unrollStart (unrollStageIds s)
  (List.range s.stages.length).foldlM (unrollStage policy) (s, rand)

def limitText (pragmaType : String) : Except Fault String := do
  let start := "auto_unroll_max_step$".length
  ensure .outOfRange (start ≤ pragmaType.length)
  return .ofList (pragmaType.toList.drop start)

def decodeLimit (policy : SketchPolicy) (stageId : Nat) (iterId : Int32) (s : State) :
    Cursor State := do
  expectToken "PR"
  expectUnsigned stageId
  expectInt iterId
  let pragmaType ← nextToken
  let limit ← raise (limitText pragmaType >>= stoi)
  require (limit ∈ autoUnrollConfigs policy.searchTask)
  raise (do s.pragma stageId (← outermostIter stageId s) pragmaType)

-- The iterator is looked up in the stage as it was before the loop above.
def decodeUnroll (policy : SketchPolicy) (st : State × List String) (stageId : Nat) :
    Except Stop (State × List String) := do
  let (s, tokens) := st
  let stage ← outside (found .check s.stages[stageId]?)
  if skipsUnroll stage then return st
  let s ← outside (unrollInner stageId stage s)
  if hasReduceIter stage then
    let index ← outside (outermostIter stageId s >>= getIndex stage.iters)
    let iterId ← outside (narrow .undefined index)
    decodeLimit policy stageId iterId s tokens
  else return (s, tokens)

def decodeUnrolls (policy : SketchPolicy) (s : State) (tokens : List String) :
    Except Fault (Option State) := do
  let walked ← guarded ((List.range s.stages.length).foldlM (decodeUnroll policy) (s, tokens))
  return walked.map Prod.fst

def promptUnroll (s : State) : Except Fault (State × Nat) := do
  let stageIds := unrollStageIds s
  return (← s.unrollStart stageIds, 4 * stageIds.length)

def initUnrollTokens (policy : SketchPolicy) (states : List State) (genFunc : GenFunc) :
    Except Fault (List State) :=
  tokenRule promptUnroll (decodeUnrolls policy) states genFunc

end Tlm.AutoScheduler
