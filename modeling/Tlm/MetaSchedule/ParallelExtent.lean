import Mathlib.Algebra.Order.Ring.Int
import Tlm.Shared.Fault
import Tlm.Shared.UpperBound

set_option autoImplicit false

namespace Tlm.MetaSchedule

open Cpp

inductive IterVarType where
  | dataPar
  | commReduce
  | opaqueAxis
  deriving DecidableEq, Repr

structure Loop where
  extent : Option Int
  -- The loop variable is in `non_spatial_vars`.
  nonSpatial : Bool
  iterType : IterVarType
  threadBinding : Bool
  annotated : Bool
  singleStmt : Bool
  deriving DecidableEq, Repr

def scale (prodExtent extent : Int) : Except Fault Int :=
  if -2 ^ 63 ≤ prodExtent * extent ∧ prodExtent * extent < 2 ^ 63 then .ok (prodExtent * extent)
  else .error .undefined

def Loop.spatialExtent (loop : Loop) : Int :=
  if loop.nonSpatial then -1 else loop.extent.getD (-1)

-- From the innermost loop to the outermost; `loop_extents` starts again behind other loops.
def loopExtents (loops : List Loop) : List Int :=
  loops.reverse.foldl (fun extents loop =>
    if loop.spatialExtent = -1 then [] else extents ++ [loop.spatialExtent]) []

def prefixProducts (limit : Int) : List Int → Int → Except Fault (List Int)
  | [], _ => .ok []
  | extent :: rest, prodExtent => do
    let prodExtent ← scale prodExtent extent
    if limit ≤ prodExtent then return [prodExtent]
    else return prodExtent :: (← prefixProducts limit rest prodExtent)

def analyzeParallel (realizes : List (List Loop)) (limit : Int) : Except Fault (List (List Int)) :=
  (realizes.filter fun loops => loopExtents loops ≠ []).mapM fun loops =>
    prefixProducts limit (loopExtents loops).reverse 1

def numFused (limit : Int) (prods : List Int) : Nat :=
  let n := prods.length
  let i := upperBound prods limit
  let i := if 0 < i ∧ prods.getD (i - 1) limit = limit then i - 1 else i
  if i ≠ n then i + 1 else i

def getNumFusedLoops (loopExtentProds : List (List Int)) (limit : Int) : List Nat :=
  loopExtentProds.map (numFused limit)

structure ParsedAnnotation where
  maxParallelExtent : Int
  maxVectorizeExtent : Int
  unrollExplicit : Int
  unrollImplicit : Int
  numParallelLoops : Int
  numVectorizeLoops : Int
  deriving DecidableEq, Repr

inductive AnnotationKey where
  | parallel
  | vectorize
  | unrollExplicit
  | unrollImplicit
  | other
  deriving DecidableEq, Repr

-- A key and its value, where that is an `IntImm`.
abbrev Annotation := AnnotationKey × Option Int

-- `imm->value` in an `int`; without an `IntImm` the field stays.
def immOr (field : Int) (imm : Option Int) : Int :=
  (imm.map (Int.bmod · (2 ^ 32))).getD field

def ParsedAnnotation.set (parsed : ParsedAnnotation) : Annotation → ParsedAnnotation
  | (.parallel, imm) => { parsed with maxParallelExtent := immOr parsed.maxParallelExtent imm }
  | (.vectorize, imm) => { parsed with maxVectorizeExtent := immOr parsed.maxVectorizeExtent imm }
  | (.unrollExplicit, imm) => { parsed with unrollExplicit := immOr parsed.unrollExplicit imm }
  | (.unrollImplicit, imm) => { parsed with unrollImplicit := immOr parsed.unrollImplicit imm }
  | (.other, _) => parsed

-- The second component says whether there was one of the four keys.
def parseAnnotation (annotations : List Annotation) : ParsedAnnotation × Bool :=
  (annotations.foldl ParsedAnnotation.set ⟨-1, -1, -1, -1, -1, -1⟩,
    annotations.any fun annotation => annotation.1 ≠ .other)

structure Nest where
  loops : List Loop
  accesses : List (Nat → Int)

def Loop.hasAnnOrBinding (loop : Loop) : Bool :=
  loop.threadBinding || loop.annotated

def Loop.rewritable (loop : Loop) : Bool :=
  !loop.hasAnnOrBinding && loop.iterType = .dataPar && loop.singleStmt && loop.extent.isSome

def calculateNumRewritableLoops (loops : List Loop) : Nat :=
  loops.countP Loop.rewritable

-- From the innermost loop outwards; `prevUsed` is the stride and the loop of `prev_used_iter`.
def fusibleFrom : List (Int × Loop) → (fusible : Int) → (prevUsed : Option (Int × Loop)) →
    Except Fault Int
  | [], fusible, _ => .ok fusible
  | (stride, loop) :: rest, fusible, prevUsed =>
    if stride = 0 then fusibleFrom rest (fusible + 1) prevUsed
    else
      match prevUsed with
      | none =>
        if stride ≠ 1 ∧ fusible ≠ 0 then .ok fusible
        else fusibleFrom rest (fusible + 1) (some (stride, loop))
      | some (prevStride, prevLoop) =>
        match prevLoop.extent with
        | none => .error .undefined
        | some extent =>
          if stride = prevStride * extent then
            fusibleFrom rest (fusible + 1) (some (stride, loop))
          else .ok fusible

def Nest.maxFusible (nest : Nest) : Except Fault Int :=
  nest.accesses.foldlM (fun maxFusible access => do
    let strided := nest.loops.zipIdx.map fun (loop, i) => (access i, loop)
    return min maxFusible (← fusibleFrom strided.reverse 0 none)) (2 ^ 31 - 1)

def parallelFrom (maxExtent : Int) :
    List Loop → (numFusible prodExtent : Int) → Except Fault (Int × Int)
  | [], numFusible, prodExtent => .ok (numFusible, prodExtent)
  | loop :: rest, numFusible, prodExtent =>
    if loop.iterType ≠ .dataPar ∨ loop.hasAnnOrBinding then .ok (numFusible, prodExtent)
    else
      match loop.extent with
      | none => .ok (numFusible, prodExtent)
      | some extent => do
        let prodExtent ← scale prodExtent extent
        if maxExtent < prodExtent ∨ loop.singleStmt = false then
          return (numFusible + 1, prodExtent)
        else parallelFrom maxExtent rest (numFusible + 1) prodExtent

def vectorizeFrom (maxExtent maxFusible : Int) :
    List Loop → (numFusible prodExtent : Int) → Except Fault (Int × Int)
  | [], numFusible, prodExtent => .ok (numFusible, prodExtent)
  | loop :: rest, numFusible, prodExtent =>
    if loop.iterType ≠ .dataPar ∨ maxFusible ≤ numFusible ∨ loop.hasAnnOrBinding ∨
        loop.singleStmt = false then
      .ok (numFusible, prodExtent)
    else
      match loop.extent with
      | none => .ok (numFusible, prodExtent)
      | some extent => do
        let prodExtent ← scale prodExtent extent
        if maxExtent < prodExtent then return (numFusible, prodExtent)
        else vectorizeFrom maxExtent maxFusible rest (numFusible + 1) prodExtent

def decided (result : Int × Int) : Int :=
  if result.2 = 1 then -1 else result.1

def Nest.numParallel (nest : Nest) (parsed : ParsedAnnotation) : Except Fault Int :=
  if parsed.maxParallelExtent = -1 then .ok parsed.numParallelLoops
  else do return decided (← parallelFrom parsed.maxParallelExtent nest.loops 0 1)

def Nest.numVectorize (nest : Nest) (maxFusible : Int) (parsed : ParsedAnnotation) :
    Except Fault Int :=
  if parsed.maxVectorizeExtent = -1 then .ok parsed.numVectorizeLoops
  else do
    return decided (← vectorizeFrom parsed.maxVectorizeExtent maxFusible nest.loops.reverse 0 1)

def Nest.combine (nest : Nest) (maxFusible : Int) (parsed : ParsedAnnotation) : ParsedAnnotation :=
  let nLoops : Int := nest.loops.length
  if parsed.numParallelLoops ≠ -1 ∧ parsed.numVectorizeLoops ≠ -1 then
    if calculateNumRewritableLoops nest.loops = nLoops ∧ maxFusible = nLoops then
      { parsed with numParallelLoops := nLoops, numVectorizeLoops := nLoops }
    else
      { parsed with
        numParallelLoops := min parsed.numParallelLoops (nLoops - parsed.numVectorizeLoops) }
  else parsed

def adjustParallelVectorize (nest : Nest) (parsed : ParsedAnnotation) :
    Except Fault ParsedAnnotation :=
  if parsed.maxParallelExtent = -1 ∧ parsed.maxVectorizeExtent = -1 then .ok parsed
  else if nest.loops = [] then
    .ok { parsed with maxParallelExtent := -1, maxVectorizeExtent := -1 }
  else do
    let maxFusible ← nest.maxFusible
    let numParallelLoops ← nest.numParallel parsed
    let numVectorizeLoops ← nest.numVectorize maxFusible parsed
    return nest.combine maxFusible { parsed with numParallelLoops, numVectorizeLoops }

end Tlm.MetaSchedule
