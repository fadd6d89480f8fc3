import Mathlib.Algebra.GroupWithZero.Nat
import Tlm.Usmp.Greedy

set_option autoImplicit false

namespace Tlm.Usmp.HillClimb

open Cpp

abbrev AllocMap (Pool Buffer : Type) := Allocations (Option Pool) Buffer

abbrev Positions (Buffer : Type) := AList fun _ : Buffer => Nat

def wrapSize (z : Int) : Nat :=
  (z % 2 ^ 64).toNat

section

variable {Pool Buffer : Type} [DecidableEq Pool] [DecidableEq Buffer] (objects : Objects Pool Buffer)

def fitAround (bufInfo : Buffer) (allocations : AllocMap Pool Buffer) (offsets : PoolOffsets Pool)
    (conflict : Buffer) : Planning (PoolOffsets Pool) :=
  match allocations.lookup conflict with
  | some ⟨some pool, byteOffset⟩ =>
    match offsets.lookup pool with
    | none => return offsets
    | some offset => do
      let next ← nextOffset objects conflict byteOffset
      let size ← sizeT (objects.sizeBytes bufInfo)
      let valid ← isValidPlacement objects pool next size
      if valid then
        if offset < next then
          -- The earlier place clashes with the conflict.
          let stop ← sizeT (offset + size)
          let start ← sizeT byteOffset
          return if start < stop then offsets.insert pool next else offsets
        else return offsets
      else return offsets.erase pool
  | _ => return offsets

variable (sorting : Sorting)

def byteOffset (allocations : AllocMap Pool Buffer) (buffer : Buffer) : Int :=
  ((allocations.lookup buffer).map (·.byteOffset)).getD 0

def bufConf (allocations : AllocMap Pool Buffer) (bufInfo : Buffer) : List Buffer :=
  sorting.sort (fun a b => decide (byteOffset allocations a < byteOffset allocations b))
    ((objects.conflicts bufInfo).filter fun c => (allocations.lookup c).isSome)

def allocate : AllocMap Pool Buffer × Bool → Buffer → Planning (AllocMap Pool Buffer × Bool)
  | (allocations, couldNotFit), bufInfo => do
    let initial ← initialOffsets objects bufInfo
    let offsets ←
      (bufConf objects sorting allocations bufInfo).foldlM (fitAround objects bufInfo allocations) initial
    match (objects.poolCandidates bufInfo).find? fun pool => (offsets.lookup pool).isSome with
    | none => return (allocations.insert bufInfo ⟨none, 0⟩, true)
    | some pool =>
      let byteOffset ← int32 ((offsets.lookup pool).getD 0)
      return (allocations.insert bufInfo ⟨some pool, byteOffset⟩, couldNotFit)

def greedy (bufferInfoVec : List Buffer) : Planning (AllocMap Pool Buffer × Bool) :=
  bufferInfoVec.foldlM (allocate objects sorting) (∅, false)

def highAddress (buffer : Buffer) (byteOffset : Int) : Planning Nat :=
  wrapSize <$> addInt64 byteOffset (objects.sizeBytes buffer)

def findHighest (allocations : AllocMap Pool Buffer) : Planning (PoolOffsets Pool) :=
  allocations.entries.foldlM (fun sizes entry =>
    match entry.2.poolInfo with
    | none => return sizes
    | some pool => do
      let high ← highAddress objects entry.1 entry.2.byteOffset
      return sizes.insert pool (max ((sizes.lookup pool).getD 0) high)) ∅

def maxPoolBuf (allocations : AllocMap Pool Buffer) (sizes : PoolOffsets Pool) :
    Planning (List Buffer) :=
  allocations.entries.foldlM (fun found entry =>
    match entry.2.poolInfo with
    | none => return found
    | some pool => do
      let high ← highAddress objects entry.1 entry.2.byteOffset
      return if (sizes.lookup pool).getD 0 = high then found ++ [entry.1] else found) []

def position (posMap : Positions Buffer) (buffer : Buffer) : Planning Nat :=
  match posMap.lookup buffer with
  | some index => return index
  | none => Traced.fail .check

def collectNeighborLists (posMap : Positions Buffer) (buffer : Buffer) :
    Planning (List Buffer × List Buffer) := do
  let bufPos ← position posMap buffer
  (objects.conflicts buffer).foldlM (fun levels c1 => do
    let c1Pos ← position posMap c1
    let second ← (objects.conflicts c1).foldlM (fun second c2 => do
      let c2Pos ← position posMap c2
      return if c2Pos < c1Pos then second ++ [c2] else second) levels.2
    return (if c1Pos < bufPos then levels.1 ++ [c1] else levels.1, second)) ([], [])

def sortByPosition (posMap : Positions Buffer) (buffers : List Buffer) : List Buffer :=
  sorting.sort (fun a b => decide ((posMap.lookup a).getD 0 < (posMap.lookup b).getD 0)) buffers

variable (random : Nat → Nat)

def choose (buffers : List Buffer) (draw : Nat) : Planning Buffer :=
  match buffers[random draw % buffers.length]? with
  | some buffer => return buffer
  | none => Traced.fail .undefined

-- Draws until another buffer is found. The loop has no bound in the source.
def pickSecond (firstLevel secondLevel : List Buffer) (swapBuf1 : Buffer) :
    Nat → Nat → Planning (Buffer × Nat)
  | 0, _ => Traced.fail .undefined
  | fuel + 1, draw => do
    let useSecond := !secondLevel.isEmpty && (25 < random draw % 100)
    let draw := if secondLevel.isEmpty then draw else draw + 1
    let swapBuf2 ← choose random (if useSecond then secondLevel else firstLevel) draw
    if (secondLevel.length < 2 ∧ firstLevel.length < 2) ∨ swapBuf2 ≠ swapBuf1 then
      return (swapBuf2, draw + 1)
    else pickSecond firstLevel secondLevel swapBuf1 fuel (draw + 1)

structure Climb (Pool Buffer : Type) where
  bufferInfoVec : List Buffer
  posMap : Positions Buffer
  totalSize : Nat
  -- Missing as long as both are -1.
  swap : Option (Nat × Nat)
  poolAllocations : AllocMap Pool Buffer
  resultPoolAllocations : AllocMap Pool Buffer
  draws : Nat

def swapBuffers (i1 i2 : Nat) (climb : Climb Pool Buffer) : Planning (Climb Pool Buffer) :=
  if i1 = i2 then return climb
  else
    match climb.bufferInfoVec[i1]?, climb.bufferInfoVec[i2]? with
    | some b1, some b2 =>
      return { climb with
        bufferInfoVec := (climb.bufferInfoVec.set i1 b2).set i2 b1
        posMap := (climb.posMap.insert b1 i2).insert b2 i1 }
    | _, _ => Traced.fail .undefined

def rollback (previous : AllocMap Pool Buffer) (climb : Climb Pool Buffer) :
    Planning (Climb Pool Buffer) :=
  match climb.swap with
  | none => return { climb with poolAllocations := previous }
  | some (i1, i2) => swapBuffers i2 i1 { climb with poolAllocations := previous }

variable (fuel : Nat)

def permute (climb : Climb Pool Buffer) : Planning (Climb Pool Buffer) := do
  let sizes ← findHighest objects climb.poolAllocations
  let highest ← maxPoolBuf objects climb.poolAllocations sizes
  if highest.isEmpty then Traced.fail .check
  else
    let node ← choose random (sortByPosition sorting climb.posMap highest) climb.draws
    let levels ← collectNeighborLists objects climb.posMap node
    let firstLevel := sortByPosition sorting climb.posMap levels.1
    let secondLevel := sortByPosition sorting climb.posMap levels.2
    if firstLevel.isEmpty then return { climb with draws := climb.draws + 1 }
    else
      let swapBuf1 ← choose random firstLevel (climb.draws + 1)
      let (swapBuf2, draws) ←
        pickSecond random firstLevel secondLevel swapBuf1 fuel (climb.draws + 2)
      if swapBuf1 = swapBuf2 then return { climb with draws := draws }
      else
        let i1 ← position climb.posMap swapBuf1
        let i2 ← position climb.posMap swapBuf2
        swapBuffers i1 i2 { climb with draws := draws, swap := some (i1, i2) }

def tolerated (total totalSize attempts draw : Nat) : Bool :=
  ((draw % 100 : Nat) : Int) < Int.bmod ((50 * (total - totalSize)) % 2 ^ 64 / total / attempts : Nat) (2 ^ 32)

def attempt (desiredBytes attempts : Nat) (climb : Climb Pool Buffer) :
    Planning (Climb Pool Buffer × Bool) := do
  let (allocations, couldNotFit) ← greedy objects sorting climb.bufferInfoVec
  let sizes ← findHighest objects allocations
  if sizes.entries.isEmpty then Traced.fail .check
  else
    let total := (sizes.entries.map (·.2)).sum % 2 ^ 64
    let asks := climb.totalSize ≠ 0 ∧ couldNotFit = false ∧ climb.totalSize ≤ total
    let accepted := climb.totalSize = 0 ∨ couldNotFit = false ∧
      (total < climb.totalSize ∨ tolerated total climb.totalSize attempts (random climb.draws))
    let drawn := { climb with draws := if asks then climb.draws + 1 else climb.draws }
    if accepted then
      let kept := { drawn with
        poolAllocations := allocations
        resultPoolAllocations := allocations
        totalSize := if couldNotFit then climb.totalSize else total }
      if couldNotFit = false ∧ total ≤ desiredBytes then return (kept, true)
      else return (← permute objects sorting random fuel kept, false)
    else
      let back ← rollback climb.poolAllocations drawn
      return (← permute objects sorting random fuel back, false)

def climbOn (desiredBytes : Nat) : Nat → Nat → Climb Pool Buffer → Planning (AllocMap Pool Buffer)
  | 0, _, climb => return climb.resultPoolAllocations
  | left + 1, attempts, climb => do
    let (next, reached) ← attempt objects sorting random fuel desiredBytes attempts climb
    if reached then return next.resultPoolAllocations
    else climbOn desiredBytes left (attempts + 1) next

def checked (plan : Allocations Pool Buffer) (entry : (_ : Buffer) × PoolAllocation (Option Pool)) :
    Planning (Allocations Pool Buffer) :=
  match entry.2.poolInfo with
  | none => Traced.fail .check
  | some pool => do
    let valid ← isValidPlacement objects pool (← sizeT entry.2.byteOffset)
      (← sizeT (objects.sizeBytes entry.1))
    if valid then return plan.insert entry.1 ⟨pool, entry.2.byteOffset⟩ else Traced.fail .check

def maxAttempts : Nat := 500

def initialClimb (vec : List Buffer) : Climb Pool Buffer where
  bufferInfoVec := vec
  posMap := vec.zipIdx.foldl (fun posMap entry => posMap.insert entry.1 entry.2) ∅
  totalSize := 0
  swap := none
  poolAllocations := ∅
  resultPoolAllocations := ∅
  draws := 0

def hillClimb (memoryPressure : Int) (bufferInfoArr : List Buffer) :
    Planning (Allocations Pool Buffer) :=
  if bufferInfoArr.isEmpty then return ∅
  else if bufferInfoArr.any fun b => (objects.poolCandidates b).isEmpty then Traced.fail .check
  else do
    let vec := sorting.sort (sizeFirst objects) bufferInfoArr
    let result ← climbOn objects sorting random fuel (wrapSize memoryPressure) maxAttempts 0
      (initialClimb vec)
    result.entries.foldlM (checked objects) ∅

end

end Tlm.Usmp.HillClimb
