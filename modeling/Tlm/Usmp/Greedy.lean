import Mathlib.Data.List.AList
import Tlm.Shared.Sorting
import Tlm.Shared.Traced

set_option autoImplicit false

namespace Tlm.Usmp

open Cpp

inductive Event where
  -- A number changed when it was converted, or a sum of sizes wrapped.
  | wrapped
  -- A pool of the buffer came back that an earlier conflict had ruled out.
  | reopened
  deriving DecidableEq, Repr

abbrev Planning := Traced Fault Event

def note (event : Event) (fine : Prop) [Decidable fine] : Planning Unit :=
  if fine then pure () else Traced.emit event

def sizeT (z : Int) : Planning Nat := do
  note .wrapped (0 ≤ z ∧ z < 2 ^ 64)
  return (z % 2 ^ 64).toNat

def int32 (z : Int) : Planning Int := do
  note .wrapped (-2 ^ 31 ≤ z ∧ z < 2 ^ 31)
  return z.bmod (2 ^ 32)

def addInt64 (a b : Int) : Planning Int :=
  if -2 ^ 63 ≤ a + b ∧ a + b < 2 ^ 63 then return a + b else Traced.fail .undefined

structure Objects (Pool Buffer : Type) where
  sizeHintBytes : Pool → Int
  nameHint : Buffer → String
  sizeBytes : Buffer → Int
  poolCandidates : Buffer → List Pool
  alignment : Buffer → Int
  conflicts : Buffer → List Buffer

structure PoolAllocation (Pool : Type) where
  poolInfo : Pool
  byteOffset : Int
  deriving DecidableEq, Repr

abbrev PoolOffsets (Pool : Type) := AList fun _ : Pool => Nat

abbrev Allocations (Pool Buffer : Type) := AList fun _ : Buffer => PoolAllocation Pool

def kUnrestrictedPoolSizeHint : Int := -1

def roundUpToByteAlignment (nonAlignedByteOffset : Nat) (byteAlignment : Int) : Planning Nat := do
  let unit ← sizeT byteAlignment
  let raised ← sizeT (nonAlignedByteOffset + unit - 1)
  if unit = 0 then Traced.fail .undefined else return raised / unit * unit

section

variable {Pool Buffer : Type} [DecidableEq Pool] [DecidableEq Buffer] (objects : Objects Pool Buffer)

def isValidPlacement (candidatePool : Pool) (nextOffset sizeBytes : Nat) : Planning Bool :=
  if objects.sizeHintBytes candidatePool = kUnrestrictedPoolSizeHint then return true
  else do
    let poolSize ← sizeT (objects.sizeHintBytes candidatePool)
    let maxAddress ← sizeT (nextOffset + sizeBytes)
    return maxAddress ≤ poolSize

def selectPlacementPool (bufInfo : Buffer) (poolOffsets : PoolOffsets Pool) : Planning Pool :=
  match (objects.poolCandidates bufInfo).find? fun pool => (poolOffsets.lookup pool).isSome with
  | some pool => return pool
  | none => Traced.fail .check

def initialOffsets (bufInfo : Buffer) : Planning (PoolOffsets Pool) :=
  (objects.poolCandidates bufInfo).foldlM (fun offsets pool => do
    let valid ← isValidPlacement objects pool 0 (← sizeT (objects.sizeBytes bufInfo))
    return if valid then offsets.insert pool 0 else offsets) ∅

def nextOffset (conflict : Buffer) (byteOffset : Int) : Planning Nat := do
  let stop ← sizeT (← addInt64 byteOffset (objects.sizeBytes conflict))
  roundUpToByteAlignment stop (← int32 (objects.alignment conflict))

def avoidConflict (bufInfo : Buffer) (allocations : Allocations Pool Buffer)
    (offsets : PoolOffsets Pool) (conflict : Buffer) : Planning (PoolOffsets Pool) :=
  match allocations.lookup conflict with
  | none => return offsets
  | some ⟨pool, byteOffset⟩ => do
    let next ← nextOffset objects conflict byteOffset
    let valid ← isValidPlacement objects pool next (← sizeT (objects.sizeBytes bufInfo))
    if valid then
      -- `operator[]` enters a pool that is missing, with the offset zero.
      note .reopened (pool ∈ objects.poolCandidates bufInfo → (offsets.lookup pool).isSome)
      return offsets.insert pool (max ((offsets.lookup pool).getD 0) next)
    else return offsets.erase pool

def allocate (allocations : Allocations Pool Buffer) (bufInfo : Buffer) :
    Planning (Allocations Pool Buffer) := do
  let initial ← initialOffsets objects bufInfo
  let offsets ← (objects.conflicts bufInfo).foldlM (avoidConflict objects bufInfo allocations) initial
  let selected ← selectPlacementPool objects bufInfo offsets
  let byteOffset ← int32 ((offsets.lookup selected).getD 0)
  return allocations.insert bufInfo ⟨selected, byteOffset⟩

def postSortAllocation (bufferInfoVec : List Buffer) : Planning (Allocations Pool Buffer) :=
  bufferInfoVec.foldlM (allocate objects) ∅

def sizeFirst (a b : Buffer) : Bool :=
  if objects.sizeBytes a = objects.sizeBytes b then
    if (objects.conflicts a).length = (objects.conflicts b).length then
      objects.nameHint b < objects.nameHint a
    else (objects.conflicts b).length < (objects.conflicts a).length
  else objects.sizeBytes b < objects.sizeBytes a

def conflictsFirst (a b : Buffer) : Bool :=
  if (objects.conflicts a).length = (objects.conflicts b).length then
    if objects.sizeBytes a = objects.sizeBytes b then objects.nameHint b < objects.nameHint a
    else objects.sizeBytes b < objects.sizeBytes a
  else (objects.conflicts b).length < (objects.conflicts a).length

variable (sorting : Sorting)

def greedyBySize (bufferInfoArr : List Buffer) : Planning (Allocations Pool Buffer) :=
  postSortAllocation objects (sorting.sort (sizeFirst objects) bufferInfoArr)

def greedyByConflicts (bufferInfoArr : List Buffer) : Planning (Allocations Pool Buffer) :=
  postSortAllocation objects (sorting.sort (conflictsFirst objects) bufferInfoArr)

end

end Tlm.Usmp
