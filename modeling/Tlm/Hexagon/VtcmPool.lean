import Tlm.Shared.Fault
import Tlm.Shared.Segments

set_option autoImplicit false

namespace Tlm.Hexagon

open Cpp Segments

structure HexagonVtcmPool where
  allocations : List Segment
  freeList : List Segment
  deriving DecidableEq, Repr

namespace HexagonVtcmPool

def create (vtcmData vtcmAllocatedSize : Nat) : HexagonVtcmPool where
  allocations := []
  freeList := [⟨vtcmData, vtcmAllocatedSize⟩]

def bestFit (nbytes : Nat) : Segment × Nat → List (Segment × Nat) → Segment × Nat
  | entry, [] => entry
  | entry, it :: later =>
    if (entry.1.length < nbytes ∨ it.1.length < entry.1.length) ∧ nbytes ≤ it.1.length then
      if it.1.length = nbytes then it else bestFit nbytes it later
    else bestFit nbytes entry later

def allocateFromEnd (pool : HexagonVtcmPool) (nbytes : Nat) (last : Segment) :
    Except Fault (Nat × HexagonVtcmPool) := do
  ensure .check (nbytes ≤ last.length)
  let ptr := last.start + (last.length - nbytes)
  let left : Segment := ⟨last.start, last.length - nbytes⟩
  return (ptr, {
    allocations := pool.allocations ++ [⟨ptr, nbytes⟩]
    freeList := pool.freeList.dropLast ++ left.toList })

def allocateFromFront (pool : HexagonVtcmPool) (nbytes : Nat) (entry : Segment) (index : Nat) :
    Except Fault (Nat × HexagonVtcmPool) := do
  ensure .check (nbytes ≤ entry.length)
  return (entry.start, {
    allocations := pool.allocations ++ [⟨entry.start, nbytes⟩]
    freeList :=
      if entry.length = nbytes then pool.freeList.eraseIdx index
      else pool.freeList.set index ⟨entry.start + nbytes, entry.length - nbytes⟩ })

def allocate (pool : HexagonVtcmPool) (nbytes : Nat) : Except Fault (Nat × HexagonVtcmPool) := do
  let first ← found .check pool.freeList.head?
  let last ← found .check pool.freeList.getLast?
  ensure .check (0x80 ≤ nbytes)
  -- A size that is no multiple of a 2k block is taken from the end, to avoid fragmentation.
  if nbytes % 0x800 ≠ 0 then allocateFromEnd pool nbytes last
  else
    let entry := bestFit nbytes (first, 0) pool.freeList.zipIdx
    allocateFromFront pool nbytes entry.1 entry.2

def joinNext (block : Segment) : List Segment → Except Fault (Segment × List Segment)
  | [] => return (block, [])
  | next :: later => do
    ensure .check (block.start ≠ next.start)
    ensure .check (block.stop ≤ next.start)
    return if block.stop = next.start then (block.join next, later)
      else (block, next :: later)

def joinPrevious (before : List Segment) (it : Segment) : Except Fault (List Segment) :=
  match before.getLast? with
  | none => return [it]
  | some previous => do
    ensure .check (previous.stop ≤ it.start)
    return if previous.stop = it.start then before.dropLast ++ [previous.join it] else before ++ [it]

def free (pool : HexagonVtcmPool) (ptr nbytes : Nat) : Except Fault HexagonVtcmPool := do
  let it ← found .check (pool.allocations.find? fun entry => entry.start = ptr)
  ensure .check (it.length = nbytes)
  -- `std::lower_bound` with `<=`: the first entry that starts behind the block.
  let before := pool.freeList.takeWhile fun entry => entry.start ≤ ptr
  let after := pool.freeList.dropWhile fun entry => entry.start ≤ ptr
  let (joined, later) ← joinNext ⟨ptr, nbytes⟩ after
  let earlier ← joinPrevious before joined
  return {
    allocations := pool.allocations.eraseP fun entry => entry.start = ptr
    freeList := earlier ++ later }

inductive Call where
  | allocate (nbytes ptr : Nat)
  | free (block : Segment)

inductive Step : HexagonVtcmPool → Call → HexagonVtcmPool → Prop where
  | allocate {pool next : HexagonVtcmPool} {nbytes ptr : Nat}
      (run : pool.allocate nbytes = .ok (ptr, next)) : Step pool (.allocate nbytes ptr) next
  | free {pool next : HexagonVtcmPool} {block : Segment} (live : block ∈ pool.allocations)
      (run : pool.free block.start block.length = .ok next) : Step pool (.free block) next

inductive Reachable (Allowed : HexagonVtcmPool → Call → Prop) (whole : Segment) :
    HexagonVtcmPool → Prop where
  | start : Reachable Allowed whole (create whole.start whole.length)
  | step {pool next : HexagonVtcmPool} {call : Call} (before : Reachable Allowed whole pool)
      (allowed : Allowed pool call) (step : Step pool call next) : Reachable Allowed whole next

end HexagonVtcmPool

-- `& -unit` clears the bits below the unit.
def roundUp (unit nbytes : Nat) : Nat :=
  (nbytes + (unit - 1)) % 2 ^ 64 / unit * unit

def vtcmAllocationBytes (nbytes alignment : Nat) : Except Fault Nat := do
  ensure .check (alignment ≤ 0x80 ∨ alignment = 0x800)
  return if alignment = 0x800 then roundUp 0x800 nbytes else roundUp 0x80 nbytes

end Tlm.Hexagon
