import Tlm.Shared.Segments
import Mathlib.Logic.Function.Basic
import Mathlib.Tactic.Common

set_option autoImplicit false

namespace Tlm.Crt.StackAllocator

open Segments

def TVM_RUNTIME_ALLOC_ALIGNMENT_BYTES : Nat := 16

def STACK_ALLOCATOR_TAG : UInt32 := 0xabcd1234

def STACK_ALLOCATOR_TAG_SIZE_BYTES : Nat := 4

abbrev Tags := Nat → UInt32

structure Workspace where
  nextAlloc : Nat
  workspace : Nat
  workspaceSize : Nat

def init (memory workspaceSize : Nat) : Workspace :=
  let aligned := (memory + (TVM_RUNTIME_ALLOC_ALIGNMENT_BYTES - 1)) / TVM_RUNTIME_ALLOC_ALIGNMENT_BYTES *
    TVM_RUNTIME_ALLOC_ALIGNMENT_BYTES
  ⟨aligned, aligned, workspaceSize - (aligned - memory)⟩

-- The mask leaves the remainder of the `int32_t`.
def offsetBytes (nbytes : Nat) : Nat :=
  ((TVM_RUNTIME_ALLOC_ALIGNMENT_BYTES - nbytes : Int) % TVM_RUNTIME_ALLOC_ALIGNMENT_BYTES).toNat

-- `none` is `kTvmErrorPlatformNoMemory`.
def allocateBody (doLifoCheck : Bool) (ws : Workspace) (nbytes : Nat) (tags : Tags) :
    Option (Nat × Workspace × Tags) :=
  let workspaceEnd := ws.workspace + ws.workspaceSize
  let next := ws.nextAlloc + nbytes + offsetBytes nbytes
  if workspaceEnd < next then none
  else if doLifoCheck then
    if workspaceEnd < next + STACK_ALLOCATOR_TAG_SIZE_BYTES then none
    else
      let totalSize := UInt32.ofNat (nbytes + offsetBytes nbytes + STACK_ALLOCATOR_TAG_SIZE_BYTES)
      some (ws.nextAlloc, ⟨next + STACK_ALLOCATOR_TAG_SIZE_BYTES, ws.workspace, ws.workspaceSize⟩,
        Function.update tags next (totalSize ^^^ STACK_ALLOCATOR_TAG))
  else some (ws.nextAlloc, ⟨next, ws.workspace, ws.workspaceSize⟩, tags)

-- `none` is `kTvmErrorPlatformStackAllocBadFree`.
def freeBody (doLifoCheck : Bool) (ws : Workspace) (ptr : Nat) (tags : Tags) : Option Workspace :=
  let tag := tags (ws.nextAlloc - STACK_ALLOCATOR_TAG_SIZE_BYTES)
  if doLifoCheck ∧ tag ^^^ STACK_ALLOCATOR_TAG ≠ UInt32.ofNat (ws.nextAlloc - ptr) then none
  else some ⟨ptr, ws.workspace, ws.workspaceSize⟩

-- A live allocation, with the state that it was made in.
structure Block where
  bytes : Segment
  before : Workspace

-- The tag stands behind the padding.
def Block.tag (block : Block) : Segment :=
  ⟨block.bytes.stop + offsetBytes block.bytes.length, STACK_ALLOCATOR_TAG_SIZE_BYTES⟩

structure Client where
  ws : Workspace
  tags : Tags
  live : List Block

-- A request for some bytes, or the free of the last allocation.
def Client.step (doLifoCheck : Bool) (c : Client) : Option Nat → Client
  | some nbytes =>
    match allocateBody doLifoCheck c.ws nbytes c.tags with
    | none => c
    | some (ptr, ws, tags) => ⟨ws, tags, ⟨⟨ptr, nbytes⟩, c.ws⟩ :: c.live⟩
  | none =>
    match c.live with
    | [] => c
    | block :: rest =>
      match freeBody doLifoCheck c.ws block.bytes.start c.tags with
      | none => c
      | some ws => ⟨ws, c.tags, rest⟩

def run (doLifoCheck : Bool) (memory workspaceSize : Nat) (tags : Tags) (calls : List (Option Nat)) : Client :=
  calls.foldl (Client.step doLifoCheck) ⟨init memory workspaceSize, tags, []⟩

def tagSize (doLifoCheck : Bool) : Nat :=
  if doLifoCheck then STACK_ALLOCATOR_TAG_SIZE_BYTES else 0

-- The blocks lie one behind the other from the start of the workspace, with their tags.
def Stacked (doLifoCheck : Bool) (base : Workspace) (tags : Tags) : List Block → Workspace → Prop
  | [], ws => ws = base
  | block :: rest, ws =>
    block.bytes.start = block.before.nextAlloc ∧
    ws = ⟨block.tag.start + tagSize doLifoCheck, block.before.workspace, block.before.workspaceSize⟩ ∧
    (doLifoCheck = true → tags block.tag.start = UInt32.ofNat (ws.nextAlloc - block.bytes.start) ^^^ STACK_ALLOCATOR_TAG) ∧
    Stacked doLifoCheck base tags rest block.before

section

variable {doLifoCheck : Bool} {base ws : Workspace} {tags tags' : Tags} {live : List Block} {block : Block}

theorem Stacked.layout (stacked : Stacked doLifoCheck base tags live ws) :
    ws.workspace = base.workspace ∧ ws.workspaceSize = base.workspaceSize ∧ base.nextAlloc ≤ ws.nextAlloc ∧
      ws.nextAlloc % 16 = (base.nextAlloc + tagSize doLifoCheck * live.length) % 16 ∧
      ∀ block ∈ live, block.tag.start + tagSize doLifoCheck ≤ ws.nextAlloc := by
  induction live generalizing ws with
  | nil => simp [show ws = base from stacked]
  | cons block rest ih =>
    obtain ⟨begins, rfl, -, below⟩ := stacked
    obtain ⟨place, size, low, aligned, inside⟩ := ih below
    have padded : (block.bytes.length + offsetBytes block.bytes.length) % 16 = 0 := by
      simp only [offsetBytes, TVM_RUNTIME_ALLOC_ALIGNMENT_BYTES]
      omega
    simp only [Block.tag, Segment.stop, List.forall_mem_cons, List.length_cons, Nat.mul_add] at *
    refine ⟨place, size, by omega, by omega, by omega, fun other member => ?_⟩
    have earlier := inside other member
    omega

theorem Stacked.congr (same : ∀ block ∈ live, tags' block.tag.start = tags block.tag.start)
    (stacked : Stacked doLifoCheck base tags live ws) : Stacked doLifoCheck base tags' live ws := by
  induction live generalizing ws with
  | nil => exact stacked
  | cons block rest ih =>
    obtain ⟨begins, shape, tagged, below⟩ := stacked
    rw [List.forall_mem_cons] at same
    exact ⟨begins, shape, same.1 ▸ tagged, ih same.2 below⟩

theorem Stacked.allocate {nbytes ptr : Nat} {ws' : Workspace} (stacked : Stacked doLifoCheck base tags live ws)
    (made : allocateBody doLifoCheck ws nbytes tags = some (ptr, ws', tags')) :
    ptr = ws.nextAlloc ∧ ptr + nbytes ≤ ws.workspace + ws.workspaceSize ∧
      Stacked doLifoCheck base tags' (⟨⟨ptr, nbytes⟩, ws⟩ :: live) ws' := by
  simp only [allocateBody] at made
  split at made
  · cases made
  next fits =>
    have inside := stacked.layout.2.2.2.2
    split at made
    next check =>
      simp only [check, tagSize, if_true, STACK_ALLOCATOR_TAG_SIZE_BYTES] at inside
      split at made
      · cases made
      · cases made
        refine ⟨rfl, by omega, rfl, by simp [check, tagSize, Block.tag, Segment.stop], fun _ => ?_,
          stacked.congr fun block member => Function.update_of_ne (by have := inside block member; omega) _ _⟩
        simp [Block.tag, Segment.stop, Nat.add_assoc]
    next check =>
      cases made
      exact ⟨rfl, by omega, rfl, by simp [check, tagSize, Block.tag, Segment.stop], by simp [check], stacked⟩

theorem Stacked.free (stacked : Stacked doLifoCheck base tags (block :: live) ws) :
    freeBody doLifoCheck ws block.bytes.start tags = some block.before := by
  obtain ⟨begins, rfl, tagged, -⟩ := stacked
  simp only [freeBody]
  rw [if_neg, begins]
  rintro ⟨check, differs⟩
  apply differs
  rw [show block.tag.start + tagSize doLifoCheck - STACK_ALLOCATOR_TAG_SIZE_BYTES = block.tag.start by
    simp [check, tagSize], tagged check, UInt32.xor_assoc, UInt32.xor_self, UInt32.xor_zero]

theorem Stacked.step {c : Client} (stacked : Stacked doLifoCheck base c.tags c.live c.ws) (call : Option Nat) :
    Stacked doLifoCheck base (c.step doLifoCheck call).tags (c.step doLifoCheck call).live (c.step doLifoCheck call).ws := by
  unfold Client.step
  split
  next nbytes =>
    split
    · exact stacked
    next made => exact (stacked.allocate made).2.2
  · split
    · exact stacked
    next shape =>
      rw [shape] at stacked
      rw [stacked.free]
      exact stacked.2.2.2

theorem Stacked.foldl {c : Client} (stacked : Stacked doLifoCheck base c.tags c.live c.ws) (calls : List (Option Nat)) :
    Stacked doLifoCheck base (calls.foldl (Client.step doLifoCheck) c).tags
      (calls.foldl (Client.step doLifoCheck) c).live (calls.foldl (Client.step doLifoCheck) c).ws := by
  induction calls generalizing c with
  | nil => exact stacked
  | cons call rest ih => exact ih (stacked.step call)

end

theorem stack_safe (doLifoCheck : Bool) (memory workspaceSize : Nat) (tags : Tags)
    (large : TVM_RUNTIME_ALLOC_ALIGNMENT_BYTES < workspaceSize) (calls : List (Option Nat)) :
    let c := run doLifoCheck memory workspaceSize tags calls
    (∀ nbytes ptr ws tags', allocateBody doLifoCheck c.ws nbytes c.tags = some (ptr, ws, tags') →
      (TVM_RUNTIME_ALLOC_ALIGNMENT_BYTES ∣ ptr ↔ doLifoCheck = false ∨ 4 ∣ c.live.length) ∧
      c.ws.workspace ≤ ptr ∧ ptr + nbytes ≤ c.ws.workspace + c.ws.workspaceSize ∧
      memory ≤ ptr ∧ ptr + nbytes ≤ memory + workspaceSize ∧
      ∀ block ∈ c.live, Apart ⟨ptr, nbytes⟩ block.bytes ∧ (doLifoCheck = true → Apart ⟨ptr, nbytes⟩ block.tag)) ∧
    ∀ block rest, c.live = block :: rest →
      freeBody doLifoCheck c.ws block.bytes.start c.tags = some block.before := by
  intro c
  have stacked : Stacked doLifoCheck (init memory workspaceSize) c.tags c.live c.ws :=
    Stacked.foldl (c := ⟨_, tags, []⟩) rfl calls
  refine ⟨fun nbytes ptr ws tags' made => ?_, fun block rest shape => (shape ▸ stacked).free⟩
  obtain ⟨rfl, fits, -⟩ := stacked.allocate made
  obtain ⟨place, size, low, aligned, below⟩ := stacked.layout
  simp only [init, TVM_RUNTIME_ALLOC_ALIGNMENT_BYTES] at *
  refine ⟨?_, by omega, by omega, by omega, by omega, fun block member => ?_⟩
  · cases doLifoCheck <;> simp [tagSize, STACK_ALLOCATOR_TAG_SIZE_BYTES] at aligned ⊢ <;> omega
  · have behind := below block member
    refine ⟨(apart_of_stop_le ?_).symm, fun check => (apart_of_stop_le ?_).symm⟩
    · simp only [Block.tag] at *
      omega
    · simpa [check, tagSize, Block.tag, Segment.stop] using behind

theorem stack_safe_deep : ∃ block rest, (run true 8 256 (fun _ => 0) [some 5, some 0]).live = block :: rest ∧
    rest ≠ [] ∧ freeBody true (run true 8 256 (fun _ => 0) [some 5, some 0]).ws block.bytes.start
      (run true 8 256 (fun _ => 0) [some 5, some 0]).tags = some block.before :=
  ⟨_, _, rfl, List.cons_ne_nil _ _, (stack_safe true 8 256 _ (by decide) [some 5, some 0]).2 _ _ rfl⟩

-- The tag of the first allocation shifts the second one.
theorem second_misaligned :
    (run true 0 256 (fun _ => 0) [some 16, some 16]).live.map (·.bytes.start) = [20, 0] ∧
      ¬ TVM_RUNTIME_ALLOC_ALIGNMENT_BYTES ∣ 20 := by
  decide

section

variable {base ws : Workspace} {tags : Tags} {live : List Block} {block : Block}

theorem Stacked.unwind {doLifoCheck : Bool} (stacked : Stacked doLifoCheck base tags live ws) :
    (List.replicate live.length none).foldl (Client.step doLifoCheck) ⟨ws, tags, live⟩ = ⟨base, tags, []⟩ := by
  induction live generalizing ws with
  | nil => simp [show ws = base from stacked]
  | cons block rest ih =>
    simp only [List.length_cons, List.replicate_succ, List.foldl_cons, Client.step, stacked.free]
    exact ih stacked.2.2.2

theorem Stacked.base_le {doLifoCheck : Bool} (stacked : Stacked doLifoCheck base tags live ws) :
    ∀ block ∈ live, base.nextAlloc ≤ block.bytes.start := by
  induction live generalizing ws with
  | nil => simp
  | cons block rest ih =>
    obtain ⟨begins, -, -, below⟩ := stacked
    rw [List.forall_mem_cons, begins]
    exact ⟨below.layout.2.2.1, ih below⟩

-- The tag holds the distance to the last allocation, which no other start has.
theorem Stacked.refuses {top : Block} (stacked : Stacked true base tags (top :: live) ws) (member : block ∈ live)
    (small : ws.nextAlloc < base.nextAlloc + 2 ^ 32) : freeBody true ws block.bytes.start tags = none := by
  obtain ⟨begins, rfl, tagged, below⟩ := stacked
  have behind := below.layout.2.2.2.2 block member
  have low := below.base_le block member
  have tag : top.tag.start + tagSize true - STACK_ALLOCATOR_TAG_SIZE_BYTES = top.tag.start := by simp [tagSize]
  simp only [freeBody, tag, tagged rfl, UInt32.xor_assoc, UInt32.xor_self, UInt32.xor_zero]
  rw [if_pos]
  refine ⟨trivial, fun same => ?_⟩
  have same := congrArg UInt32.toNat same
  simp only [UInt32.toNat_ofNat', Block.tag, Segment.stop, tagSize, STACK_ALLOCATOR_TAG_SIZE_BYTES, if_true] at *
  omega

end

theorem run_unwinds (doLifoCheck : Bool) (memory workspaceSize : Nat) (tags : Tags) (calls : List (Option Nat)) :
    let c := run doLifoCheck memory workspaceSize tags calls
    run doLifoCheck memory workspaceSize tags (calls ++ List.replicate c.live.length none) =
      ⟨init memory workspaceSize, c.tags, []⟩ := by
  intro c
  rw [run, List.foldl_append]
  exact (Stacked.foldl (c := ⟨_, tags, []⟩) rfl calls).unwind

theorem out_of_order_refused (memory workspaceSize : Nat) (tags : Tags) (calls : List (Option Nat)) :
    let c := run true memory workspaceSize tags calls
    c.ws.nextAlloc < (init memory workspaceSize).nextAlloc + 2 ^ 32 →
      ∀ block ∈ c.live.tail, freeBody true c.ws block.bytes.start c.tags = none := by
  intro c small block member
  have stacked : Stacked true (init memory workspaceSize) c.tags c.live c.ws :=
    Stacked.foldl (c := ⟨_, tags, []⟩) rfl calls
  cases shape : c.live with
  | nil => simp [shape] at member
  | cons top rest =>
    rw [shape] at stacked member
    exact stacked.refuses member small

theorem out_of_order_refused_first : freeBody true (run true 0 256 (fun _ => 0) [some 16, some 16]).ws 0
    (run true 0 256 (fun _ => 0) [some 16, some 16]).tags = none :=
  out_of_order_refused 0 256 (fun _ => 0) [some 16, some 16] (by decide) ⟨⟨0, 16⟩, init 0 256⟩ (List.mem_singleton.2 rfl)

end Tlm.Crt.StackAllocator
