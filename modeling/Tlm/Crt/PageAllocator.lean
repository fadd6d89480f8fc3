import Tlm.Shared.Fault

set_option autoImplicit false

namespace Tlm.Crt

open Cpp

structure Page where
  ptableBegin : Nat
  numPages : Nat
  data : Nat
  deriving DecidableEq, Repr

def pageCreate (pageSizeBytes ptableBegin numPages : Nat) : Page where
  ptableBegin := ptableBegin
  numPages := numPages
  data := ptableBegin * pageSizeBytes % 2 ^ 64

structure PageTable where
  pageSizeBytes : Nat
  maxPages : Nat
  numPages : Nat

-- Entries behind the last one overwrite what lies behind the table.
def PageTable.resize (ptable : PageTable) (newSize : Nat) : Except Fault PageTable := do
  ensure .check (ptable.numPages ≤ newSize)
  ensure .undefined (newSize ≤ ptable.maxPages)
  return { ptable with numPages := newSize }

structure PageEntry where
  addr : Nat
  page : Page
  deriving DecidableEq, Repr

structure TLB where
  maxPages : Nat
  entries : List PageEntry

def TLB.find (tlb : TLB) (data : Nat) : Option PageEntry :=
  tlb.entries.find? fun entry => entry.addr = data

def TLB.set (tlb : TLB) (data : Nat) (page : Page) : Except Fault TLB :=
  match tlb.entries.findIdx? fun entry => entry.addr = data with
  | none => do
    ensure .undefined (tlb.entries.length < tlb.maxPages)
    return { tlb with entries := tlb.entries ++ [⟨data, page⟩] }
  | some idx => return { tlb with entries := tlb.entries.set idx ⟨data, page⟩ }

structure IndexedEntry where
  index : Nat
  page : Page
  deriving DecidableEq, Repr

structure MultiMap where
  entries : List IndexedEntry
  unused : List IndexedEntry

namespace MultiMap

def maxEntries (map : MultiMap) : Nat :=
  map.entries.length + map.unused.length

def lowerBound (map : MultiMap) (npage : Nat) : Option Nat :=
  map.entries.findIdx? fun entry => npage ≤ entry.index

-- The later entries move down by one, so the last slot keeps its entry.
def erase (map : MultiMap) (idx : Nat) : MultiMap where
  entries := map.entries.eraseIdx idx
  unused := map.entries.getLast?.toList ++ map.unused

-- The loop stores the entry `npage` times into one slot, so not at all for zero pages.
def insert (map : MultiMap) (npage : Nat) (page : Page) : Except Fault MultiMap :=
  match map.unused with
  | [] => throw .check
  | slot :: unused =>
    return {
      entries := map.entries ++ [if 0 < npage then ⟨npage, page⟩ else slot]
      unused := unused }

end MultiMap

structure MemoryManager where
  ptable : PageTable
  pmap : TLB
  freeMap : MultiMap
  vleakSize : Int

namespace MemoryManager

def sizeofPage : Nat := 24
def sizeofPageEntry : Nat := 32
def sizeofIndexedEntry : Nat := 32
def sizeofMemoryManager : Nat := 168

-- The pool is cleared first, so that all counts and all slots are zero.
def create (memoryPoolSizeBytes : UInt64) (pageSizeBytesLog2 : Nat) : Except Fault MemoryManager := do
  -- `1 << page_size_bytes_log2` is an `int`.
  ensure .undefined (pageSizeBytesLog2 < 31)
  -- In a smaller pool the manager itself is written outside.
  ensure .undefined (sizeofMemoryManager ≤ memoryPoolSizeBytes.toNat)
  let pageSizeBytes := 2 ^ pageSizeBytesLog2
  let bytesNeededPerPage := pageSizeBytes + (sizeofPage + sizeofPageEntry + sizeofIndexedEntry)
  let numPages := (memoryPoolSizeBytes.toNat - sizeofMemoryManager) / bytesNeededPerPage
  return {
    ptable := { pageSizeBytes, maxPages := numPages, numPages := 0 }
    pmap := { maxPages := numPages, entries := [] }
    freeMap := { entries := [], unused := List.replicate numPages ⟨0, ⟨0, 0, 0⟩⟩ }
    vleakSize := 0 }

-- The page handed out, or none for `kTvmErrorPlatformNoMemory`. The caller gets its `data`.
def allocate (mgr : MemoryManager) (numBytes : UInt64) : Except Fault (Option Page × MemoryManager) :=
  let ptable := mgr.ptable
  let npage := (numBytes.toNat + ptable.pageSizeBytes - 1) % 2 ^ 64 / ptable.pageSizeBytes
  match mgr.freeMap.lowerBound (npage % 2 ^ 32) with
  | some it => do
    let entry ← found .undefined mgr.freeMap.entries[it]?
    return (some entry.page,
      { mgr with freeMap := mgr.freeMap.erase it, vleakSize := mgr.vleakSize + 1 })
  | none =>
    let start := ptable.numPages
    if ptable.maxPages < (start + npage) % 2 ^ 32 then return (none, mgr)
    else do
      let p := pageCreate ptable.pageSizeBytes start npage
      let ptable ← ptable.resize ((start + npage) % 2 ^ 64)
      let pmap ← mgr.pmap.set p.data p
      return (some p, { mgr with ptable, pmap, vleakSize := mgr.vleakSize + 1 })

def free (mgr : MemoryManager) (ptr : Nat) : Except Fault MemoryManager := do
  ensure .check (mgr.pmap.entries.length ≠ 0)
  let entry ← found .check (mgr.pmap.find ptr)
  let freeMap ← mgr.freeMap.insert (entry.page.numPages % 2 ^ 32) entry.page
  return { mgr with freeMap, vleakSize := mgr.vleakSize - 1 }

end MemoryManager

inductive Request where
  | allocate (numBytes : UInt64)
  -- Frees the pointer of the live allocation with this number.
  | free (live : Nat)

structure Allocation where
  numBytes : UInt64
  page : Page
  deriving DecidableEq, Repr

structure Client where
  mgr : MemoryManager
  live : List Allocation

namespace Client

def serve (client : Client) : Request → Except Fault Client
  | .allocate numBytes => do
    let (page, mgr) ← client.mgr.allocate numBytes
    return ⟨mgr, client.live ++ page.toList.map (⟨numBytes, ·⟩)⟩
  | .free live =>
    match client.live[live]? with
    -- No pointer is live under this number, so nothing is called.
    | none => return client
    | some allocation => do
      let mgr ← client.mgr.free allocation.page.data
      return ⟨mgr, client.live.eraseIdx live⟩

def run (mgr : MemoryManager) (requests : List Request) : Except Fault Client :=
  requests.foldlM serve ⟨mgr, []⟩

end Client

end Tlm.Crt
