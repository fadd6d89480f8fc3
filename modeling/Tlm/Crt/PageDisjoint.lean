import Mathlib.Data.List.Perm.Basic
import Tlm.Crt.PageAllocator
import Tlm.Shared.Segments

set_option autoImplicit false

namespace Tlm.Crt

open Cpp Segments

def Page.segment (page : Page) : Segment :=
  ⟨page.ptableBegin, page.numPages⟩

structure Client.Safe (client : Client) : Prop where
  inside : ∀ a ∈ client.live, a.page.segment.stop ≤ client.mgr.ptable.maxPages
  pointer : ∀ a ∈ client.live,
    a.page.data = a.page.ptableBegin * client.mgr.ptable.pageSizeBytes
  spans : ∀ a ∈ client.live,
    a.numBytes.toNat ≤ a.page.numPages * client.mgr.ptable.pageSizeBytes
  apart : client.live.Pairwise fun a b => Apart a.page.segment b.page.segment

-- The request is not empty, and no 32-bit sum of page counts wraps for it.
def PageTable.Exact (ptable : PageTable) (numBytes : UInt64) : Prop :=
  0 < numBytes.toNat ∧
    (numBytes.toNat + ptable.pageSizeBytes - 1) / ptable.pageSizeBytes + ptable.maxPages < 2 ^ 32

instance (ptable : PageTable) (numBytes : UInt64) : Decidable (ptable.Exact numBytes) :=
  inferInstanceAs (Decidable (_ ∧ _))

variable {ptable : PageTable}

theorem PageTable.Exact.pages {numBytes : UInt64} (sound : ptable.Exact numBytes)
    (pageSize : 0 < ptable.pageSizeBytes ∧ ptable.pageSizeBytes ≤ 2 ^ 30) :
    ∃ npage, (numBytes.toNat + ptable.pageSizeBytes - 1) % 2 ^ 64 / ptable.pageSizeBytes = npage ∧
      0 < npage ∧ npage + ptable.maxPages < 2 ^ 32 ∧ numBytes.toNat ≤ npage * ptable.pageSizeBytes := by
  obtain ⟨some, small⟩ := sound
  obtain ⟨positive, limit⟩ := pageSize
  have rounded := Nat.div_add_mod (numBytes.toNat + ptable.pageSizeBytes - 1) ptable.pageSizeBytes
  have rest := Nat.mod_lt (numBytes.toNat + ptable.pageSizeBytes - 1) positive
  have bound : numBytes.toNat + ptable.pageSizeBytes - 1 < 2 ^ 32 * 2 ^ 30 :=
    Nat.lt_of_lt_of_le ((Nat.div_lt_iff_lt_mul positive).1 (by omega)) (Nat.mul_le_mul_left _ limit)
  refine ⟨_, by rw [Nat.mod_eq_of_lt (by omega)], ?_, small, ?_⟩
  · exact Nat.div_pos (by omega) positive
  · rw [Nat.mul_comm]
    omega

structure MemoryManager.Consistent (mgr : MemoryManager) : Prop where
  pageSize : 0 < mgr.ptable.pageSizeBytes ∧ mgr.ptable.pageSizeBytes ≤ 2 ^ 30
  used : mgr.ptable.numPages ≤ mgr.ptable.maxPages
  small : mgr.ptable.numPages < 2 ^ 32
  room : mgr.pmap.maxPages = mgr.ptable.maxPages
  slots : mgr.freeMap.maxEntries = mgr.ptable.maxPages
  tiled : Tiles 0 (mgr.pmap.entries.map (·.page.segment)) mgr.ptable.numPages
  address : ∀ e ∈ mgr.pmap.entries,
    e.addr = e.page.data ∧ e.page.data = e.page.ptableBegin * mgr.ptable.pageSizeBytes
  index : ∀ e ∈ mgr.freeMap.entries, e.index = e.page.numPages

structure Client.Consistent (client : Client) : Prop extends client.mgr.Consistent where
  owned : (client.live.map (·.page) ++ client.mgr.freeMap.entries.map (·.page)).Perm
    (client.mgr.pmap.entries.map (·.page))
  spans : ∀ a ∈ client.live,
    a.numBytes.toNat ≤ a.page.numPages * client.mgr.ptable.pageSizeBytes

namespace Client

variable {client : Client}

theorem Consistent.entry (consistent : client.Consistent) {page : Page}
    (held : page ∈ client.live.map (·.page) ++ client.mgr.freeMap.entries.map (·.page)) :
    ∃ e ∈ client.mgr.pmap.entries, e.page = page := by
  simpa using consistent.owned.mem_iff.1 held

theorem Consistent.safe (consistent : client.Consistent) : client.Safe where
  inside a member := by
    obtain ⟨e, entry, same⟩ := consistent.entry  (List.mem_append_left _ (List.mem_map_of_mem member))
    have inside := consistent.tiled.inside (List.mem_map_of_mem entry)
    rw [same] at inside
    exact Nat.le_trans inside.2.2 consistent.used
  pointer a member := by
    obtain ⟨e, entry, same⟩ := consistent.entry  (List.mem_append_left _ (List.mem_map_of_mem member))
    simpa [same] using (consistent.address e entry).2
  spans := consistent.spans
  apart := by
    have tiles := consistent.tiled.pairwise.imp fun before => apart_of_stop_le before
    rw [List.pairwise_map] at tiles
    have pages : (client.mgr.pmap.entries.map (·.page)).Pairwise
        fun p q => Apart p.segment q.segment := List.pairwise_map.2 tiles
    have held := (consistent.owned.pairwise_iff fun apart => apart.symm).2 pages
    simpa [List.pairwise_map] using (List.pairwise_append.1 held).1

end Client

theorem PageTable.resize_ok {newSize : Nat} (grows : ptable.numPages ≤ newSize)
    (fits : newSize ≤ ptable.maxPages) : ptable.resize newSize = .ok { ptable with numPages := newSize } := by
  simp [resize, grows, fits]

theorem TLB.set_fresh {tlb : TLB} {data : Nat} {page : Page}
    (fresh : ∀ e ∈ tlb.entries, e.addr ≠ data) (room : tlb.entries.length < tlb.maxPages) :
    tlb.set data page = .ok { tlb with entries := tlb.entries ++ [⟨data, page⟩] } := by
  have absent : (tlb.entries.findIdx? fun entry => entry.addr = data) = none := by
    simpa using fresh
  simp [TLB.set, absent, room]

namespace MultiMap

variable {map : MultiMap} {npage it : Nat}

theorem lowerBound_some (bound : map.lowerBound npage = some it) :
    ∃ e, map.entries[it]? = some e ∧ npage ≤ e.index := by
  obtain ⟨inside, enough, _⟩ := List.findIdx?_eq_some_iff_getElem.1 bound
  exact ⟨_, List.getElem?_eq_getElem inside, by simpa using enough⟩

variable {e : IndexedEntry}

theorem erase_entries (entry : map.entries[it]? = some e) : map.entries.Perm (e :: (map.erase it).entries) := by
  obtain ⟨inside, rfl⟩ := List.getElem?_eq_some_iff.1 entry
  exact (List.getElem_cons_eraseIdx_perm inside).symm

theorem insert_ok {page : Page} {slot : IndexedEntry} {unused : List IndexedEntry}
    (free : map.unused = slot :: unused) (some : 0 < npage) :
    map.insert npage page = .ok ⟨map.entries ++ [⟨npage, page⟩], unused⟩ := by
  simp [insert, free, some]

theorem erase_maxEntries (entry : map.entries[it]? = some e) : (map.erase it).maxEntries = map.maxEntries := by
  have length := (erase_entries entry).length_eq
  cases last : map.entries.getLast? with
  | none => simp [List.getLast?_eq_none_iff.1 last] at entry
  | some _ => simp_all [maxEntries, erase]; omega

end MultiMap

namespace Client

variable {client : Client}

section

variable (consistent : client.Consistent)

include consistent

theorem Consistent.unused :
    client.live.length + client.mgr.freeMap.entries.length ≤ client.mgr.ptable.numPages := by
  have length := consistent.owned.length_eq
  have tiles := consistent.tiled.length_le
  simp only [List.length_append, List.length_map] at length tiles
  omega

variable {numBytes : UInt64}

theorem Consistent.reuse {it : Nat} {e : IndexedEntry} (leak : Int)
    (entry : client.mgr.freeMap.entries[it]? = some e)
    (enough : numBytes.toNat ≤ e.page.numPages * client.mgr.ptable.pageSizeBytes) :
    Consistent ⟨{ client.mgr with freeMap := client.mgr.freeMap.erase it, vleakSize := leak },
      client.live ++ [⟨numBytes, e.page⟩]⟩ where
  toConsistent := {
    consistent.toConsistent with
    slots := (MultiMap.erase_maxEntries entry).trans consistent.slots
    index := fun e member => consistent.index e (List.mem_of_mem_eraseIdx member) }
  owned := by
    refine List.Perm.trans ?_ consistent.owned
    have entries := (MultiMap.erase_entries entry).map (·.page)
    simpa using (entries.append_left (client.live.map (·.page))).symm
  spans a member := by
    rcases List.mem_append.1 member with old | new
    · exact consistent.spans a old
    · simpa [List.mem_singleton.1 new] using enough

variable {npage : Nat}

theorem Consistent.extend (leak : Int) (some : 0 < npage)
    (fits : client.mgr.ptable.numPages + npage ≤ client.mgr.ptable.maxPages)
    (small : client.mgr.ptable.numPages + npage < 2 ^ 32)
    (enough : numBytes.toNat ≤ npage * client.mgr.ptable.pageSizeBytes) (page : Page)
    (made : page = ⟨client.mgr.ptable.numPages, npage,
      client.mgr.ptable.numPages * client.mgr.ptable.pageSizeBytes⟩) :
    Consistent ⟨{ client.mgr with
        ptable := { client.mgr.ptable with numPages := client.mgr.ptable.numPages + npage }
        pmap := { client.mgr.pmap with
          entries := client.mgr.pmap.entries ++ [⟨page.data, page⟩] }
        vleakSize := leak },
      client.live ++ [⟨numBytes, page⟩]⟩ where
  toConsistent := {
    consistent.toConsistent with
    used := fits
    small := small
    tiled := by
      subst made
      simpa [Page.segment] using consistent.tiled.concat some
    address := by
      intro e member
      rcases List.mem_append.1 member with old | new
      · exact consistent.address e old
      · simp [List.mem_singleton.1 new, made] }
  owned := by
    have pages := consistent.owned.append_right [page]
    rw [List.append_assoc] at pages
    simpa using (List.perm_append_comm.append_left _).trans pages
  spans a member := by
    rcases List.mem_append.1 member with old | new
    · exact consistent.spans a old
    · simpa [List.mem_singleton.1 new, made] using enough

variable {a : Allocation}

theorem Consistent.release {live : Nat} {slot : IndexedEntry}
    {unused : List IndexedEntry} (leak : Int) (held : client.live[live]? = some a)
    (free : client.mgr.freeMap.unused = slot :: unused) :
    Consistent ⟨{ client.mgr with
        freeMap := {
          entries := client.mgr.freeMap.entries ++ [⟨a.page.numPages, a.page⟩]
          unused := unused }
        vleakSize := leak },
      client.live.eraseIdx live⟩ where
  toConsistent := {
    consistent.toConsistent with
    slots := by
      have slots := consistent.slots
      simp [MultiMap.maxEntries, free] at slots ⊢
      omega
    index := by
      intro e member
      rcases List.mem_append.1 member with old | new
      · exact consistent.index e old
      · simp [List.mem_singleton.1 new] }
  owned := by
    obtain ⟨inside, rfl⟩ := List.getElem?_eq_some_iff.1 held
    refine List.Perm.trans ?_ consistent.owned
    have pages := (List.getElem_cons_eraseIdx_perm inside).map (·.page)
    refine List.Perm.trans ?_ (pages.append_right _)
    simpa using List.perm_append_singleton client.live[live].page
      ((client.live.eraseIdx live).map (·.page) ++ client.mgr.freeMap.entries.map (·.page))
  spans a member := consistent.spans a (List.mem_of_mem_eraseIdx member)

theorem Consistent.live_segment (member : a ∈ client.live) :
    0 < a.page.numPages ∧ a.page.numPages < 2 ^ 32 := by
  obtain ⟨e, entry, same⟩ := consistent.entry (List.mem_append_left _ (List.mem_map_of_mem member))
  have inside := consistent.tiled.inside (List.mem_map_of_mem entry)
  have small := consistent.small
  simp only [same, Page.segment, Segment.stop] at inside
  omega

theorem Consistent.pageCreate_eq (npage : Nat) :
    pageCreate client.mgr.ptable.pageSizeBytes client.mgr.ptable.numPages npage =
      ⟨client.mgr.ptable.numPages, npage, client.mgr.ptable.numPages * client.mgr.ptable.pageSizeBytes⟩ := by
  have bound : client.mgr.ptable.numPages * client.mgr.ptable.pageSizeBytes ≤ 2 ^ 32 * 2 ^ 30 :=
    Nat.mul_le_mul (Nat.le_of_lt consistent.small) consistent.pageSize.2
  rw [pageCreate, Nat.mod_eq_of_lt (by omega)]

theorem Consistent.set_next {page : Page}
    (next : client.mgr.ptable.numPages < client.mgr.ptable.maxPages)
    (made : page = ⟨client.mgr.ptable.numPages, npage,
      client.mgr.ptable.numPages * client.mgr.ptable.pageSizeBytes⟩) :
    client.mgr.pmap.set page.data page = .ok { client.mgr.pmap with
      entries := client.mgr.pmap.entries ++ [⟨page.data, page⟩] } := by
  apply TLB.set_fresh
  · intro e member same
    have address := consistent.address e member
    have inside := consistent.tiled.inside (List.mem_map_of_mem member)
    rw [address.1, address.2, made] at same
    have start := Nat.eq_of_mul_eq_mul_right consistent.pageSize.1 same
    simp only [Page.segment, Segment.stop] at inside
    omega
  · have tiles := consistent.tiled.length_le
    rw [List.length_map] at tiles
    rw [consistent.room]
    omega

theorem Consistent.find_live (member : a ∈ client.live) :
    ∃ e, client.mgr.pmap.find a.page.data = some e ∧ e.page = a.page := by
  obtain ⟨e, entry, same⟩ := consistent.entry (List.mem_append_left _ (List.mem_map_of_mem member))
  cases search : client.mgr.pmap.find a.page.data with
  | none =>
    have missing := List.find?_eq_none.1 search e entry
    simp [(consistent.address e entry).1, same] at missing
  | some f =>
    refine ⟨f, rfl, ?_⟩
    have first : f ∈ client.mgr.pmap.entries := List.mem_of_find?_eq_some search
    have address : f.addr = a.page.data := by simpa using List.find?_some search
    have start : f.page.ptableBegin = e.page.ptableBegin := by
      have addressE := consistent.address e entry
      have addressF := consistent.address f first
      apply Nat.eq_of_mul_eq_mul_right consistent.pageSize.1
      rw [← addressF.2, ← addressE.2, ← addressF.1, address, same]
    rw [consistent.tiled.eq_of_start first entry start, same]

theorem Consistent.allocate (sound : client.mgr.ptable.Exact numBytes) :
    ∃ after, client.serve (.allocate numBytes) = .ok after ∧ after.Consistent ∧
      after.mgr.ptable.pageSizeBytes = client.mgr.ptable.pageSizeBytes ∧
      after.mgr.ptable.maxPages = client.mgr.ptable.maxPages := by
  obtain ⟨npage, rounded, some, small, enough⟩ := sound.pages consistent.pageSize
  have used := consistent.used
  have narrow : npage % 2 ^ 32 = npage := Nat.mod_eq_of_lt (by omega)
  cases bound : client.mgr.freeMap.lowerBound npage with
  | some it =>
    obtain ⟨e, entry, atLeast⟩ := MultiMap.lowerBound_some bound
    rw [consistent.index e (List.mem_of_getElem? entry)] at atLeast
    have reused := consistent.reuse (client.mgr.vleakSize + 1) entry
      (Nat.le_trans enough (Nat.mul_le_mul_right _ atLeast))
    refine ⟨_, ?_, reused, rfl, rfl⟩
    simp only [serve, MemoryManager.allocate, rounded, narrow, bound, entry]
    rfl
  | none =>
    have wide : (client.mgr.ptable.numPages + npage) % 2 ^ 32 = client.mgr.ptable.numPages + npage :=
      Nat.mod_eq_of_lt (by omega)
    by_cases full : client.mgr.ptable.maxPages < client.mgr.ptable.numPages + npage
    · refine ⟨client, ?_, consistent, rfl, rfl⟩
      simp only [serve, MemoryManager.allocate, rounded, narrow, bound, wide, full]
      simp
    · have wider : (client.mgr.ptable.numPages + npage) % 2 ^ 64 =
          client.mgr.ptable.numPages + npage := Nat.mod_eq_of_lt (by omega)
      have made := consistent.pageCreate_eq npage
      have extended := consistent.extend (client.mgr.vleakSize + 1) some (by omega) (by omega) enough _ made
      refine ⟨_, ?_, extended, rfl, rfl⟩
      simp only [serve, MemoryManager.allocate, rounded, narrow, bound, wide, wider, full,
        consistent.set_next (by omega) made, PageTable.resize_ok (Nat.le_add_right _ _) (Nat.not_lt.1 full)]
      rfl

theorem Consistent.free (live : Nat) :
    ∃ after, client.serve (.free live) = .ok after ∧ after.Consistent ∧
      after.mgr.ptable = client.mgr.ptable := by
  cases held : client.live[live]? with
  | none => exact ⟨client, by simp [serve, held], consistent, rfl⟩
  | some a =>
    have member := List.mem_of_getElem? held
    obtain ⟨e, search, same⟩ := consistent.find_live member
    obtain ⟨some, small⟩ := consistent.live_segment member
    have room : client.mgr.freeMap.unused ≠ [] := by
      intro none
      have slots := consistent.slots
      have unused := consistent.unused
      have used := consistent.used
      have count := List.length_pos_of_mem member
      simp [MultiMap.maxEntries, none] at slots
      omega
    obtain ⟨slot, unused, free⟩ := List.exists_cons_of_ne_nil room
    have present : client.mgr.pmap.entries ≠ [] := by
      intro none
      simp [TLB.find, none] at search
    have released := consistent.release (client.mgr.vleakSize - 1) held free
    refine ⟨_, ?_, released, rfl⟩
    simp only [serve, held, MemoryManager.free, search, found, ok_bind, same,
      Nat.mod_eq_of_lt small, MultiMap.insert_ok free some]
    simp [present]

theorem Consistent.serve (request : Request)
    (sound : ∀ numBytes, request = .allocate numBytes → client.mgr.ptable.Exact numBytes) :
    ∃ after, client.serve request = .ok after ∧ after.Consistent ∧
      after.mgr.ptable.pageSizeBytes = client.mgr.ptable.pageSizeBytes ∧
      after.mgr.ptable.maxPages = client.mgr.ptable.maxPages := by
  cases request with
  | allocate numBytes => exact consistent.allocate (sound numBytes rfl)
  | free live =>
    obtain ⟨after, served, kept, same⟩ := consistent.free live
    exact ⟨after, served, kept, by rw [same], by rw [same]⟩

theorem Consistent.run {requests : List Request}
    (sound : ∀ numBytes, .allocate numBytes ∈ requests → client.mgr.ptable.Exact numBytes) :
    ∃ after, requests.foldlM Client.serve client = .ok after ∧ after.Consistent := by
  induction requests generalizing client with
  | nil => exact ⟨client, rfl, consistent⟩
  | cons request rest ih =>
    obtain ⟨next, served, kept, pageSize, maxPages⟩ := consistent.serve request
      fun numBytes same => sound numBytes (by simp [same])
    have later : ∀ numBytes, .allocate numBytes ∈ rest → next.mgr.ptable.Exact numBytes := by
      intro numBytes member
      simpa [PageTable.Exact, pageSize, maxPages] using sound numBytes (List.mem_cons_of_mem _ member)
    obtain ⟨after, done, final⟩ := ih kept later
    exact ⟨after, by simp [served, done], final⟩

end

end Client

theorem MemoryManager.create_consistent {memoryPoolSizeBytes : UInt64} {pageSizeBytesLog2 : Nat}
    {mgr : MemoryManager} (created : create memoryPoolSizeBytes pageSizeBytesLog2 = .ok mgr) :
    Client.Consistent ⟨mgr, []⟩ := by
  simp only [create, bind_ok, ensure_ok, decide_eq_true_eq, pure_ok] at created
  obtain ⟨_, shift, _, _, rfl⟩ := created
  exact {
    pageSize := ⟨Nat.two_pow_pos _, Nat.pow_le_pow_right (by decide) (by omega)⟩
    used := Nat.zero_le _
    small := Nat.two_pow_pos 32
    room := rfl
    slots := by simp [MultiMap.maxEntries]
    tiled := rfl
    address := by simp
    index := by simp
    owned := by simp
    spans := by simp }

namespace Client

theorem allocations_safe {memoryPoolSizeBytes : UInt64} {pageSizeBytesLog2 : Nat}
    {mgr : MemoryManager} {requests : List Request}
    (created : MemoryManager.create memoryPoolSizeBytes pageSizeBytesLog2 = .ok mgr)
    (sound : ∀ numBytes, .allocate numBytes ∈ requests → mgr.ptable.Exact numBytes) :
    ∃ client, run mgr requests = .ok client ∧ client.Safe := by
  obtain ⟨client, served, consistent⟩ := (MemoryManager.create_consistent created).run sound
  exact ⟨client, served, consistent.safe⟩

theorem allocations_safe_reused :
    ∃ mgr client, MemoryManager.create 480 4 = .ok mgr ∧
      run mgr [.allocate 20, .allocate 5, .free 0, .allocate 17] = .ok client ∧ client.Safe := by
  have created : MemoryManager.create 480 4 =
      .ok ⟨⟨16, 3, 0⟩, ⟨3, []⟩, ⟨[], List.replicate 3 ⟨0, ⟨0, 0, 0⟩⟩⟩, 0⟩ := rfl
  have sound : ∀ numBytes,
      .allocate numBytes ∈ ([.allocate 20, .allocate 5, .free 0, .allocate 17] : List Request) →
        PageTable.Exact ⟨16, 3, 0⟩ numBytes := by
    intro numBytes member
    simp only [List.mem_cons, Request.allocate.injEq, reduceCtorEq, List.not_mem_nil,
      or_false, false_or] at member
    rcases member with rfl | rfl | rfl <;> decide
  obtain ⟨client, served, safe⟩ := allocations_safe created sound
  exact ⟨_, client, created, served, safe⟩

-- The empty request takes no page, so the next one gets its pointer as well.
theorem empty_request_shares :
    ∃ client, (MemoryManager.create 480 4 >>=
      (run · [.allocate 0, .allocate 1, .free 0, .allocate 1])) = .ok client ∧ ¬ client.Safe := by
  have live : (MemoryManager.create 480 4 >>=
      (run · [.allocate 0, .allocate 1, .free 0, .allocate 1])).toOption.map (·.live) =
        some [⟨1, ⟨0, 1, 0⟩⟩, ⟨1, ⟨0, 1, 0⟩⟩] := by decide
  cases served : MemoryManager.create 480 4 >>= (run · [.allocate 0, .allocate 1, .free 0, .allocate 1]) with
  | error fault => simp [served, Except.toOption] at live
  | ok client =>
    have both : client.live = [⟨1, ⟨0, 1, 0⟩⟩, ⟨1, ⟨0, 1, 0⟩⟩] := by
      simpa [served, Except.toOption] using live
    refine ⟨client, rfl, fun safe => ?_⟩
    have apart := safe.apart
    rw [both] at apart
    exact List.rel_of_pairwise_cons apart (List.mem_singleton_self _) 0 ⟨by decide, by decide⟩

end Client

end Tlm.Crt
