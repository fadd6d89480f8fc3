import Tlm.Hexagon.VtcmPoolSafe

set_option autoImplicit false

namespace Tlm.Hexagon.HexagonVtcmPool

open Cpp Segments

-- The allocations are those of `VTCMAllocation`.
def Requested : Call → Prop
  | .allocate nbytes _ => ∃ requested alignment, vtcmAllocationBytes requested alignment = .ok nbytes
  | .free _ => True

def Smooth (pool : HexagonVtcmPool) (call : Call) : Prop :=
  Requested call ∧ ∀ block, call = .free block →
    0x800 ∣ block.start ∨ ∃ s ∈ pool.freeList, s.stop = block.start

structure Even (pool : HexagonVtcmPool) : Prop where
  ends : ∀ s ∈ pool.allocations ++ pool.freeList, 0x80 ∣ s.start ∧ 0x80 ∣ s.stop
  starts : ∀ s ∈ pool.freeList, 0x800 ∣ s.start

variable {whole : Segment} {pool next : HexagonVtcmPool} {nbytes ptr requested alignment : Nat}

theorem vtcmAllocationBytes_dvd (run : vtcmAllocationBytes requested alignment = .ok nbytes) :
    0x80 ∣ nbytes ∧ (alignment = 0x800 → 0x800 ∣ nbytes) := by
  simp only [vtcmAllocationBytes, bind_ok, pure_ok] at run
  obtain ⟨_, -, rfl⟩ := run
  split
  · exact ⟨Nat.dvd_mul_left_of_dvd (by decide) _, fun _ => Nat.dvd_mul_left ..⟩
  next other => exact ⟨Nat.dvd_mul_left .., fun same => absurd same other⟩

theorem Even.allocate (even : Even pool) (run : pool.allocate nbytes = .ok (ptr, next))
    (size : 0x80 ∣ nbytes) : Even next ∧ 0x80 ∣ ptr ∧ (0x800 ∣ nbytes → 0x800 ∣ ptr) := by
  obtain ⟨before, entry, after, left, was, now, allocated, large, cut⟩ := allocate_cases run
  have member : entry ∈ pool.freeList := by simp [was]
  obtain ⟨start, stop⟩ := even.ends entry (List.mem_append_right _ member)
  have start' := even.starts entry member
  have cutEnds : 0x80 ∣ ptr ∧ 0x80 ∣ left.start ∧ 0x80 ∣ left.stop ∧ 0x800 ∣ left.start ∧
      (0x800 ∣ nbytes → 0x800 ∣ ptr) := by
    rcases cut with ⟨rfl, touches, uneven⟩ | ⟨rfl, touches, whole⟩ <;>
      simp only [Segment.join, Segment.stop] at * <;> omega
  obtain ⟨ptr128, start128, stop128, start2k, ptr2k⟩ := cutEnds
  refine ⟨⟨fun s found => ?_, fun s found => ?_⟩, ptr128, ptr2k⟩
  · simp only [allocated, now, List.mem_append, List.mem_singleton, Segment.mem_toList] at found
    rcases found with (live | rfl) | (early | ⟨rfl, -⟩) | late
    · exact even.ends s (by simp [live])
    · exact ⟨ptr128, Nat.dvd_add ptr128 size⟩
    · exact even.ends s (by simp [was, early])
    · exact ⟨start128, stop128⟩
    · exact even.ends s (by simp [was, late])
  · simp only [now, List.mem_append, Segment.mem_toList] at found
    rcases found with (early | ⟨rfl, -⟩) | late
    · exact even.starts s (by simp [was, early])
    · exact start2k
    · exact even.starts s (by simp [was, late])

theorem Even.free (even : Even pool) (partitioned : Partitioned whole pool) {block : Segment}
    (live : block ∈ pool.allocations) (run : pool.free block.start block.length = .ok next)
    (smooth : 0x800 ∣ block.start ∨ ∃ s ∈ pool.freeList, s.stop = block.start) : Even next := by
  obtain ⟨_, again, perm, -, free⟩ := partitioned.free live
  cases run.symm.trans again
  have old := even.ends block (List.mem_append_left _ live)
  refine ⟨fun s found => ?_, fun s found => ?_⟩
  · rcases List.mem_append.1 found with kept | entry
    · exact even.ends s (List.mem_append_left _ (perm.subset (List.mem_cons_of_mem _ kept)))
    · obtain ⟨stop, start⟩ := free s entry
      constructor
      · rcases start with ⟨same, -⟩ | ⟨t, member, same⟩
        · exact same ▸ old.1
        · exact same ▸ (even.ends t (List.mem_append_right _ member)).1
      · rcases stop with same | ⟨t, member, same⟩
        · exact same ▸ old.2
        · exact same ▸ (even.ends t (List.mem_append_right _ member)).2
  · rcases (free s found).2 with ⟨same, none⟩ | ⟨t, member, same⟩
    · rcases smooth with multiple | ⟨t, member, ends⟩
      · exact same ▸ multiple
      · exact absurd ends (none t member)
    · exact same ▸ even.starts t member

theorem Reachable.even (start : 0x800 ∣ whole.start) (length : 0x800 ∣ whole.length)
    (reachable : Reachable Smooth whole pool) : Even pool := by
  induction reachable with
  | start =>
    simp only [HexagonVtcmPool.create]
    constructor <;> simp [Segment.stop] <;> omega
  | step before allowed step ih =>
    obtain ⟨asked, smooth⟩ := allowed
    cases step with
    | allocate run =>
      obtain ⟨requested, alignment, bytes⟩ := asked
      exact (ih.allocate run (vtcmAllocationBytes_dvd bytes).1).1
    | free live run =>
      rcases Nat.eq_zero_or_pos whole.length with empty | present
      · cases before.of_empty empty
        simp [create] at live
      · exact ih.free (before.partitioned present) live run (smooth _ rfl)

theorem created_aligned (start : 0x800 ∣ whole.start) (length : 0x800 ∣ whole.length)
    (reachable : Reachable Smooth whole pool)
    (bytes : vtcmAllocationBytes requested alignment = .ok nbytes)
    (run : pool.allocate nbytes = .ok (ptr, next)) :
    (alignment = 0x800 → 0x800 ∣ ptr) ∧ (alignment ≤ 0x80 → 0x80 ∣ ptr) := by
  obtain ⟨size, size2k⟩ := vtcmAllocationBytes_dvd bytes
  obtain ⟨-, ptr128, ptr2k⟩ := (reachable.even start length).allocate run size
  exact ⟨fun same => ptr2k (size2k same), fun _ => ptr128⟩

def stacked : HexagonVtcmPool where
  allocations := [⟨0x1FFF80, 0x80⟩, ⟨0x1FF700, 0x880⟩, ⟨0x1FF680, 0x80⟩]
  freeList := [⟨0x100000, 0xFF680⟩]

theorem stacked_reachable {Allowed : HexagonVtcmPool → Call → Prop}
    (asked : ∀ pool nbytes ptr, Requested (.allocate nbytes ptr) → Allowed pool (.allocate nbytes ptr)) :
    Reachable Allowed ⟨0x100000, 0x100000⟩ stacked := by
  have first : Step (create 0x100000 0x100000) (.allocate 0x80 0x1FFF80)
    ⟨[⟨0x1FFF80, 0x80⟩], [⟨0x100000, 0xFFF80⟩]⟩ := .allocate (by decide +kernel)
  have second : Step ⟨[⟨0x1FFF80, 0x80⟩], [⟨0x100000, 0xFFF80⟩]⟩ (.allocate 0x880 0x1FF700)
    ⟨[⟨0x1FFF80, 0x80⟩, ⟨0x1FF700, 0x880⟩], [⟨0x100000, 0xFF700⟩]⟩ := .allocate (by decide +kernel)
  have third : Step ⟨[⟨0x1FFF80, 0x80⟩, ⟨0x1FF700, 0x880⟩], [⟨0x100000, 0xFF700⟩]⟩
    (.allocate 0x80 0x1FF680) stacked := .allocate (by decide +kernel)
  exact ((Reachable.start.step (asked _ _ _ ⟨1, 1, rfl⟩) first).step
    (asked _ _ _ ⟨0x880, 0x80, rfl⟩) second).step (asked _ _ _ ⟨0x80, 0x80, rfl⟩) third

-- The block that was taken last is freed first.
theorem created_aligned_last : ∃ pool next,
    Reachable Smooth ⟨0x100000, 0x100000⟩ pool ∧ vtcmAllocationBytes 1 0x800 = .ok 0x800 ∧
      pool.allocate 0x800 = .ok (0x100000, next) ∧
      (0x800 = 0x800 → 0x800 ∣ 0x100000) ∧ (0x800 ≤ 0x80 → 0x80 ∣ 0x100000) := by
  have freed : Step stacked (.free ⟨0x1FF680, 0x80⟩)
    ⟨[⟨0x1FFF80, 0x80⟩, ⟨0x1FF700, 0x880⟩], [⟨0x100000, 0xFF700⟩]⟩ :=
    .free (by simp [stacked]) (by decide +kernel)
  have smooth : Smooth stacked (.free ⟨0x1FF680, 0x80⟩) := by
    refine ⟨trivial, ?_⟩
    rintro _ ⟨⟩
    exact .inr ⟨⟨0x100000, 0xFF680⟩, by simp [stacked], rfl⟩
  have reachable : Reachable Smooth ⟨0x100000, 0x100000⟩ _ :=
    (stacked_reachable fun _ _ _ asked => ⟨asked, by simp⟩).step smooth freed
  have run : allocate ⟨[⟨0x1FFF80, 0x80⟩, ⟨0x1FF700, 0x880⟩], [⟨0x100000, 0xFF700⟩]⟩ 0x800 =
      .ok (0x100000, ⟨[⟨0x1FFF80, 0x80⟩, ⟨0x1FF700, 0x880⟩, ⟨0x100000, 0x800⟩],
        [⟨0x100800, 0xFEF00⟩]⟩) := by decide +kernel
  have bytes : vtcmAllocationBytes 1 0x800 = .ok 0x800 := rfl
  exact ⟨_, _, reachable, bytes, run, created_aligned (by decide) (by decide) reachable bytes run⟩

-- The second block is freed while the third is live, and the best fit is the gap between the others.
theorem gap_misaligned : ∃ pool next,
    Reachable (fun _ => Requested) ⟨0x100000, 0x100000⟩ pool ∧
      vtcmAllocationBytes 0x800 0x800 = .ok 0x800 ∧
      pool.allocate 0x800 = .ok (0x1FF700, next) ∧ ¬ 0x800 ∣ 0x1FF700 := by
  have freed : Step stacked (.free ⟨0x1FF700, 0x880⟩) ⟨[⟨0x1FFF80, 0x80⟩, ⟨0x1FF680, 0x80⟩],
    [⟨0x100000, 0xFF680⟩, ⟨0x1FF700, 0x880⟩]⟩ := .free (by simp [stacked]) (by decide +kernel)
  have reachable : Reachable (fun _ => Requested) ⟨0x100000, 0x100000⟩ _ :=
    (stacked_reachable fun _ _ _ asked => asked).step (show Requested (.free _) from trivial) freed
  have run : allocate ⟨[⟨0x1FFF80, 0x80⟩, ⟨0x1FF680, 0x80⟩], [⟨0x100000, 0xFF680⟩, ⟨0x1FF700, 0x880⟩]⟩ 0x800 =
      .ok (0x1FF700, ⟨[⟨0x1FFF80, 0x80⟩, ⟨0x1FF680, 0x80⟩, ⟨0x1FF700, 0x800⟩],
        [⟨0x100000, 0xFF680⟩, ⟨0x1FFF00, 0x80⟩]⟩) := by decide +kernel
  exact ⟨_, _, reachable, rfl, run, by decide⟩

end Tlm.Hexagon.HexagonVtcmPool
