import Mathlib.Data.List.Perm.Basic
import Mathlib.Data.List.TakeWhile
import Tlm.Hexagon.VtcmPool

set_option autoImplicit false

namespace Tlm.Hexagon.HexagonVtcmPool

open Cpp Segments

theorem bestFit_mem (nbytes : Nat) (entry : Segment × Nat) (later : List (Segment × Nat)) :
    bestFit nbytes entry later ∈ entry :: later := by
  induction later generalizing entry with
  | nil => simp [bestFit]
  | cons it later ih =>
    simp only [bestFit]
    split
    · split
      · simp
      · exact List.mem_cons_of_mem _ (ih it)
    · have := ih entry
      simp only [List.mem_cons] at this ⊢
      tauto

variable {pool next : HexagonVtcmPool} {nbytes ptr : Nat}

theorem allocate_cases (run : pool.allocate nbytes = .ok (ptr, next)) :
    ∃ before entry after left, pool.freeList = before ++ entry :: after ∧
      next.freeList = before ++ left.toList ++ after ∧
      next.allocations = pool.allocations ++ [⟨ptr, nbytes⟩] ∧ 0x80 ≤ nbytes ∧
      ((entry = left.join ⟨ptr, nbytes⟩ ∧ left.stop = ptr ∧ nbytes % 0x800 ≠ 0) ∨
        (entry = (⟨ptr, nbytes⟩ : Segment).join left ∧ (⟨ptr, nbytes⟩ : Segment).stop = left.start ∧
          nbytes % 0x800 = 0)) := by
  simp only [allocate, bind_ok, found_ok, ensure_ok, decide_eq_true_eq] at run
  obtain ⟨first, isFirst, last, isLast, _, large, run⟩ := run
  split at run
  next uneven =>
    simp only [allocateFromEnd, bind_ok, ensure_ok, decide_eq_true_eq] at run
    obtain ⟨_, fits, rfl, rfl⟩ := run
    obtain ⟨init, same⟩ := List.getLast?_eq_some_iff.1 isLast
    refine ⟨init, last, [], ⟨last.start, last.length - nbytes⟩, same, by simp [same], rfl, large,
      .inl ⟨?_, rfl, uneven⟩⟩
    simp [Segment.join, Nat.sub_add_cancel fits]
  next even =>
    simp only [allocateFromFront, bind_ok, ensure_ok, decide_eq_true_eq] at run
    obtain ⟨_, fits, rfl, rfl⟩ := run
    have found : bestFit nbytes (first, 0) pool.freeList.zipIdx ∈ pool.freeList.zipIdx := by
      rcases List.mem_cons.1 (bestFit_mem nbytes (first, 0) pool.freeList.zipIdx) with same | later
      · simpa [same, List.mem_zipIdx_iff_getElem?, List.head?_eq_getElem?] using isFirst
      · exact later
    rw [List.mem_zipIdx_iff_getElem?] at found
    generalize bestFit nbytes (first, 0) pool.freeList.zipIdx = chosen at *
    obtain ⟨bound, same⟩ := List.getElem?_eq_some_iff.1 found
    refine ⟨pool.freeList.take chosen.2, chosen.1, pool.freeList.drop (chosen.2 + 1),
      ⟨chosen.1.start + nbytes, chosen.1.length - nbytes⟩, ?_, ?_, rfl, large,
      .inr ⟨?_, rfl, by simpa using even⟩⟩
    · rw [← same, ← List.drop_eq_getElem_cons bound, List.take_append_drop]
    · split
      next whole => simp [whole, Segment.toList, List.eraseIdx_eq_take_drop_succ]
      next part =>
        rw [Segment.toList, if_neg (by simp only; omega), List.set_eq_take_append_cons_drop, if_pos bound]
        simp
    · simp [Segment.join, Nat.add_sub_cancel' fits]

variable {block : Segment}

theorem joinNext_spec {after : List Segment} (order : ∀ s ∈ after, block.stop ≤ s.start)
    (present : 0 < block.length) (separated : Separated after) :
    ∃ joined later, joinNext block after = .ok (joined, later) ∧ joined.start = block.start ∧
      0 < joined.length ∧ (∀ s ∈ later, s ∈ after) ∧ Separated (joined :: later) ∧
      (joined.stop = block.stop ∨ ∃ t ∈ after, joined.stop = t.stop) ∧
      ∀ place, coverage (joined :: later) place = coverage (block :: after) place := by
  cases after with
  | nil => exact ⟨block, [], rfl, rfl, present, by simp, by simp [Separated], .inl rfl, by simp⟩
  | cons next later =>
    have behind := order next (by simp)
    have distinct : block.start ≠ next.start := by
      simp only [Segment.stop] at behind
      omega
    obtain ⟨gap, separated'⟩ := List.pairwise_cons.1 separated
    by_cases touches : block.stop = next.start
    · have stop := Segment.join_stop touches
      refine ⟨block.join next, later, ?_, rfl, Nat.add_pos_left present _, by simp +contextual,
        List.pairwise_cons.2 ⟨fun t member => ?_, separated'⟩, .inr ⟨next, by simp, stop⟩,
        by simp [Segment.join_count touches, Nat.add_assoc]⟩
      · simp [joinNext, distinct, touches]
      · rw [stop]
        exact gap t member
    · refine ⟨block, next :: later, ?_, rfl, present, by simp,
        List.pairwise_cons.2 ⟨fun t member => ?_, separated⟩, .inl rfl, fun _ => rfl⟩
      · simp [joinNext, distinct, touches, behind]
      · rcases List.mem_cons.1 member with rfl | further
        · omega
        · have := gap t further
          simp only [Segment.stop] at *
          omega

theorem joinPrevious_spec {before later : List Segment} {it : Segment}
    (order : ∀ s ∈ before, s.stop ≤ it.start) (separated : Separated before)
    (behind : Separated (it :: later)) (present : 0 < it.length) :
    ∃ earlier, joinPrevious before it = .ok earlier ∧ Separated (earlier ++ later) ∧
      (∀ s ∈ earlier, s ∈ before ∨ (0 < s.length ∧ s.stop = it.stop ∧
        (s.start = it.start ∧ (∀ t ∈ before, t.stop ≠ it.start) ∨ ∃ t ∈ before, s.start = t.start))) ∧
      ∀ place, coverage earlier place = coverage (it :: before) place := by
  have gaps := List.pairwise_cons.1 behind
  rcases List.eq_nil_or_concat' before with rfl | ⟨init, previous, rfl⟩
  · exact ⟨[it], rfl, behind, by simp [present], by simp⟩
  · have room := order previous (by simp)
    obtain ⟨initial, -, gap⟩ := List.pairwise_append.1 separated
    have far (t : Segment) (member : t ∈ init) : t.stop < previous.start := gap t member previous (by simp)
    -- A gap before the previous entry lies before the block too.
    have further {s t : Segment} (first : s.stop < previous.start) (second : it.stop < t.start) :
        s.stop < t.start := by
      simp only [Segment.stop] at *
      omega
    by_cases touches : previous.stop = it.start
    · have stop := Segment.join_stop touches
      refine ⟨init ++ [previous.join it], ?_, ?_, ?_, fun place => ?_⟩
      · simp [joinPrevious, touches]
      · simp only [Separated, List.append_assoc, List.singleton_append, List.pairwise_append,
          List.pairwise_cons, List.forall_mem_cons, stop]
        exact ⟨initial, gaps, fun t member => ⟨far t member, fun u later =>
          further (far t member) (gaps.1 u later)⟩⟩
      · intro s member
        rcases List.mem_append.1 member with early | last
        · exact .inl (List.mem_append_left _ early)
        · cases List.mem_singleton.1 last
          exact .inr ⟨Nat.add_pos_right _ present, stop, .inr ⟨previous, by simp, rfl⟩⟩
      · simp only [coverage_append, coverage_cons, Segment.join_count touches]
        omega
    · have short (t : Segment) (member : t ∈ init ++ [previous]) : t.stop < it.start := by
        rcases List.mem_append.1 member with early | last
        · have := far t early
          simp only [Segment.stop] at *
          omega
        · cases List.mem_singleton.1 last
          omega
      refine ⟨init ++ [previous] ++ [it], ?_, ?_, ?_, by simp [Nat.add_left_comm, Nat.add_comm]⟩
      · simp [joinPrevious, touches, room]
      · rw [List.append_assoc]
        refine List.pairwise_append.2 ⟨separated, behind, fun t early u late => ?_⟩
        have := short t early
        rcases List.mem_cons.1 late with rfl | later
        · exact this
        · have := gaps.1 u later
          simp only [Segment.stop] at *
          omega
      · intro s member
        rcases List.mem_append.1 member with early | last
        · exact .inl early
        · cases List.mem_singleton.1 last
          exact .inr ⟨present, rfl, .inl ⟨rfl, fun t early => Nat.ne_of_lt (short t early)⟩⟩

structure Partitioned (whole : Segment) (pool : HexagonVtcmPool) : Prop where
  covered : ∀ place, coverage (pool.allocations ++ pool.freeList) place = coverage [whole] place
  separated : Separated pool.freeList
  nonempty : ∀ s ∈ pool.allocations ++ pool.freeList, 0 < s.length

variable {whole : Segment} {s t : Segment}

theorem Partitioned.once (partitioned : Partitioned whole pool) {rest : List Segment}
    (perm : (s :: rest).Perm (pool.allocations ++ pool.freeList)) (member : t ∈ rest) :
    s.stop ≤ t.start ∨ t.stop ≤ s.start := by
  have apart : Apart s t := by
    refine apart_of_coverage (fun place => ?_) member
    rw [coverage_perm perm, partitioned.covered, coverage_cons, Segment.count]
    split <;> simp
  exact apart.order (partitioned.nonempty s (perm.subset (by simp)))
    (partitioned.nonempty t (perm.subset (by simp [member])))

theorem Partitioned.allocate (partitioned : Partitioned whole pool)
    (run : pool.allocate nbytes = .ok (ptr, next)) : Partitioned whole next := by
  obtain ⟨before, entry, after, left, was, now, allocated, large, cut⟩ := allocate_cases run
  have covered (place : Nat) : entry.count place =
      left.count place + (⟨ptr, nbytes⟩ : Segment).count place := by
    rcases cut with ⟨rfl, touches, -⟩ | ⟨rfl, touches, -⟩
    · exact Segment.join_count touches place
    · rw [Segment.join_count touches, Nat.add_comm]
  have inside : entry.start ≤ left.start ∧ left.stop ≤ entry.stop := by
    rcases cut with ⟨rfl, touches, -⟩ | ⟨rfl, touches, -⟩ <;>
      simp only [Segment.join, Segment.stop] at * <;> omega
  refine ⟨fun place => ?_, ?_, fun s member => ?_⟩
  · have whole := partitioned.covered place
    have := covered place
    simp only [was, now, allocated, coverage_append, coverage_cons, coverage_nil, coverage_toList] at *
    omega
  · rw [now]
    exact (was ▸ partitioned.separated).shrink inside.1 inside.2
  · have nonempty := partitioned.nonempty s
    simp only [was, now, allocated, List.mem_append, List.mem_cons, List.not_mem_nil, or_false,
      Segment.mem_toList] at member nonempty
    rcases member with (live | rfl) | (early | ⟨rfl, some⟩) | late
    · exact nonempty (.inl live)
    · exact Nat.lt_of_lt_of_le (by decide) large
    · exact nonempty (.inr (.inl early))
    · exact some
    · exact nonempty (.inr (.inr (.inr late)))

theorem start_lt_of_mem_dropWhile (ptr : Nat) {segments : List Segment} (separated : Separated segments) :
    ∀ s ∈ segments.dropWhile fun entry => entry.start ≤ ptr, ptr < s.start := by
  induction segments with
  | nil => simp
  | cons first later ih =>
    obtain ⟨gap, separated⟩ := List.pairwise_cons.1 separated
    rw [List.dropWhile_cons]
    split
    · exact ih separated
    next behind =>
      intro s member
      simp only [decide_eq_true_eq] at behind
      rcases List.mem_cons.1 member with rfl | further
      · omega
      · have := gap s further
        simp only [Segment.stop] at this
        omega

theorem Partitioned.eq_of_start (partitioned : Partitioned whole pool) (liveS : s ∈ pool.allocations)
    (liveT : t ∈ pool.allocations) (same : s.start = t.start) : s = t := by
  by_contra differ
  have perm := (List.perm_cons_erase liveS).symm.append_right pool.freeList
  have order := partitioned.once perm (t := t)
    (List.mem_append_left _ ((List.mem_erase_of_ne (Ne.symm differ)).2 liveT))
  have someS := partitioned.nonempty s (List.mem_append_left _ liveS)
  have someT := partitioned.nonempty t (List.mem_append_left _ liveT)
  simp only [Segment.stop] at order
  omega

theorem join_spec {entries : List Segment} (present : 0 < block.length) (separated : Separated entries)
    (nonempty : ∀ s ∈ entries, 0 < s.length)
    (order : ∀ s ∈ entries, block.stop ≤ s.start ∨ s.stop ≤ block.start) :
    ∃ joined later earlier,
      joinNext block (entries.dropWhile fun entry => entry.start ≤ block.start) = .ok (joined, later) ∧
      joinPrevious (entries.takeWhile fun entry => entry.start ≤ block.start) joined = .ok earlier ∧
      Separated (earlier ++ later) ∧
      (∀ place, coverage (earlier ++ later) place = block.count place + coverage entries place) ∧
      ∀ s ∈ earlier ++ later, 0 < s.length ∧
        (s.stop = block.stop ∨ ∃ t ∈ entries, s.stop = t.stop) ∧
        (s.start = block.start ∧ (∀ t ∈ entries, t.stop ≠ block.start) ∨ ∃ t ∈ entries, s.start = t.start) := by
  have behind := start_lt_of_mem_dropWhile block.start separated
  have ahead (s : Segment) (member : s ∈ entries.takeWhile fun entry => entry.start ≤ block.start) :
      s.start ≤ block.start := by
    simpa using List.mem_takeWhile_imp member
  have whole : entries.takeWhile (fun entry => decide (entry.start ≤ block.start)) ++
      entries.dropWhile (fun entry => entry.start ≤ block.start) = entries :=
    List.takeWhile_append_dropWhile
  generalize entries.takeWhile (fun entry => entry.start ≤ block.start) = before at *
  generalize entries.dropWhile (fun entry => entry.start ≤ block.start) = after at *
  subst whole
  obtain ⟨separatedB, separatedA, -⟩ := List.pairwise_append.1 separated
  -- An entry that does not start behind the block ends before it.
  have early (s : Segment) (member : s ∈ before) : s.stop ≤ block.start := by
    have := order s (List.mem_append_left _ member)
    have := ahead s member
    simp only [Segment.stop] at *
    omega
  have late (s : Segment) (member : s ∈ after) : block.stop ≤ s.start := by
    have := order s (List.mem_append_right _ member)
    have := behind s member
    simp only [Segment.stop] at *
    omega
  obtain ⟨joined, later, next, start, some, kept, separatedN, stop, covered⟩ :=
    joinNext_spec late present separatedA
  obtain ⟨earlier, previous, separatedP, ends, coveredP⟩ :=
    joinPrevious_spec (fun s member => start ▸ early s member) separatedB separatedN some
  refine ⟨joined, later, earlier, next, previous, separatedP, fun place => ?_, fun s member => ?_⟩
  · have := covered place
    have := coveredP place
    simp only [coverage_append, coverage_cons] at *
    omega
  · have old {s : Segment} (member : s ∈ before ++ after) : 0 < s.length ∧
        (s.stop = block.stop ∨ ∃ t ∈ before ++ after, s.stop = t.stop) ∧
        (s.start = block.start ∧ (∀ t ∈ before ++ after, t.stop ≠ block.start) ∨
          ∃ t ∈ before ++ after, s.start = t.start) :=
      ⟨nonempty s member, .inr ⟨s, member, rfl⟩, .inr ⟨s, member, rfl⟩⟩
    rcases List.mem_append.1 member with front | back
    · rcases ends s front with same | ⟨present', stop', starts⟩
      · exact old (List.mem_append_left _ same)
      · refine ⟨present', ?_, ?_⟩
        · rcases stop with same | ⟨t, member, same⟩
          · exact .inl (stop'.trans same)
          · exact .inr ⟨t, List.mem_append_right _ member, stop'.trans same⟩
        · rcases starts with ⟨same, none⟩ | ⟨t, member, same⟩
          · refine .inl ⟨same.trans start, fun t member => ?_⟩
            rcases List.mem_append.1 member with front | back
            · exact start ▸ none t front
            · have := late t back
              simp only [Segment.stop] at *
              omega
          · exact .inr ⟨t, List.mem_append_left _ member, same⟩
    · exact old (List.mem_append_right _ (kept s back))

theorem Partitioned.free (partitioned : Partitioned whole pool) (live : block ∈ pool.allocations) :
    ∃ next, pool.free block.start block.length = .ok next ∧
      (block :: next.allocations).Perm pool.allocations ∧ Partitioned whole next ∧
      ∀ s ∈ next.freeList, (s.stop = block.stop ∨ ∃ t ∈ pool.freeList, s.stop = t.stop) ∧
        (s.start = block.start ∧ (∀ t ∈ pool.freeList, t.stop ≠ block.start) ∨
          ∃ t ∈ pool.freeList, s.start = t.start) := by
  obtain ⟨other, left, right, -, start, split, erased⟩ :=
    List.exists_of_eraseP (p := fun entry => decide (entry.start = block.start)) live (by simp)
  obtain rfl : other = block :=
    partitioned.eq_of_start (by simp [split]) live (by simpa using start)
  have perm : (other :: pool.allocations.eraseP fun entry => entry.start = other.start).Perm
      pool.allocations := by
    rw [erased, split]
    exact List.perm_middle.symm
  have known : (pool.allocations.find? fun entry => entry.start = other.start) = some other := by
    cases found : pool.allocations.find? fun entry => entry.start = other.start with
    | none => simpa using List.find?_eq_none.1 found other live
    | some entry =>
      rw [partitioned.eq_of_start (List.mem_of_find?_eq_some found) live (by simpa using List.find?_some found)]
  obtain ⟨joined, later, earlier, next, previous, separated, covered, ends⟩ :=
    join_spec (partitioned.nonempty other (List.mem_append_left _ live)) partitioned.separated
      (fun s member => partitioned.nonempty s (List.mem_append_right _ member))
      (fun s member => partitioned.once (perm.append_right _) (List.mem_append_right _ member))
  refine ⟨⟨pool.allocations.eraseP fun entry => entry.start = other.start, earlier ++ later⟩, ?_, perm,
    ⟨fun place => ?_, separated, fun s member => ?_⟩, fun s member => (ends s member).2⟩
  · simp only [HexagonVtcmPool.free, known, ok_bind, next, previous]
    simp
  · have := coverage_perm perm place
    have := covered place
    rw [← partitioned.covered]
    simp only [coverage_append, coverage_cons] at *
    omega
  · rcases List.mem_append.1 member with live' | free
    · exact partitioned.nonempty s (List.mem_append_left _ (perm.subset (by simp [live'])))
    · exact (ends s free).1

theorem Partitioned.create (present : 0 < whole.length) : Partitioned whole (create whole.start whole.length) :=
  ⟨fun _ => rfl, by simp [HexagonVtcmPool.create, Separated], by simpa [HexagonVtcmPool.create] using present⟩

theorem Step.partitioned {call : Call} (step : Step pool call next) (before : Partitioned whole pool) :
    Partitioned whole next := by
  cases step with
  | allocate run => exact before.allocate run
  | free live run =>
    obtain ⟨next, again, -, after, -⟩ := before.free live
    cases run.symm.trans again
    exact after

variable {Allowed : HexagonVtcmPool → Call → Prop}

theorem Reachable.partitioned (present : 0 < whole.length) (reachable : Reachable Allowed whole pool) : Partitioned whole pool := by
  induction reachable with
  | start => exact .create present
  | step _ _ step ih => exact step.partitioned ih

theorem Reachable.of_empty (empty : whole.length = 0) (reachable : Reachable Allowed whole pool) : pool = create whole.start whole.length := by
  induction reachable with
  | start => rfl
  | step _ _ step ih =>
    subst ih
    cases step with
    | allocate run =>
      obtain ⟨before, entry, after, left, was, -, -, large, cut⟩ := allocate_cases run
      have member : entry ∈ (HexagonVtcmPool.create whole.start whole.length).freeList := by simp [was]
      have same : entry = whole := by simpa [HexagonVtcmPool.create] using member
      rcases cut with ⟨rfl, -⟩ | ⟨rfl, -⟩ <;> simp only [← same, Segment.join] at empty <;> omega
    | free live => simp [HexagonVtcmPool.create] at live

theorem pool_partitioned (reachable : Reachable (fun _ _ => True) whole pool) :
    (∀ place, coverage (pool.allocations ++ pool.freeList) place =
      if whole.start ≤ place ∧ place < whole.start + whole.length then 1 else 0) ∧
    pool.freeList.Pairwise (fun s t => s.start + s.length < t.start) ∧
    (∀ nbytes ptr next, pool.allocate nbytes = .ok (ptr, next) →
      next.allocations = pool.allocations ++ [⟨ptr, nbytes⟩]) ∧
    (∀ block ∈ pool.allocations, ∃ next, pool.free block.start block.length = .ok next ∧
      (block :: next.allocations).Perm pool.allocations) ∧
    (pool.allocations = [] → pool.freeList = [whole]) := by
  have sizes (nbytes ptr : Nat) (next : HexagonVtcmPool) (run : pool.allocate nbytes = .ok (ptr, next)) :
      next.allocations = pool.allocations ++ [⟨ptr, nbytes⟩] := by
    obtain ⟨_, _, _, _, -, -, allocated, -⟩ := allocate_cases run
    exact allocated
  rcases Nat.eq_zero_or_pos whole.length with empty | present
  · cases reachable.of_empty empty
    exact ⟨fun _ => rfl, by simp [create], sizes, by simp [create], fun _ => rfl⟩
  · have partitioned := reachable.partitioned present
    refine ⟨partitioned.covered, partitioned.separated, sizes, fun block live => ?_, fun freed => ?_⟩
    · obtain ⟨next, run, perm, -⟩ := partitioned.free live
      exact ⟨next, run, perm⟩
    · have covered := partitioned.covered
      have nonempty := partitioned.nonempty
      rw [freed, List.nil_append] at covered nonempty
      exact partitioned.separated.eq_singleton nonempty present covered

-- A block is taken from the front, then one from the end, and the first is freed.
theorem pool_partitioned_back :
    Reachable (fun _ _ => True) ⟨0x100000, 0x100000⟩ ⟨[⟨0x1FFF80, 0x80⟩], [⟨0x100000, 0xFFF80⟩]⟩ ∧
    ∀ place, coverage [⟨0x1FFF80, 0x80⟩, ⟨0x100000, 0xFFF80⟩] place =
      if 0x100000 ≤ place ∧ place < 0x100000 + 0x100000 then 1 else 0 := by
  have front : Step (create 0x100000 0x100000) (.allocate 0x800 0x100000)
    ⟨[⟨0x100000, 0x800⟩], [⟨0x100800, 0xFF800⟩]⟩ :=
    .allocate (by decide +kernel)
  have back : Step ⟨[⟨0x100000, 0x800⟩], [⟨0x100800, 0xFF800⟩]⟩ (.allocate 0x80 0x1FFF80)
    ⟨[⟨0x100000, 0x800⟩, ⟨0x1FFF80, 0x80⟩], [⟨0x100800, 0xFF780⟩]⟩ :=
    .allocate (by decide +kernel)
  have freed : Step ⟨[⟨0x100000, 0x800⟩, ⟨0x1FFF80, 0x80⟩], [⟨0x100800, 0xFF780⟩]⟩
    (.free ⟨0x100000, 0x800⟩) ⟨[⟨0x1FFF80, 0x80⟩], [⟨0x100000, 0xFFF80⟩]⟩ :=
    .free (by simp) (by decide +kernel)
  have reachable : Reachable (fun _ _ => True) ⟨0x100000, 0x100000⟩ _ :=
    ((Reachable.start.step trivial front).step trivial back).step trivial freed
  exact ⟨reachable, (pool_partitioned reachable).1⟩

def freeAll (pool : HexagonVtcmPool) (blocks : List Segment) : Except Fault HexagonVtcmPool :=
  blocks.foldlM (fun pool block => pool.free block.start block.length) pool

theorem Partitioned.freeAll (present : 0 < whole.length) {blocks : List Segment}
    (partitioned : Partitioned whole pool) (perm : blocks.Perm pool.allocations) :
    pool.freeAll blocks = .ok (.create whole.start whole.length) := by
  induction blocks generalizing pool with
  | nil =>
    obtain ⟨allocations, freeList⟩ := pool
    obtain rfl : allocations = [] := perm.nil_eq.symm
    have free := partitioned.separated.eq_singleton partitioned.nonempty present partitioned.covered
    obtain rfl : freeList = [whole] := free
    rfl
  | cons block blocks ih =>
    obtain ⟨next, run, rest, partitioned, -⟩ := partitioned.free (perm.subset List.mem_cons_self)
    rw [HexagonVtcmPool.freeAll, List.foldlM_cons, run]
    exact ih partitioned (perm.trans rest.symm).cons_inv

theorem frees_restore (reachable : Reachable (fun _ _ => True) whole pool) {blocks : List Segment}
    (perm : blocks.Perm pool.allocations) : pool.freeAll blocks = .ok (create whole.start whole.length) := by
  rcases Nat.eq_zero_or_pos whole.length with empty | present
  · cases reachable.of_empty empty
    rw [perm.eq_nil]
    rfl
  · exact (reachable.partitioned present).freeAll present perm

theorem frees_restore_middle :
    freeAll ⟨[⟨0x100000, 0x800⟩, ⟨0x1FFF80, 0x80⟩, ⟨0x100800, 0x1000⟩], [⟨0x101800, 0xFE780⟩]⟩
      [⟨0x100800, 0x1000⟩, ⟨0x100000, 0x800⟩, ⟨0x1FFF80, 0x80⟩] = .ok (create 0x100000 0x100000) := by
  have front : Step (create 0x100000 0x100000) (.allocate 0x800 0x100000)
    ⟨[⟨0x100000, 0x800⟩], [⟨0x100800, 0xFF800⟩]⟩ := .allocate (by decide +kernel)
  have back : Step ⟨[⟨0x100000, 0x800⟩], [⟨0x100800, 0xFF800⟩]⟩ (.allocate 0x80 0x1FFF80)
    ⟨[⟨0x100000, 0x800⟩, ⟨0x1FFF80, 0x80⟩], [⟨0x100800, 0xFF780⟩]⟩ :=
    .allocate (by decide +kernel)
  have middle : Step ⟨[⟨0x100000, 0x800⟩, ⟨0x1FFF80, 0x80⟩], [⟨0x100800, 0xFF780⟩]⟩
    (.allocate 0x1000 0x100800) ⟨[⟨0x100000, 0x800⟩, ⟨0x1FFF80, 0x80⟩, ⟨0x100800, 0x1000⟩], [⟨0x101800, 0xFE780⟩]⟩ :=
    .allocate (by decide +kernel)
  have reachable : Reachable (fun _ _ => True) ⟨0x100000, 0x100000⟩ _ :=
    ((Reachable.start.step trivial front).step trivial back).step trivial middle
  exact frees_restore reachable (by decide)

end Tlm.Hexagon.HexagonVtcmPool
