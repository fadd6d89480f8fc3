import Tlm.AutoScheduler.AttachMap
import Tlm.AutoScheduler.PrimitiveSpec

set_option autoImplicit false

namespace Tlm.AutoScheduler

open Cpp AttachMap

def iterKey (i k : Nat) : IterKey := (i, k)

@[simp] theorem iterKey_inj {i k i' k' : Nat} : iterKey i k = iterKey i' k' ↔ i = i' ∧ k = k' := by
  simp only [iterKey, Prod.mk.injEq]
  omega

def splitMoves (i j count size : Nat) : List (IterKey × IterKey) :=
  (List.range' j (size - j)).map fun k => (iterKey i k, iterKey i (k + count))

section

variable {i j count size : Nat}

theorem mem_splitMoves {move : IterKey × IterKey} :
    move ∈ splitMoves i j count size ↔
      ∃ k, (j ≤ k ∧ k < size) ∧ move = (iterKey i k, iterKey i (k + count)) := by
  simp only [splitMoves, List.mem_map, List.mem_range'_1]
  constructor
  · rintro ⟨k, inside, rfl⟩
    exact ⟨k, by omega, rfl⟩
  · rintro ⟨k, inside, rfl⟩
    exact ⟨k, by omega, rfl⟩

theorem splitMoves_distinct : ((splitMoves i j count size).map Prod.fst).Nodup := by
  rw [splitMoves, List.map_map]
  apply List.Nodup.map _ List.nodup_range'
  intro left right same
  exact (iterKey_inj.mp same).2

variable {k : Nat}

theorem splitMoves_relocate (inside : j ≤ k ∧ k < size) :
    relocate (splitMoves i j count size) (iterKey i k) = iterKey i (k + count) :=
  relocate_of_mem splitMoves_distinct (mem_splitMoves.mpr ⟨k, inside, rfl⟩)

theorem splitMoves_stays {key : IterKey} (outside : ¬∃ k, (j ≤ k ∧ k < size) ∧ key = iterKey i k) :
    relocate (splitMoves i j count size) key = key := by
  apply relocate_of_not_mem
  intro moved
  obtain ⟨move, member, rfl⟩ := List.mem_map.mp moved
  obtain ⟨k, inside, rfl⟩ := mem_splitMoves.mp member
  exact outside ⟨k, inside, rfl⟩

def SplitClash (map : AttachMap) (i j count size : Nat) : Prop :=
  ∃ k, (j ≤ k ∧ k < size) ∧ size ≤ k + count ∧
    map.Carries (iterKey i k) ∧ map.Carries (iterKey i (k + count))

theorem splitMoves_alone_of_lt (map : AttachMap) (inside : k < size) :
    map.Alone (splitMoves i j count size) (iterKey i k) := by
  intro other moved _ same
  obtain ⟨move, member, rfl⟩ := List.mem_map.mp moved
  obtain ⟨l, bounds, rfl⟩ := mem_splitMoves.mp member
  rw [splitMoves_relocate bounds] at same
  by_cases behind : j ≤ k
  · rw [splitMoves_relocate ⟨behind, inside⟩, iterKey_inj] at same
    rw [iterKey_inj]
    omega
  · rw [splitMoves_stays (by simp; omega), iterKey_inj] at same
    omega

theorem splitMoves_alone (map : AttachMap) :
    (∀ key, map.Carries key → map.Alone (splitMoves i j count size) key) ↔ ¬SplitClash map i j count size := by
  constructor
  · rintro alone ⟨k, inside, behind, carries, carries'⟩
    have stays : relocate (splitMoves i j count size) (iterKey i (k + count)) =
        iterKey i (k + count) := splitMoves_stays (by simp; omega)
    have moved : iterKey i k ∈ (splitMoves i j count size).map Prod.fst :=
      List.mem_map.mpr ⟨_, mem_splitMoves.mpr ⟨k, inside, rfl⟩, rfl⟩
    have same := alone _ carries' _ moved carries (by rw [stays, splitMoves_relocate inside])
    rw [iterKey_inj] at same
    omega
  · intro clash key carries
    by_cases own : ∃ k < size, key = iterKey i k
    · obtain ⟨k, inside, rfl⟩ := own
      exact splitMoves_alone_of_lt map inside
    · intro other moved carries' same
      obtain ⟨move, member, rfl⟩ := List.mem_map.mp moved
      obtain ⟨l, bounds, rfl⟩ := mem_splitMoves.mp member
      have outside : ¬∃ k, (j ≤ k ∧ k < size) ∧ key = iterKey i k :=
        fun ⟨k, bounds, here⟩ => own ⟨k, bounds.2, here⟩
      rw [splitMoves_relocate bounds, splitMoves_stays outside] at same
      subst same
      refine absurd ⟨l, bounds, ?_, carries', carries⟩ clash
      by_contra short
      exact own ⟨l + count, by omega, rfl⟩

theorem splitRanges_length : ∀ {range : Option Range} {lengths : List (Option Int32)}
    {ranges : List (Option Range)}, splitRanges range lengths = .ok ranges →
    ranges.length = lengths.length + 1 := by
  intro range lengths
  fun_induction splitRanges range lengths with
  | case1 =>
    intro ranges run
    cases run
    rfl
  | case2 _ _ _ _ ih =>
    intro ranges run
    simp only [bind_ok, pure_ok] at run
    obtain ⟨_, -, rest, later, rfl⟩ := run
    simp [ih _ later]
  | case3 _ _ _ _ ih =>
    intro ranges run
    simp only [bind_ok, pure_ok] at run
    obtain ⟨rest, later, rfl⟩ := run
    simp [ih later]

theorem applySplit_ok {stageId iterId : Int32} {lengths : List (Option Int32)}
    {innerToOuter : Bool} {s s' : State} (run : applySplit stageId iterId lengths innerToOuter s = .ok s') :
    ∃ (i j : Nat) (stage : Stage) (iter : Iterator) (outs : List Iterator),
      stageId.toInt = i ∧ iterId.toInt = j ∧ s.stages[i]? = some stage ∧
      stage.iters[j]? = some iter ∧ outs.length = lengths.length + 1 ∧
      s'.stages = s.stages.set i
        { stage with iters := stage.iters.take j ++ outs ++ stage.iters.drop (j + 1) } ∧
      s'.attachMap = s.attachMap.updateIters (splitMoves i j lengths.length stage.iters.length) := by
  simp only [applySplit, bind_ok, Prod.exists, stageAt_ok, iterAt_ok, pure_ok] at run
  obtain ⟨i, stage, ⟨same, present⟩, j, iter, ⟨sameIter, inside⟩, ranges, ordered, rfl⟩ := run
  refine ⟨i, j, stage, iter, _, same, sameIter, present, inside, ?_, rfl, ?_⟩
  · simp only [splitIters, List.length_mapIdx]
    unfold orderedRanges at ordered
    split at ordered
    · rw [map_ok] at ordered
      obtain ⟨ranges, ordered, rfl⟩ := ordered
      simp [splitRanges_length ordered]
    · exact splitRanges_length ordered
  · rfl

end

-- The position of an iterator after the iterators from `first` to `last` became one.
def fusedPlace (first last p : Nat) : Nat :=
  if p < first then p else if p ≤ last then first else p - last + first

section

variable {i first last size : Nat}

theorem mem_fuseMoves {move : IterKey × IterKey} :
    move ∈ fuseMoves i first last size ↔
      ∃ j, (first < j ∧ j < size) ∧ move = (iterKey i j, iterKey i (fusedPlace first last j)) := by
  -- one round of the loop that fills the two vectors
  have round : ∀ j, (if j ≤ first then none
      else if last < j then some (((i, j), (i, j - last + first)) : IterKey × IterKey)
      else some ((i, j), (i, first))) = some move ↔
        first < j ∧ move = (iterKey i j, iterKey i (fusedPlace first last j)) := by
    intro j
    by_cases before : j ≤ first
    · simp [Nat.not_lt.mpr before]
    · have after : first < j := Nat.not_le.mp before
      have start : ¬j < first := Nat.not_lt.mpr after.le
      by_cases behind : last < j
      · have place : (j : Int) - last + first = ((j - last + first : Nat) : Int) := by omega
        simp only [before, behind, fusedPlace, place, after, start, Nat.not_le.mpr behind,
          if_true, if_false, true_and, Option.some.injEq]
        exact eq_comm
      · simp only [before, behind, fusedPlace, after, start, Nat.not_lt.mp behind, if_false, true_and, Option.some.injEq]
        exact eq_comm
  simp only [fuseMoves, List.mem_filterMap, List.mem_range, round]
  constructor
  · rintro ⟨j, inside, after, rfl⟩
    exact ⟨j, ⟨after, inside⟩, rfl⟩
  · rintro ⟨j, ⟨after, inside⟩, rfl⟩
    exact ⟨j, inside, after, rfl⟩

theorem fuseMoves_distinct : ((fuseMoves i first last size).map Prod.fst).Nodup := by
  have sources : (fuseMoves i first last size).map Prod.fst =
      ((List.range size).filter (first < ·)).map (iterKey i) := by
    rw [fuseMoves, List.map_filterMap, ← List.filterMap_eq_filter, List.map_filterMap]
    apply List.filterMap_congr
    intro j _
    by_cases before : j ≤ first
    · simp [before, Option.guard]
    · by_cases behind : last < j <;>
        simp [before, behind, Option.guard, iterKey]
  rw [sources]
  apply List.Nodup.map _ (List.nodup_range.filter _)
  intro left right same
  exact (iterKey_inj.mp same).2

variable {key : IterKey}

theorem fuseMoves_stays (outside : ¬∃ j, (first < j ∧ j < size) ∧ key = iterKey i j) :
    relocate (fuseMoves i first last size) key = key := by
  apply relocate_of_not_mem
  intro moved
  obtain ⟨move, member, rfl⟩ := List.mem_map.mp moved
  obtain ⟨j, inside, rfl⟩ := mem_fuseMoves.mp member
  exact outside ⟨j, inside, rfl⟩

theorem fuseMoves_relocate (order : first ≤ last) {j : Nat} (inside : j < size) :
    relocate (fuseMoves i first last size) (iterKey i j) = iterKey i (fusedPlace first last j) := by
  by_cases after : first < j
  · exact relocate_of_mem fuseMoves_distinct (mem_fuseMoves.mpr ⟨j, ⟨after, inside⟩, rfl⟩)
  · have same : fusedPlace first last j = j := by
      unfold fusedPlace
      split
      · rfl
      · split <;> omega
    rw [same]
    exact fuseMoves_stays (by simp; omega)

-- Of the fused iterators only the last one carries stages, so no two lists are merged.
theorem fuseMoves_alone {map : AttachMap} (order : first ≤ last) (bound : last < size)
    (quiet : ∀ j, first ≤ j → j < last → ¬map.Carries (iterKey i j)) (carries : map.Carries key) : map.Alone (fuseMoves i first last size) key := by
  intro other moved carries' same
  obtain ⟨move, member, rfl⟩ := List.mem_map.mp moved
  obtain ⟨l, bounds, rfl⟩ := mem_fuseMoves.mp member
  rw [fuseMoves_relocate order bounds.2] at same
  by_cases own : ∃ j < size, key = iterKey i j
  · obtain ⟨j, inside, rfl⟩ := own
    rw [fuseMoves_relocate order inside, iterKey_inj] at same
    unfold fusedPlace at same
    split at same <;> split at same <;> grind
  · rw [fuseMoves_stays fun ⟨j, inside, here⟩ => own ⟨j, inside.2, here⟩] at same
    refine absurd ⟨fusedPlace first last l, ?_, same.symm⟩ own
    unfold fusedPlace
    split
    · omega
    · split <;> omega

variable {s : State} {stage : Stage}

-- The guard of `FuseStep`, position by position.
theorem collectFused_quiet {i : Nat} :
    ∀ {ids : List Int32} {previous : Option Int32} {iters : List Iterator},
      collectFused s i stage previous ids = .ok iters →
      ∀ (k : Nat) (id : Int32), ids[k]? = some id → k + 1 < ids.length →
        ¬s.attachMap.Carries (i, id.toInt) := by
  intro ids
  induction ids with
  | nil => simp
  | cons head ids ih =>
    intro previous iters run k id listed early
    simp only [collectFused, bind_ok] at run
    obtain ⟨_, _, _, free, _, _, _, later, _⟩ := run
    cases k with
    | zero =>
      obtain rfl : head = id := by simpa using listed
      have more : ids ≠ [] := by
        rintro rfl
        simp at early
      simpa [more, Carries] using free
    | succ k => exact ih later k id (by simpa using listed) (by simpa using early)

theorem collectFused_inside {i : Nat} :
    ∀ {ids : List Int32} {previous : Option Int32} {iters : List Iterator},
      collectFused s i stage previous ids = .ok iters →
      ∀ id ∈ ids, ∃ j : Nat, id.toInt = j ∧ j < stage.iters.length := by
  intro ids
  induction ids with
  | nil => simp
  | cons head ids ih =>
    intro previous iters run id member
    simp only [collectFused, bind_ok, Prod.exists, iterAt_ok] at run
    obtain ⟨_, _, _, _, j, iter, ⟨same, inside⟩, _, later, _⟩ := run
    rcases List.mem_cons.mp member with rfl | member
    · exact ⟨j, same, (List.getElem?_eq_some_iff.mp inside).1⟩
    · exact ih later id member

def FusedSpan (ids : List Int32) (first last : Nat) : Prop :=
  (∃ front ∈ ids.head?, front.toInt = first) ∧ ∃ back ∈ ids.getLast?, back.toInt = last

theorem applyFuse_ok {stageId : Int32} {ids : List Int32} {s' : State} {newIter : Iterator}
    (run : applyFuse stageId ids s = .ok (s', newIter)) :
    ∃ (i : Nat) (stage : Stage), stageId.toInt = i ∧ s.stages[i]? = some stage ∧
      ((ids = [] ∧ s'.stages = s.stages.set i { stage with iters := [newIter] } ∧
          s'.attachMap = s.attachMap) ∨
        ∃ first last : Nat, FusedSpan ids first last ∧ first ≤ last ∧
          last + 1 = first + ids.length ∧ last < stage.iters.length ∧
          (∀ j, first ≤ j → j < last → ¬s.attachMap.Carries (iterKey i j)) ∧
          s'.stages = s.stages.set i { stage with
            iters := stage.iters.take first ++ newIter :: stage.iters.drop (last + 1) } ∧
          s'.attachMap = s.attachMap.updateIters (fuseMoves i first last stage.iters.length)) := by
  simp only [applyFuse, bind_ok, Prod.exists, stageAt_ok] at run
  obtain ⟨i, stage, ⟨same, present⟩, iters, collected, run⟩ := run
  refine ⟨i, stage, same, present, ?_⟩
  cases ids with
  | nil =>
    obtain ⟨rfl, rfl⟩ := run
    exact .inl ⟨rfl, rfl, rfl⟩
  | cons front rest =>
    right
    simp only [List.head?_cons, List.getLast?_cons, bind_ok, position_ok] at run
    obtain ⟨first, begins, last, ends, rfl, rfl⟩ := run
    have positions := collectFused_positions collected
    have stop : (front :: rest)[rest.length]? = some (rest.getLast?.getD front) := by
      rw [← List.getLast?_cons, List.getLast?_eq_getElem?]
      simp
    have finish := positions rest.length _ stop
    obtain ⟨j, sameLast, inside⟩ := collectFused_inside collected _ (List.mem_of_getElem? stop)
    refine ⟨first, last, ⟨⟨front, rfl, begins⟩, _, List.getLast?_cons, ends⟩, by omega,
      by rw [List.length_cons]; omega, by omega, fun k low high => ?_, rfl, rfl⟩
    -- position k is not the last one of the list
    obtain ⟨id, listed⟩ : ∃ id, (front :: rest)[k - first]? = some id :=
      ⟨_, List.getElem?_eq_getElem (by simp; omega)⟩
    have here : id.toInt = k := by
      rw [positions _ id listed]
      omega
    rw [iterKey, ← here]
    exact collectFused_quiet collected _ id listed (by simp; omega)

end

theorem itersAt_ok {stage : Stage} {ids : List Int32} {iters : List Iterator}
    (run : itersAt stage ids = .ok iters) :
    iters.length = ids.length ∧
      ∀ (k : Nat) (id : Int32), ids[k]? = some id →
        ∃ p : Nat, id.toInt = p ∧ p < stage.iters.length ∧ iters[k]? = stage.iters[p]? := by
  induction ids generalizing iters with
  | nil =>
    cases run
    simp
  | cons head ids ih =>
    simp only [itersAt, bind_ok, Prod.exists, iterAt_ok, pure_ok] at run
    obtain ⟨p, iter, ⟨same, inside⟩, rest, later, rfl⟩ := run
    obtain ⟨size, found⟩ := ih later
    refine ⟨by simp [size], fun k id listed => ?_⟩
    cases k with
    | zero =>
      obtain rfl : head = id := by simpa using listed
      exact ⟨p, same, (List.getElem?_eq_some_iff.mp inside).1, by simp [inside]⟩
    | succ k => simpa using found k id (by simpa using listed)

theorem applyReorder_ok {stageId : Int32} {ids : List Int32} {s s' : State}
    (run : applyReorder stageId ids s = .ok s') :
    ∃ (i : Nat) (stage : Stage) (iters : List Iterator), stageId.toInt = i ∧
      s.stages[i]? = some stage ∧ itersAt stage ids = .ok iters ∧
      s'.stages = s.stages.set i { stage with iters } ∧ s'.attachMap = s.attachMap := by
  simp only [applyReorder, bind_ok, Prod.exists, stageAt_ok, pure_ok] at run
  obtain ⟨i, stage, ⟨same, present⟩, iters, found, rfl⟩ := run
  exact ⟨i, stage, iters, same, present, found, rfl, rfl⟩

end Tlm.AutoScheduler
