import Tlm.AutoScheduler.AttachMoves

set_option autoImplicit false

namespace Tlm.AutoScheduler

open Cpp AttachMap

inductive Reshape where
  | split (iterId : Int32) (lengths : List (Option Int32)) (innerToOuter : Bool)
  | fuse (fusedIds : List Int32)
  | reorder (afterIds : List Int32)

def State.itersOf (s : State) (i : Nat) : List Iterator :=
  (s.stages[i]?.map Stage.iters).getD []

namespace Reshape

def apply (stageId : Int32) (s : State) : Reshape → Except Fault State
  | .split iterId lengths innerToOuter => applySplit stageId iterId lengths innerToOuter s
  | .fuse fusedIds => Prod.fst <$> applyFuse stageId fusedIds s
  | .reorder afterIds => applyReorder stageId afterIds s

-- The iterator at `p` is found at `q` afterwards: the innermost part of a split iterator, the fused
-- iterator for those that it contains, and the same iterator otherwise.
def Becomes : Reshape → Nat → Nat → Prop
  | .split iterId lengths _, p, q =>
    if (p : Int) < iterId.toInt then q = p else q = p + lengths.length
  | .fuse fusedIds, p, q => ∃ first last, FusedSpan fusedIds first last ∧ q = fusedPlace first last p
  | .reorder afterIds, p, q => ∃ id, afterIds[q]? = some id ∧ id.toInt = p

-- The iterator at `p` is replaced, not only moved.
def Replaces : Reshape → Nat → Prop
  | .split iterId _ _, p => iterId.toInt = p
  | .fuse fusedIds, p => ∃ first last, FusedSpan fusedIds first last ∧ first ≤ p ∧ p ≤ last
  | .reorder _, _ => False

-- The iterator at `p` is found at `q`; unless it is replaced, the same one stands there.
def Finds (step : Reshape) (s s' : State) (i p q : Nat) : Prop :=
  step.Becomes p q ∧ (¬step.Replaces p → (s'.itersOf i)[q]? = (s.itersOf i)[p]?)

-- Every stage that was attached at an iterator of stage `i` is attached at what the iterator became, and
-- no recorded position is out of range.
def Follows (step : Reshape) (s s' : State) (i : Nat) : Prop :=
  (∀ stage p, p < (s.itersOf i).length → s.attachMap.Attached stage (iterKey i p) →
      ∃ q, step.Finds s s' i p q ∧ s'.attachMap.Attached stage (iterKey i q)) ∧
    ∀ (stage : StageKey) (p : Int), s'.attachMap.stageToAttachIter stage = some ((i : Int), p) →
      0 ≤ p ∧ p < (s'.itersOf i).length

-- Whether an attached stage may be left at position `p`, as far as the step itself goes.
def Translates : Reshape → Nat → Prop
  | .split .., _ => True
  | .fuse fusedIds, _ => fusedIds ≠ []
  | .reorder afterIds, p => ∃ id, afterIds[p]? = some id ∧ id.toInt = p

def sizeAfter (size : Nat) : Reshape → Nat
  | .split _ lengths _ => size + lengths.length
  | .fuse fusedIds => if fusedIds = [] then 1 else size + 1 - fusedIds.length
  | .reorder afterIds => afterIds.length

def Moves (size : Nat) : Reshape → Nat → Prop
  | .split iterId _ _, k => iterId.toInt ≤ k ∧ k < size
  | .fuse fusedIds, k => (∃ front ∈ fusedIds.head?, front.toInt < k) ∧ k < size
  | .reorder _, _ => False

-- What has to hold before the step: a reorder leaves every attached loop in place, an empty fuse meets
-- no attached loop, and every recorded position still fits or is looked up.
def Safe (step : Reshape) (s : State) (i : Nat) : Prop :=
  (∀ stage p, p < (s.itersOf i).length → s.attachMap.Attached stage (iterKey i p) →
      step.Translates p) ∧
    ∀ (stage : StageKey) (p : Int), s.attachMap.stageToAttachIter stage = some ((i : Int), p) →
      (0 ≤ p ∧ p < step.sizeAfter (s.itersOf i).length) ∨
        ∃ k, step.Moves (s.itersOf i).length k ∧
          Holds s.attachMap.iterToAttachedStages (iterKey i k) stage

end Reshape

theorem State.itersOf_of_some {s : State} {i : Nat} {stage : Stage}
    (present : s.stages[i]? = some stage) : s.itersOf i = stage.iters := by
  simp [itersOf, present]

theorem State.itersOf_set {s s' : State} {i : Nat} {stage stage' : Stage}
    (present : s.stages[i]? = some stage) (changed : s'.stages = s.stages.set i stage') :
    s'.itersOf i = stage'.iters := by
  have inside := (List.getElem?_eq_some_iff.mp present).1
  simp [itersOf, changed, List.getElem?_set_self inside]

theorem updateIters_range {map : AttachMap} {moves : List (IterKey × IterKey)}
    (distinct : (moves.map Prod.fst).Nodup) {i size : Nat}
    (lands : ∀ move ∈ moves, ∃ q < size, move.2 = iterKey i q) :
    (∀ (stage : StageKey) (p : Int),
        (map.updateIters moves).stageToAttachIter stage = some ((i : Int), p) →
        0 ≤ p ∧ p < size) ↔
      ∀ (stage : StageKey) (p : Int), map.stageToAttachIter stage = some ((i : Int), p) →
        (0 ≤ p ∧ p < size) ∨ ∃ move ∈ moves, Holds map.iterToAttachedStages move.1 stage := by
  constructor
  · intro range stage p placed
    rcases updateIters_placed distinct map stage with ⟨same, -⟩ | ⟨move, member, holds, -⟩
    · exact .inl (range stage p (same.trans placed))
    · exact .inr ⟨move, member, holds⟩
  · intro before stage p placed
    rcases updateIters_placed distinct map stage with ⟨same, still⟩ | ⟨move, member, -, there⟩
    · rcases before stage p (same.symm.trans placed) with inside | ⟨move, member, holds⟩
      · exact inside
      · exact absurd holds (still move member)
    · obtain ⟨q, inside, target⟩ := lands move member
      rw [placed, target, iterKey, Option.some.injEq, Prod.mk.injEq] at there
      omega

namespace Reshape

variable {stageId : Int32} {i : Nat} {s s' : State}

theorem follows_iff_of_moves {step : Reshape} {moves : List (IterKey × IterKey)}
    (distinct : (moves.map Prod.fst).Nodup) (moved : s'.attachMap = s.attachMap.updateIters moves)
    (size : (s'.itersOf i).length = step.sizeAfter (s.itersOf i).length)
    (sources : ∀ key, key ∈ moves.map Prod.fst ↔ ∃ k, step.Moves (s.itersOf i).length k ∧ key = iterKey i k)
    (lands : ∀ move ∈ moves, ∃ q < (s'.itersOf i).length, move.2 = iterKey i q)
    (translates : ∀ p, step.Translates p)
    (arrives : ∀ p < (s.itersOf i).length, s.attachMap.Carries (iterKey i p) →
      s.attachMap.Alone moves (iterKey i p) ∧
        ∃ q, step.Finds s s' i p q ∧ relocate moves (iterKey i p) = iterKey i q) :
    step.Follows s s' i ↔ step.Safe s i := by
  have follow : ∀ stage p, p < (s.itersOf i).length → s.attachMap.Attached stage (iterKey i p) →
      ∃ q, step.Finds s s' i p q ∧ s'.attachMap.Attached stage (iterKey i q) := by
    intro stage p small attached
    obtain ⟨stages, listed, -⟩ := (attached.2 (iterKey i p)).mpr rfl
    obtain ⟨alone, q, finds, there⟩ := arrives p small (by simp [Carries, listed])
    refine ⟨q, finds, ?_⟩
    rw [moved, ← there]
    exact updateIters_attached distinct attached alone
  have listed : ∀ stage, (∃ move ∈ moves, Holds s.attachMap.iterToAttachedStages move.1 stage) ↔
      ∃ k, step.Moves (s.itersOf i).length k ∧
        Holds s.attachMap.iterToAttachedStages (iterKey i k) stage := by
    intro stage
    constructor
    · rintro ⟨move, member, holds⟩
      obtain ⟨k, chosen, same⟩ := (sources move.1).mp (List.mem_map_of_mem member)
      exact ⟨k, chosen, same ▸ holds⟩
    · rintro ⟨k, chosen, holds⟩
      obtain ⟨move, member, same⟩ := List.mem_map.mp ((sources _).mpr ⟨k, chosen, rfl⟩)
      exact ⟨move, member, same ▸ holds⟩
  have range := @updateIters_range s.attachMap moves distinct i (s'.itersOf i).length lands
  rw [← moved, size] at range
  constructor
  · intro follows
    refine ⟨fun _ p _ _ => translates p, fun stage p placed => ?_⟩
    rw [← listed]
    exact range.mp (size ▸ follows.2) stage p placed
  · intro safe
    refine ⟨follow, ?_⟩
    rw [size]
    apply range.mpr
    intro stage p placed
    rw [listed]
    exact safe.2 stage p placed

theorem split_follows {iterId : Int32} {lengths : List (Option Int32)} {innerToOuter : Bool}
    (same : stageId.toInt = i) (run : applySplit stageId iterId lengths innerToOuter s = .ok s') :
    (split iterId lengths innerToOuter).Follows s s' i ↔ (split iterId lengths innerToOuter).Safe s i := by
  obtain ⟨i', j, stage, iter, outs, same', sameIter, present, inside, width, changed, moved⟩ :=
    applySplit_ok run
  obtain rfl : i = i' := by omega
  have before := State.itersOf_of_some present
  have after := State.itersOf_set present changed
  have bound := (List.getElem?_eq_some_iff.mp inside).1
  have size : (s'.itersOf i).length = stage.iters.length + lengths.length := by
    rw [after]
    simp only [List.length_append, List.length_take, List.length_drop]
    omega
  apply follows_iff_of_moves splitMoves_distinct moved
  · rw [size, before, sizeAfter]
  · intro key
    simp only [List.mem_map, mem_splitMoves, Moves, before]
    constructor
    · rintro ⟨_, ⟨k, bounds, rfl⟩, rfl⟩
      exact ⟨k, ⟨by omega, bounds.2⟩, rfl⟩
    · rintro ⟨k, bounds, rfl⟩
      exact ⟨_, ⟨k, ⟨by omega, bounds.2⟩, rfl⟩, rfl⟩
  · intro move member
    obtain ⟨k, bounds, rfl⟩ := mem_splitMoves.mp member
    exact ⟨_, by omega, rfl⟩
  · exact fun _ => trivial
  · rw [before]
    intro p small _
    refine ⟨splitMoves_alone_of_lt s.attachMap small, ?_⟩
    by_cases early : p < j
    · refine ⟨p, ⟨by simp [Becomes, sameIter, early], fun _ => ?_⟩, splitMoves_stays (by simp; omega)⟩
      rw [after, before, List.append_assoc, List.getElem?_append_left (by simp; omega)]
      simp [early]
    · refine ⟨_, ⟨by simp [Becomes, sameIter, early], fun other => ?_⟩, splitMoves_relocate ⟨by omega, small⟩⟩
      have away : p ≠ j := by
        rintro rfl
        exact other sameIter
      have offset : (stage.iters.take j ++ outs).length = j + lengths.length + 1 := by
        simp
        omega
      rw [after, before, List.getElem?_append_right (by omega), offset, List.getElem?_drop]
      congr 1
      omega

theorem fuse_follows {fusedIds : List Int32} {newIter : Iterator} (same : stageId.toInt = i)
    (run : applyFuse stageId fusedIds s = .ok (s', newIter)) :
    (fuse fusedIds).Follows s s' i ↔ (fuse fusedIds).Safe s i := by
  obtain ⟨i', stage, same', present, ⟨rfl, changed, kept⟩ |
    ⟨first, last, span, order, width, bound, quiet, changed, moved⟩⟩ := applyFuse_ok run
  all_goals obtain rfl : i = i' := by omega
  all_goals have before := State.itersOf_of_some present
  all_goals have after := State.itersOf_set present changed
  · have gone : ∀ p q, ¬(fuse []).Finds s s' i p q := by
      rintro p q ⟨⟨_, _, ⟨⟨front, member, -⟩, -⟩, -⟩, -⟩
      simp at member
    simp only [Follows, Safe, kept, after, gone, Translates, sizeAfter, Moves, false_and,
      exists_false, List.length_singleton, if_true, not_true, ne_eq, List.head?_nil,
      Option.mem_def, reduceCtorEq, or_false]
  · have filled : fusedIds ≠ [] := by
      rintro rfl
      simp [FusedSpan] at span
    have size : (s'.itersOf i).length = stage.iters.length + 1 - fusedIds.length := by
      rw [after]
      simp only [List.length_append, List.length_take, List.length_cons, List.length_drop]
      omega
    apply follows_iff_of_moves fuseMoves_distinct moved
    · rw [size, before, sizeAfter, if_neg filled]
    · obtain ⟨⟨front, head, begins⟩, -⟩ := span
      intro key
      simp only [List.mem_map, mem_fuseMoves, Moves, before, Option.mem_def.mp head,
        Option.mem_some_iff, exists_eq_left']
      constructor
      · rintro ⟨_, ⟨k, bounds, rfl⟩, rfl⟩
        exact ⟨k, ⟨by omega, bounds.2⟩, rfl⟩
      · rintro ⟨k, bounds, rfl⟩
        exact ⟨_, ⟨k, ⟨by omega, bounds.2⟩, rfl⟩, rfl⟩
    · intro move member
      obtain ⟨k, bounds, rfl⟩ := mem_fuseMoves.mp member
      refine ⟨_, ?_, rfl⟩
      rw [size, fusedPlace]
      split
      · omega
      · split <;> omega
    · exact fun _ => filled
    · rw [before]
      intro p small carries
      refine ⟨fuseMoves_alone order bound quiet carries, _, ⟨⟨first, last, span, rfl⟩, ?_⟩,
        fuseMoves_relocate order small⟩
      intro other
      have outside : p < first ∨ last < p := by
        by_contra covered
        exact other ⟨first, last, span, by omega, by omega⟩
      rw [after, before, fusedPlace]
      rcases outside with early | late
      · rw [if_pos early, List.getElem?_append_left (by simp; omega)]
        simp [early]
      · rw [if_neg (by omega), if_neg (by omega), List.getElem?_append_right (by rw [List.length_take]; omega)]
        obtain ⟨k, rfl⟩ := Nat.exists_eq_add_of_lt late
        have place : last + k + 1 - last + first - (stage.iters.take first).length = k + 1 := by
          rw [List.length_take]
          omega
        rw [place, List.getElem?_cons_succ, List.getElem?_drop]
        congr 1
        omega

theorem reorder_follows {afterIds : List Int32} (same : stageId.toInt = i)
    (run : applyReorder stageId afterIds s = .ok s') :
    (reorder afterIds).Follows s s' i ↔ (reorder afterIds).Safe s i := by
  obtain ⟨i', stage, iters, same', present, found, changed, kept⟩ := applyReorder_ok run
  obtain rfl : i = i' := by omega
  have size : (s'.itersOf i).length = afterIds.length := by
    rw [State.itersOf_set present changed]
    exact (itersAt_ok found).1
  -- nothing is moved, so the new position has to be the old one
  have stays : ∀ stage p, s.attachMap.Attached stage (iterKey i p) →
      ((∃ q, (reorder afterIds).Finds s s' i p q ∧ s.attachMap.Attached stage (iterKey i q)) ↔
        (reorder afterIds).Translates p) := by
    intro stage' p attached
    constructor
    · rintro ⟨q, finds, there⟩
      obtain ⟨-, rfl⟩ := iterKey_inj.mp (Sits.unique attached there)
      exact finds.1
    · rintro ⟨id, listed, here⟩
      refine ⟨p, ⟨⟨id, listed, here⟩, fun _ => ?_⟩, attached⟩
      obtain ⟨p', here', -, content⟩ := (itersAt_ok found).2 p id listed
      obtain rfl : p = p' := by omega
      rw [State.itersOf_set present changed, State.itersOf_of_some present]
      exact content
  simp only [Follows, Safe, kept, size, Moves, false_and, exists_false, or_false]
  constructor
  · rintro ⟨follow, range⟩
    exact ⟨fun stage p small attached => (stays stage p attached).mp (follow stage p small attached), range⟩
  · rintro ⟨fixed, range⟩
    exact ⟨fun stage p small attached => (stays stage p attached).mpr (fixed stage p small attached), range⟩

theorem follows_iff_safe (step : Reshape) (same : stageId.toInt = i)
    (run : step.apply stageId s = .ok s') : step.Follows s s' i ↔ step.Safe s i := by
  cases step with
  | split => exact split_follows same run
  | fuse =>
    simp only [apply, map_ok] at run
    obtain ⟨⟨_, newIter⟩, run, rfl⟩ := run
    exact fuse_follows same run
  | reorder => exact reorder_follows same run

def plainStage (iters : List Iterator) (computeAt : ComputeAtKind) : Stage :=
  ⟨⟨0, .compute [] [], none⟩, iters, .compute, computeAt, 0, 0⟩

def plainIter (obj : Nat) (name : String) : Iterator :=
  ⟨obj, name, none, .spatial, .none⟩

def attachedPair : State where
  stages := [plainStage [plainIter 0 "x"] .iter,
    plainStage [plainIter 1 "i", plainIter 2 "j"] .root]
  transformSteps := []
  attachMap := ⟨fun stage => if stage = 0 then some (1, 0) else none,
    fun key => if key = (1, 0) then some [0] else none⟩
  currentComputeDag := none
  concrete := true

theorem attachedPair_attached : attachedPair.attachMap.Attached 0 (iterKey 1 0) := by
  refine ⟨rfl, fun other => ?_⟩
  simp [Holds, attachedPair, iterKey]

theorem follows_iff_safe_split :
    ∃ s', (split 0 [some 4] true).apply 1 attachedPair = .ok s' ∧
      (split 0 [some 4] true).Follows attachedPair s' 1 := by
  refine ⟨_, rfl, (@follows_iff_safe 1 1 attachedPair _ (split 0 [some 4] true) rfl rfl).mpr ?_⟩
  refine ⟨fun _ _ _ _ => trivial, fun stage p placed => .inl ?_⟩
  obtain ⟨-, rfl⟩ : stage = 0 ∧ 0 = p := by simpa [attachedPair] using placed
  decide

-- Stage 0 is still recorded at position 0, where now the other loop stands.
theorem reorder_leaves_behind :
    ∃ s', (reorder [1, 0]).apply 1 attachedPair = .ok s' ∧
      ¬(reorder [1, 0]).Follows attachedPair s' 1 := by
  refine ⟨_, rfl, ?_⟩
  rintro ⟨follow, -⟩
  obtain ⟨q, ⟨⟨id, listed, here⟩, -⟩, there⟩ := follow 0 0 (by decide) attachedPair_attached
  obtain ⟨-, rfl⟩ := iterKey_inj.mp (Sits.unique attachedPair_attached there)
  obtain rfl : (1 : Int32) = id := by simpa using listed
  exact absurd here (by decide)

end Reshape

end Tlm.AutoScheduler
