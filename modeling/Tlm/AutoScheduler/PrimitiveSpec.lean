import Tlm.AutoScheduler.Primitives

set_option autoImplicit false

namespace Tlm.AutoScheduler

open Cpp

def ChangesOnly (stageId : Nat) (s s' : State) : Prop :=
  ∀ j, j ≠ stageId → s'.stages[j]? = s.stages[j]?

theorem ChangesOnly.refl (stageId : Nat) (s : State) : ChangesOnly stageId s s :=
  fun _ _ => rfl

variable {stageId : Nat}

theorem ChangesOnly.trans {a b c : State} (first : ChangesOnly stageId a b)
    (second : ChangesOnly stageId b c) : ChangesOnly stageId a c :=
  fun j other => (second j other).trans (first j other)

theorem changesOnly_setStage (stageId : Nat) (s : State) (stage : Stage) :
    ChangesOnly stageId s (s.setStage stageId stage) := by
  intro j other
  rw [State.setStage_stages, List.getElem?_set_ne other.symm]

variable {iters : List Iterator} {iter : Iterator}

theorem getIndex_ok {index : Nat} :
    getIndex iters iter = .ok index ↔ iters[index]? = some iter ∧ ∀ j < index, iters[j]? ≠ some iter := by
  rw [getIndex, found_ok, List.findIdx?_eq_some_iff_getElem]
  constructor
  · rintro ⟨inside, here, before⟩
    refine ⟨by simpa [List.getElem?_eq_getElem inside] using here, fun j earlier same => ?_⟩
    obtain ⟨bound, same⟩ := List.getElem?_eq_some_iff.mp same
    exact before j earlier (by simpa using same)
  · rintro ⟨here, before⟩
    obtain ⟨inside, here⟩ := List.getElem?_eq_some_iff.mp here
    refine ⟨inside, by simpa using here, fun j earlier => ?_⟩
    have differs := before j earlier
    rw [List.getElem?_eq_getElem (by omega)] at differs
    simpa using differs

variable {s s' : State}

theorem annotateIter_ok {newIter : Iterator} {ann : IteratorAnnotation}
    (run : s.annotateIter stageId iter ann = .ok (s', newIter)) :
    ∃ (stage : Stage) (index : Nat) (id iterId : Int32),
      s.stages[stageId]? = some stage ∧ getIndex stage.iters iter = .ok index ∧
      id.toInt = stageId ∧ iterId.toInt = index ∧ iter.annotationKind = .none ∧
      newIter = { iter with obj := s.freshObj, annotationKind := ann } ∧
      s' = (s.push (.annotate id iterId ann)).setStage stageId
        { stage with iters := stage.iters.set index newIter } := by
  simp only [State.annotateIter, bind_ok, found_ok, narrow_ok] at run
  obtain ⟨stage, present, index, located, iterId, sameIter, id, same, run⟩ := run
  have here := (getIndex_ok.mp located).1
  simp only [applyAnnotate, bind_ok, Prod.exists, stageAt_ok, iterAt_ok, ensure_ok, decide_eq_true_eq] at run
  obtain ⟨i, stage', ⟨same', present'⟩, j, iter', ⟨sameIter', inside⟩, _, plain, rfl, rfl⟩ := run
  obtain rfl : i = stageId := by omega
  obtain rfl : j = index := by omega
  obtain rfl : stage = stage' := by simpa [present] using present'
  obtain rfl : iter = iter' := by simpa [here] using inside
  exact ⟨stage, j, id, iterId, present, located, same, sameIter, plain, rfl, rfl⟩

theorem unroll_noLimit (stageId : Nat) (iter : Iterator) (s : State) :
    s.unroll stageId iter (-1) = s.annotateIter stageId iter .unroll := by
  unfold State.unroll
  split <;> simp

theorem pragma_ok {pragmaType : String} (run : s.pragma stageId iter pragmaType = .ok s') :
    ∃ (stage : Stage) (index : Nat) (id iterId : Int32),
      s.stages[stageId]? = some stage ∧ getIndex stage.iters iter = .ok index ∧
      id.toInt = stageId ∧ iterId.toInt = index ∧
      s'.transformSteps = s.transformSteps ++ [.pragma id iterId pragmaType] ∧ ChangesOnly stageId s s' := by
  simp only [State.pragma, bind_ok, found_ok, narrow_ok] at run
  obtain ⟨stage, present, index, located, iterId, sameIter, id, same, run⟩ := run
  refine ⟨stage, index, id, iterId, present, located, same, sameIter, by rw [applyPragma_history run]; rfl, ?_⟩
  unfold applyPragma at run
  split at run
  · simp only [bind_ok, pure_ok] at run
    obtain ⟨_, _, rfl⟩ := run
    exact .refl stageId s
  · split at run
    · simp only [bind_ok, Prod.exists, stageAt_ok] at run
      obtain ⟨i, stage', ⟨same', _⟩, run⟩ := run
      obtain rfl : i = stageId := by omega
      split at run
      · exact absurd run throw_ok
      · simp only [bind_ok, pure_ok] at run
        obtain ⟨_, _, rfl⟩ := run
        exact changesOnly_setStage i s _
    · exact absurd run throw_ok

theorem Step.tokens_annotate (stageId iterId : Int32) (ann : IteratorAnnotation) :
    (Step.annotate stageId iterId ann).tokens =
      ["AN", stageId.toInt.repr, iterId.toInt.repr, ann.code.toInt.repr] := by
  rfl

theorem Step.tokens_fuse (stageId : Int32) (fusedIds : List Int32) :
    (Step.fuse stageId fusedIds).tokens =
      "FU" :: stageId.toInt.repr :: fusedIds.map (·.toInt.repr) := by
  have ids : jsonDfsItems (fusedIds.map Json.ofInt32) = fusedIds.map fun id => toString id.toInt :=
    jsonDfsItems_num Int32.toInt fusedIds
  simp only [Step.tokens, writeToRecord, recordPrefixStr, items, Json.ofInt32s, Json.ofInt32,
    jsonDfsItems, jsonDfsWithoutBracket, ids]
  simp

theorem Step.tokens_pragma (stageId iterId : Int32) (pragmaType : String) :
    (Step.pragma stageId iterId pragmaType).tokens =
      ["PR", stageId.toInt.repr, iterId.toInt.repr, pragmaType] := by
  rfl

theorem Step.tokens_computeInline (stageId : Int32) :
    (Step.computeInline stageId).tokens = ["CI", stageId.toInt.repr] := by
  rfl

theorem Step.tokens_computeRoot (stageId : Int32) :
    (Step.computeRoot stageId).tokens = ["CR", stageId.toInt.repr] := by
  rfl

theorem Step.tokens_computeAt (stageId targetStageId targetIterId : Int32) :
    (Step.computeAt stageId targetStageId targetIterId).tokens =
      ["CA", stageId.toInt.repr, targetStageId.toInt.repr, targetIterId.toInt.repr] := by
  rfl

theorem computeInline_ok (run : s.computeInline stageId = .ok s') :
    ∃ id : Int32, id.toInt = stageId ∧
      s'.transformSteps = s.transformSteps ++ [.computeInline id] ∧ s'.stages.length = s.stages.length := by
  simp only [State.computeInline, bind_ok, narrow_ok] at run
  obtain ⟨id, same, run⟩ := run
  refine ⟨id, same, by rw [applyComputeInline_history run]; rfl, ?_⟩
  simp only [applyComputeInline, bind_ok, pure_ok] at run
  obtain ⟨_, _, _, _, _, _, rfl⟩ := run
  simp

theorem computeRoot_ok (run : s.computeRoot stageId = .ok s') :
    ∃ id : Int32, id.toInt = stageId ∧
      s'.transformSteps = s.transformSteps ++ [.computeRoot id] ∧ s'.stages.length = s.stages.length := by
  simp only [State.computeRoot, bind_ok, narrow_ok] at run
  obtain ⟨id, same, run⟩ := run
  refine ⟨id, same, by rw [applyComputeRoot_history run]; rfl, ?_⟩
  simp only [applyComputeRoot, bind_ok, pure_ok] at run
  obtain ⟨_, _, _, _, rfl⟩ := run
  simp

theorem computeAt_ok {target : Nat} (run : s.computeAt stageId target iter = .ok s') :
    ∃ (stage : Stage) (index : Nat) (id targetId iterId : Int32),
      s.stages[target]? = some stage ∧ getIndex stage.iters iter = .ok index ∧
      id.toInt = stageId ∧ targetId.toInt = target ∧ iterId.toInt = index ∧
      s'.transformSteps = s.transformSteps ++ [.computeAt id targetId iterId] ∧
      s'.stages.length = s.stages.length := by
  simp only [State.computeAt, bind_ok, found_ok, narrow_ok] at run
  obtain ⟨stage, present, index, located, iterId, sameIter, id, same, targetId, sameTarget, run⟩ :=
    run
  refine ⟨stage, index, id, targetId, iterId, present, located, same, sameTarget, sameIter,
    by rw [applyComputeAt_history run]; rfl, ?_⟩
  simp only [applyComputeAt, bind_ok, pure_ok] at run
  obtain ⟨_, _, _, _, rfl⟩ := run
  simp

def AttachesOnly (stageId : Nat) (s s' : State) : Prop :=
  ∀ key : IterKey, key.1 ≠ stageId →
    s'.attachMap.iterToAttachedStages key = s.attachMap.iterToAttachedStages key

theorem AttachMap.updateIters_other {map : AttachMap} {moves : List (IterKey × IterKey)}
    {stageId : Int} (own : ∀ move ∈ moves, move.1.1 = stageId ∧ move.2.1 = stageId)
    {key : IterKey} (other : key.1 ≠ stageId) :
    (map.updateIters moves).iterToAttachedStages key = map.iterToAttachedStages key := by
  have walk : ∀ (moves : List (IterKey × IterKey)) (step : AttachMap × (IterKey → Option (List StageKey))),
      (∀ move ∈ moves, move.1.1 = stageId ∧ move.2.1 = stageId) → step.2 key = none →
      (moves.foldl moveIter step).2 key = none ∧
        (moves.foldl moveIter step).1.iterToAttachedStages key = step.1.iterToAttachedStages key := by
    intro moves
    induction moves with
    | nil =>
      intro step _ fresh
      exact ⟨fresh, rfl⟩
    | cons move moves ih =>
      intro step own fresh
      have sides := own move (by simp)
      have away : key ≠ move.1 ∧ key ≠ move.2 := by
        constructor
        · rintro rfl
          exact other sides.1
        · rintro rfl
          exact other sides.2
      have kept : (moveIter step move).2 key = none ∧ (moveIter step move).1.iterToAttachedStages key =
            step.1.iterToAttachedStages key := by
        obtain ⟨moved, added⟩ := step
        simp only at fresh
        simp only [moveIter]
        cases moved.iterToAttachedStages move.1 with
        | none => exact ⟨fresh, rfl⟩
        | some stages => simp [away.1, away.2, fresh]
      obtain ⟨rest, same⟩ := ih (moveIter step move)
        (fun m member => own m (List.mem_cons_of_mem _ member)) kept.1
      exact ⟨rest, same.trans kept.2⟩
  obtain ⟨fresh, same⟩ := walk moves (map, fun _ => none) own rfl
  simp [updateIters, fresh, same]

variable {i : Nat}

theorem fuseMoves_own {first last size : Nat} {move : IterKey × IterKey}
    (member : move ∈ fuseMoves i first last size) : move.1.1 = i ∧ move.2.1 = i := by
  obtain ⟨j, -, made⟩ := List.mem_filterMap.mp member
  split at made
  · cases made
  · split at made <;> cases made <;> exact ⟨rfl, rfl⟩

theorem getIndices_length {located : List Iterator} {ids : List Int32}
    (run : getIndices iters located = .ok ids) : ids.length = located.length := by
  induction located generalizing ids with
  | nil =>
    cases run
    rfl
  | cons iter located ih =>
    simp only [getIndices, bind_ok, pure_ok] at run
    obtain ⟨_, _, _, _, rest, later, rfl⟩ := run
    simp [ih later]

theorem collectFused_consecutive {stage : Stage} :
    ∀ {ids : List Int32} {previous : Int32} {iters : List Iterator},
      collectFused s i stage (some previous) ids = .ok iters →
      ∀ (k : Nat) (id : Int32), ids[k]? = some id → id.toInt = previous.toInt + 1 + k := by
  intro ids
  induction ids with
  | nil => simp
  | cons head ids ih =>
    intro previous iters run k id listed
    simp only [collectFused, bind_ok, ensure_ok, Option.all_some, decide_eq_true_eq] at run
    obtain ⟨_, next, _, _, _, _, _, later, _⟩ := run
    cases k with
    | zero =>
      obtain rfl : head = id := by simpa using listed
      simpa using next
    | succ k =>
      have := ih later k id (by simpa using listed)
      omega

theorem collectFused_positions {stage : Stage} {first : Int32} {rest : List Int32}
    (run : collectFused s i stage none (first :: rest) = .ok iters) (k : Nat) (id : Int32)
    (listed : (first :: rest)[k]? = some id) : id.toInt = first.toInt + k := by
  simp only [collectFused, bind_ok] at run
  obtain ⟨_, _, _, _, _, _, _, later, _⟩ := run
  cases k with
  | zero =>
    obtain rfl : first = id := by simpa using listed
    simp
  | succ k =>
    have := collectFused_consecutive later k id (by simpa using listed)
    omega

theorem fuse_ok {newIter : Iterator} (run : s.fuse stageId iters = .ok (s', newIter)) (filled : iters ≠ []) :
    ∃ (stage : Stage) (first : Int32) (rest : List Int32) (id : Int32) (start : Nat)
      (after : List Iterator),
      s.stages[stageId]? = some stage ∧ getIndices stage.iters iters = .ok (first :: rest) ∧
      id.toInt = stageId ∧ first.toInt = start ∧
      (∀ (k : Nat) (id : Int32), (first :: rest)[k]? = some id → id.toInt = start + k) ∧
      s'.transformSteps = s.transformSteps ++ [.fuse id (first :: rest)] ∧
      newIter.obj = s.freshObj ∧ start ≤ stage.iters.length ∧
      s'.stages = s.stages.set stageId
        { stage with iters := stage.iters.take start ++ newIter :: after } ∧ AttachesOnly stageId s s' := by
  simp only [State.fuse, bind_ok, found_ok, narrow_ok] at run
  obtain ⟨stage, present, ids, located, id, same, run⟩ := run
  obtain ⟨first, rest, rfl⟩ : ∃ first rest, ids = first :: rest := by
    cases iters with
    | nil => exact absurd rfl filled
    | cons iter iters =>
      simp only [getIndices, bind_ok, pure_ok] at located
      obtain ⟨_, _, first, _, rest, _, rfl⟩ := located
      exact ⟨first, rest, rfl⟩
  have history := applyFuse_history run
  simp only [applyFuse, bind_ok, Prod.exists, stageAt_ok] at run
  obtain ⟨i, stage', ⟨same', present'⟩, fused, collected, run⟩ := run
  obtain rfl : i = stageId := by omega
  obtain rfl : stage = stage' := by simpa [present] using present'
  simp only [List.head?_cons, List.getLast?_cons, bind_ok, position_ok] at run
  obtain ⟨start, begins, stop, ends, rfl, rfl⟩ := run
  have positions := collectFused_positions collected
  simp only [collectFused, bind_ok, Prod.exists, iterAt_ok] at collected
  obtain ⟨_, _, _, _, j, iter, ⟨begins', inside⟩, -⟩ := collected
  obtain rfl : j = start := by omega
  rw [begins] at positions
  exact ⟨stage, first, rest, id, j, _, present, located, same, begins, positions, history, rfl,
    (List.getElem?_eq_some_iff.mp inside).1.le, rfl,
    fun key other => AttachMap.updateIters_other (fun move member => fuseMoves_own member) other⟩

end Tlm.AutoScheduler
