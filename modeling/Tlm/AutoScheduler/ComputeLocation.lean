import Tlm.AutoScheduler.PrimitiveSpec
import Tlm.AutoScheduler.SearchUtils
import Tlm.Shared.Cursor

set_option autoImplicit false

namespace Tlm.AutoScheduler

open Cpp

def targetCandidates (s : State) (target : Nat) (atOther tiled : Bool) :
    Bool → Nat → List Iterator → List (Nat × Nat)
  | _, _, [] => []
  | visitedReduce, i, iter :: rest =>
    let visitedReduce := visitedReduce || iter.iterKind = .reduction
    if iter.iterKind = .reduction && !tiled then []
    else if iter.iterKind = .spatial && visitedReduce then []
    else if iter.annotationKind = .unroll then []
    else if iter.getExtent = 1 then targetCandidates s target atOther tiled visitedReduce (i + 1) rest
    else if atOther && iter.iterKind = .spatial && ".0".toList.isSuffixOf iter.name.toList then
      targetCandidates s target atOther tiled visitedReduce (i + 1) rest
    else if (s.attachMap.iterToAttachedStages (target, i)).isSome then [(target, i)]
    else (target, i) :: targetCandidates s target atOther tiled visitedReduce (i + 1) rest

def outerCandidates (s : State) (target : Nat) : Nat → List Iterator → List (Nat × Nat)
  | _, [] => []
  | i, iter :: rest =>
    if iter.iterKind = .reduction || (s.attachMap.iterToAttachedStages (target, i)).isSome then []
    else if iter.annotationKind = .unroll then []
    else if iter.getExtent = 1 then outerCandidates s target (i + 1) rest
    else (target, i) :: outerCandidates s target (i + 1) rest

def attachedCandidates (s : State) (target : Nat) (targetStage : Stage) :
    Except Fault (List (Nat × Nat)) := do
  if targetStage.computeAt = .iter then
    let key ← found .outOfRange (s.attachMap.stageToAttachIter target)
    ensure .check (0 ≤ key.1)
    let outer ← found .check s.stages[key.1.toNat]?
    return outerCandidates s key.1.toNat 0 outer.iters
  else
    return []

def getComputeLocationCandidates (task : SearchTask) (s : State) (stage : Stage) :
    Except Fault (List (Nat × Nat)) := do
  let target ← getSingleConsumerId task s stage
  if target < 0 then return []
  let targetStage ← found .check s.stages[target.toNat]?
  let tiled ← isTiled targetStage
  let inner := targetCandidates s target.toNat (targetStage.computeAt = .iter) tiled false 0
    targetStage.iters
  return inner ++ (← attachedCandidates s target.toNat targetStage)

def skipsLocation (policy : SketchPolicy) (s : State) (stage : Stage) : Except Fault Bool := do
  if stage.opType = .placeholder || stage.computeAt = .inlined then return true
  if ← isTiled stage then return true
  needsMultilevelTiling policy.searchTask s stage

def locationStageIds (policy : SketchPolicy) (s : State) : Except Fault (List Nat) :=
  concatM
    (fun stageId => do
      let stage ← found .check s.stages[stageId]?
      return if ← skipsLocation policy s stage then [] else [stageId])
    (stagesDescending s)

def inlineAttached (stageId : Nat) (stage : Stage) (s : State) : Except Fault State :=
  if !hasReduceIter stage && (s.attachMap.stageToAttachIter stageId).isSome then
    s.computeInline stageId
  else .ok s

def moveTo (stageId : Nat) (candidate : Nat × Nat) (s : State) : Except Fault State := do
  let target ← found .check s.stages[candidate.1]?
  let iter ← found .check target.iters[candidate.2]?
  s.computeAt stageId candidate.1 iter

def applyChoice (candidates : List (Nat × Nat)) (stageId : Nat) (stage : Stage) (s : State) :
    Nat → Except Fault State
  | 0 => inlineAttached stageId stage s
  | 1 => s.computeRoot stageId
  | choice + 2 => do moveTo stageId (← found .undefined candidates[choice]?) s

def changeLocation (policy : SketchPolicy) (st : State × RandGen) (stageId : Nat) :
    Except Fault (State × RandGen) := do
  let (s, rand) := st
  let stage ← found .check s.stages[stageId]?
  if ← skipsLocation policy s stage then return st
  let candidates ← getComputeLocationCandidates policy.searchTask s stage
  let (value, rand) := draw rand
  return (← applyChoice candidates stageId stage s (value % (candidates.length + 2)), rand)

-- `none` is `kInvalid`.
def initChangeComputeLocation (te : Te) (policy : SketchPolicy) (s : State) (rand : RandGen) :
    Except Fault (Option State × RandGen) := do
  if policy.disableChangeComputeLocation ≠ 0 then return (some s, rand)
  let s ← s.computeLocationStart (← locationStageIds policy s)
  let (s, rand) ← (stagesDescending s).foldlM (changeLocation policy) (s, rand)
  return (← guarded (raise (inferBound te policy.searchTask.computeDag s)), rand)

def findCandidate (candidates : List (Nat × Nat)) (first second : Int32) : Option (Nat × Nat) :=
  candidates.find? fun c => (c.1 : Int) = first.toInt ∧ (c.2 : Int) = second.toInt

def decodeChange (policy : SketchPolicy) (stepname : String) (stageId : Nat) (stage : Stage)
    (s : State) : Cursor State := do
  if stepname = "CI" then
    raise (inlineAttached stageId stage s)
  else if stepname = "CR" then
    raise (s.computeRoot stageId)
  else if stepname = "CA" then
    let candidates ← raise (getComputeLocationCandidates policy.searchTask s stage)
    let first ← nextInt
    let second ← nextInt
    match findCandidate candidates first second with
    | some candidate => raise (moveTo stageId candidate s)
    | none => throw .leave
  else
    throw .leave

def decodeLocation (policy : SketchPolicy) (st : State × List String) (stageId : Nat) :
    Except Stop (State × List String) := do
  let (s, tokens) := st
  let stage ← outside (found .check s.stages[stageId]?)
  if ← outside (skipsLocation policy s stage) then return st
  let stageIdGen ← raise (found .outOfRange tokens[1]? >>= stoi)
  leaveUnless (stageId ≤ stageIdGen.toInt)
  if stageId < stageIdGen.toInt then return st
  let (stepname, rest) ← nextToken tokens
  decodeChange policy stepname stageId stage s (rest.drop 1)

def decodeLocations (te : Te) (policy : SketchPolicy) (s : State) (tokens : List String) :
    Except Fault (Option State) := do
  match ← guarded ((stagesDescending s).foldlM (decodeLocation policy) (s, tokens)) with
  | none => return none
  | some (s, _) =>
    let bounded ← guarded (raise (inferBound te policy.searchTask.computeDag s))
    return some (bounded.getD s)

def promptLocation (policy : SketchPolicy) (s : State) : Except Fault (State × Nat) := do
  let stageIds ← locationStageIds policy s
  return (← s.computeLocationStart stageIds, 4 * stageIds.length)

def initChangeComputeLocationTokens (te : Te) (policy : SketchPolicy) (states : List State)
    (genFunc : GenFunc) : Except Fault (List State) :=
  if policy.disableChangeComputeLocation ≠ 0 then .ok states
  else tokenRule (promptLocation policy) (decodeLocations te policy) states genFunc

def HoldsFirsts (passes : Iterator → Prop) (target k : Nat) (iters : List Iterator)
    (candidates : List (Nat × Nat)) : Prop :=
  ∀ c ∈ candidates, ∃ m iter, c = (target, k + m) ∧ iters[m]? = some iter ∧ passes iter ∧
    ∀ j < m, iters[j]? = some iter → (target, k + j) ∈ candidates

section

variable {passes : Iterator → Prop} {target k : Nat} {iter : Iterator} {rest : List Iterator}
  {candidates : List (Nat × Nat)}

theorem HoldsFirsts.nil {iters : List Iterator} : HoldsFirsts passes target k iters [] := by
  simp [HoldsFirsts]

theorem HoldsFirsts.skip (later : HoldsFirsts passes target (k + 1) rest candidates)
    (skipped : ¬passes iter) : HoldsFirsts passes target k (iter :: rest) candidates := by
  intro c member
  obtain ⟨m, other, rfl, present, passed, firsts⟩ := later c member
  refine ⟨m + 1, other, by simp; omega, by simpa using present, passed, ?_⟩
  intro j before same
  cases j with
  | zero =>
    obtain rfl : iter = other := by simpa using same
    exact absurd passed skipped
  | succ j =>
    have member := firsts j (by omega) (by simpa using same)
    rwa [Nat.add_right_comm, Nat.add_assoc] at member

theorem HoldsFirsts.take (later : HoldsFirsts passes target (k + 1) rest candidates)
    (taken : passes iter) : HoldsFirsts passes target k (iter :: rest) ((target, k) :: candidates) := by
  intro c member
  rcases List.mem_cons.mp member with rfl | member
  · exact ⟨0, iter, rfl, rfl, taken, by simp⟩
  · obtain ⟨m, other, rfl, present, passed, firsts⟩ := later c member
    refine ⟨m + 1, other, by simp; omega, by simpa using present, passed, ?_⟩
    intro j before same
    cases j with
    | zero => simp
    | succ j =>
      have member := firsts j (by omega) (by simpa using same)
      rw [Nat.add_right_comm, Nat.add_assoc] at member
      exact List.mem_cons_of_mem _ member

end

theorem targetCandidates_firsts (s : State) (target : Nat) (atOther tiled visitedReduce : Bool)
    (k : Nat) (iters : List Iterator) :
    HoldsFirsts
      (fun iter => iter.getExtent ≠ 1 ∧
        ¬(atOther && iter.iterKind = .spatial && ".0".toList.isSuffixOf iter.name.toList) = true)
      target k iters (targetCandidates s target atOther tiled visitedReduce k iters) := by
  fun_induction targetCandidates s target atOther tiled visitedReduce k iters with
  | case1 | case2 | case3 | case4 => exact .nil
  | case5 _ _ _ _ _ _ _ _ unit ih => exact ih.skip fun passed => passed.1 unit
  | case6 _ _ _ _ _ _ _ _ _ outermost ih => exact ih.skip fun passed => passed.2 outermost
  | case7 _ _ _ _ _ _ _ _ long inside => exact .take .nil ⟨long, inside⟩
  | case8 _ _ _ _ _ _ _ _ long inside _ ih => exact ih.take ⟨long, inside⟩

theorem outerCandidates_firsts (s : State) (target k : Nat) (iters : List Iterator) :
    HoldsFirsts (fun iter => iter.getExtent ≠ 1) target k iters (outerCandidates s target k iters) := by
  fun_induction outerCandidates s target k iters with
  | case1 | case2 | case3 => exact .nil
  | case4 _ _ _ _ _ unit ih => exact ih.skip fun passed => passed unit
  | case5 _ _ _ _ _ long ih => exact ih.take long

variable {candidate : Nat × Nat} {index : Nat}

theorem HoldsFirsts.getIndex_mem {passes : Iterator → Prop} {target : Nat} {iters : List Iterator}
    {candidates : List (Nat × Nat)} (firsts : HoldsFirsts passes target 0 iters candidates)
    (member : candidate ∈ candidates) {iter : Iterator} (listed : iters[candidate.2]? = some iter)
    (located : getIndex iters iter = .ok index) : (target, index) ∈ candidates := by
  obtain ⟨m, other, rfl, present, -, closed⟩ := firsts candidate member
  simp only [Nat.zero_add] at *
  obtain rfl : other = iter := by simpa [present] using listed
  obtain ⟨here, before⟩ := getIndex_ok.mp located
  rcases Nat.lt_trichotomy index m with earlier | rfl | later
  · exact closed index earlier here
  · exact member
  · exact absurd present (before m later)

theorem getComputeLocationCandidates_firsts {task : SearchTask} {s : State} {stage : Stage}
    {candidates : List (Nat × Nat)} (run : getComputeLocationCandidates task s stage = .ok candidates)
    (member : candidate ∈ candidates) {target : Stage} {iter : Iterator}
    (present : s.stages[candidate.1]? = some target) (listed : target.iters[candidate.2]? = some iter)
    (located : getIndex target.iters iter = .ok index) : (candidate.1, index) ∈ candidates := by
  simp only [getComputeLocationCandidates, bind_ok] at run
  obtain ⟨consumer, _, run⟩ := run
  split at run
  · cases run
    cases member
  · simp only [bind_ok, found_ok, pure_ok] at run
    obtain ⟨consumerStage, staged, tiled, _, outer, attached, rfl⟩ := run
    rw [List.mem_append] at member ⊢
    rcases member with inner | outside
    · have firsts := targetCandidates_firsts s consumer.toNat (consumerStage.computeAt = .iter) tiled
        false 0 consumerStage.iters
      obtain ⟨_, _, shape, -⟩ := firsts candidate inner
      obtain rfl : target = consumerStage := by simpa [shape, staged] using present.symm
      rw [shape]
      exact .inl (firsts.getIndex_mem inner listed located)
    · unfold attachedCandidates at attached
      split at attached
      · simp only [bind_ok, found_ok, pure_ok] at attached
        obtain ⟨key, _, _, _, outerStage, staged, rfl⟩ := attached
        have firsts := outerCandidates_firsts s key.1.toNat 0 outerStage.iters
        obtain ⟨_, _, shape, -⟩ := firsts candidate outside
        obtain rfl : target = outerStage := by simpa [shape, staged] using present.symm
        rw [shape]
        exact .inr (firsts.getIndex_mem outside listed located)
      · cases attached
        cases outside

end Tlm.AutoScheduler
