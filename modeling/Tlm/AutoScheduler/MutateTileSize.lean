import Tlm.AutoScheduler.TileSize

set_option autoImplicit false

namespace Tlm.AutoScheduler

open Cpp

-- The innermost length is within its limit; an undefined one counts as beyond it.
def isMutable (policy : SketchPolicy) (fields : SplitFields) : Except Fault Bool :=
  match fields.extent with
  | none => .ok false
  | some _ => do
      let innermost ← found .check fields.lengths.getLast?
      return innermost.getD (policy.maxInnermostSplitFactor + 1) ≤ policy.maxInnermostSplitFactor

def splitStepIds (policy : SketchPolicy) (steps : List Step) :
    Except Fault (List (Nat × SplitFields)) :=
  concatM
    (fun (step, i) =>
      match step with
      | .split fields => return if ← isMutable policy fields then [(i, fields)] else []
      | _ => .ok [])
    steps.zipIdx

def pickSplit (ids : List (Nat × SplitFields)) (rand : RandGen) :
    Except Fault ((Nat × SplitFields) × Int32 × RandGen) := do
  let (value, rand) := draw rand
  let chosen ← found .undefined ids[value % ids.length]?
  return (chosen, ← found .check chosen.2.extent, rand)

-- The `do` loop: pick again while the extent is 0 or 1 and retries are left.
def selectSplit (ids : List (Nat × SplitFields)) :
    Nat → RandGen → Except Fault ((Nat × SplitFields) × Int32 × RandGen)
  | 0, rand => pickSplit ids rand
  | retries + 1, rand => do
      let (chosen, extent, rand) ← pickSplit ids rand
      if extent = 1 ∨ extent = 0 then selectSplit ids retries rand
      else return (chosen, extent, rand)

-- `none` is the `continue` of a destination that cannot grow.
def divideFactor (maxInnermost : Int32) (innermost : Bool) (dstLength : Int32)
    (factors : List Int32) (rand : RandGen) : Except Fault (Option (Int32 × RandGen)) := do
  let (value, rand) := draw rand
  let index := if innermost then maxFactorIndex maxInnermost dstLength factors (factors.length - 1)
    else factors.length - 1
  if index = 0 then
    ensure .undefined innermost
    return none
  return some (← found .undefined factors[1 + value % index]?, rand)

def moveSomeFactor (maxInnermost : Int32) (perm : List Nat) (lengths : List Int32) :
    List Nat → RandGen → Except Fault (Option (List Int32) × RandGen)
  | [], rand => .ok (none, rand)
  | i :: rest, rand => do
      let srcIdx ← found .undefined perm[i]?
      let length ← found .undefined lengths[srcIdx]?
      if length ≤ 1 then moveSomeFactor maxInnermost perm lengths rest rand
      else
        let dstIdx ← found .undefined perm[(i + 1) % perm.length]?
        let dstLength ← found .undefined lengths[dstIdx]?
        let factors ← getFactors length
        ensure .check (1 ≤ factors.length)
        match ← divideFactor maxInnermost (dstIdx = lengths.length - 1) dstLength factors rand with
        | none => moveSomeFactor maxInnermost perm lengths rest rand
        | some (factor, rand) =>
          let newLengths := moveFactor srcIdx dstIdx factor 1 lengths.tail
          let innermost ← found .check newLengths.getLast?
          ensure .check (innermost ≤ maxInnermost)
          return (some newLengths, rand)

def mutateSplit (policy : SketchPolicy) (s : State) (stepId : Nat) (fields : SplitFields)
    (extent : Int32) (rand : RandGen) : Except Fault (Option State × RandGen) := do
  let inner ← definedLengths fields.lengths
  let lengths := (← outerLength extent.toInt64 inner) :: inner
  let (perm, rand) := randomPermutation lengths.length rand
  let (moved, rand) ← moveSomeFactor policy.maxInnermostSplitFactor perm lengths
    (List.range perm.length) rand
  return (moved.map fun newLengths =>
    { s with transformSteps := s.transformSteps.set stepId (.split (fields.withLengths newLengths)) },
    rand)

-- `MutateTileSize::Apply`; `none` is `kInvalid`, which leaves the state as it was.
def applyMutateTileSize (policy : SketchPolicy) (s : State) (rand : RandGen) :
    Except Fault (Option State × RandGen) := do
  let ids ← splitStepIds policy s.transformSteps
  if ids.isEmpty then return (none, rand)
  let ((stepId, fields), extent, rand) ← selectSplit ids (4 * ids.length - 1) rand
  if extent ≤ 1 then return (none, rand)
  mutateSplit policy s stepId fields extent rand

def NothingToMutate (policy : SketchPolicy) (s : State) : Prop :=
  ∀ fields ∈ splitsOf s.transformSteps, isMutable policy fields = .ok true →
    ∀ extent ∈ fields.extent, extent ≤ 1

variable {policy : SketchPolicy} {ids : List (Nat × SplitFields)} {chosen : Nat × SplitFields}

theorem splitStepIds_sound {steps : List Step} (run : splitStepIds policy steps = .ok ids)
    (member : chosen ∈ ids) :
    steps[chosen.1]? = some (.split chosen.2) ∧ isMutable policy chosen.2 = .ok true := by
  obtain ⟨⟨step, i⟩, listed, found, offered, inside⟩ := mem_concatM run member
  cases step with
  | split fields =>
    simp only [bind_ok, pure_ok] at offered
    obtain ⟨chance, asked, rfl⟩ := offered
    cases chance with
    | false => simp at inside
    | true =>
      obtain rfl : chosen = (i, fields) := by simpa using inside
      exact ⟨List.mem_zipIdx_iff_getElem?.mp listed, asked⟩
  | _ =>
    cases offered
    cases inside

variable {rand rand' : RandGen}

theorem pickSplit_sound {extent : Int32} (run : pickSplit ids rand = .ok (chosen, extent, rand')) :
    chosen ∈ ids ∧ chosen.2.extent = some extent := by
  simp only [pickSplit, bind_ok, found_ok] at run
  obtain ⟨_, listed, _, sized, rfl, rfl, -⟩ := run
  exact ⟨List.mem_of_getElem? listed, sized⟩

theorem selectSplit_sound {retries : Nat} {extent : Int32}
    (run : selectSplit ids retries rand = .ok (chosen, extent, rand')) :
    chosen ∈ ids ∧ chosen.2.extent = some extent := by
  induction retries generalizing rand with
  | zero => exact pickSplit_sound run
  | succ retries ih =>
    simp only [selectSplit, bind_ok, Prod.exists] at run
    obtain ⟨stepId, fields, size, rand₁, picked, run⟩ := run
    split at run
    · exact ih run
    · cases pure_ok.mp run
      exact pickSplit_sound picked

theorem applyMutateTileSize_invalid {s : State} {result : Option State} (nothing : NothingToMutate policy s)
    (run : applyMutateTileSize policy s rand = .ok (result, rand')) : result = none := by
  simp only [applyMutateTileSize, bind_ok] at run
  obtain ⟨ids, offered, run⟩ := run
  split at run
  · cases pure_ok.mp run
    rfl
  · simp only [bind_ok, Prod.exists] at run
    obtain ⟨stepId, fields, extent, rand₁, chosen, run⟩ := run
    obtain ⟨member, sized⟩ := selectSplit_sound chosen
    obtain ⟨present, offers⟩ := splitStepIds_sound offered member
    have listed : fields ∈ splitsOf s.transformSteps :=
      List.mem_filterMap.mpr ⟨_, List.mem_of_getElem? present, rfl⟩
    have small := nothing fields listed offers extent sized
    rw [if_pos small] at run
    cases pure_ok.mp run
    rfl

theorem applyMutateTileSize_rewrites {s s' : State}
    (run : applyMutateTileSize policy s rand = .ok (some s', rand')) :
    ∃ stepId fields lengths, s.transformSteps[stepId]? = some (.split fields) ∧
      s'.transformSteps = s.transformSteps.set stepId (.split (fields.withLengths lengths)) := by
  simp only [applyMutateTileSize, bind_ok] at run
  obtain ⟨ids, offered, run⟩ := run
  split at run
  · cases pure_ok.mp run
  · simp only [bind_ok, Prod.exists] at run
    obtain ⟨stepId, fields, extent, rand₁, chosen, run⟩ := run
    have present := (splitStepIds_sound offered (selectSplit_sound chosen).1).1
    split at run
    · cases pure_ok.mp run
    · simp only [mutateSplit, bind_ok, pure_ok, Prod.mk.injEq, Option.map_eq_some_iff, Prod.exists] at run
      obtain ⟨_, _, _, _, _, _, _, ⟨lengths, -, rfl⟩, -⟩ := run
      exact ⟨stepId, fields, lengths, present, rfl⟩

end Tlm.AutoScheduler
