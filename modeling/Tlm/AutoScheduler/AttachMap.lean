import Tlm.AutoScheduler.LoopState
import Tlm.Shared.InverseIndex

set_option autoImplicit false

namespace Tlm.AutoScheduler

open Cpp

namespace AttachMap

def Attached (map : AttachMap) (stage : StageKey) (key : IterKey) : Prop :=
  Sits map.stageToAttachIter map.iterToAttachedStages stage key

def Consistent (map : AttachMap) : Prop :=
  Agrees map.stageToAttachIter map.iterToAttachedStages

def Carries (map : AttachMap) (key : IterKey) : Prop :=
  map.iterToAttachedStages key ≠ none

theorem empty_consistent : empty.Consistent := agrees_empty

variable {map' : AttachMap} {stage : StageKey}

theorem deleteStage_consistent {map : AttachMap} (consistent : map.Consistent)
    (run : map.deleteStage stage = .ok map') : map'.Consistent ∧ map'.stageToAttachIter stage = none := by
  unfold deleteStage at run
  split at run
  next absent =>
    cases run
    exact ⟨consistent, absent⟩
  next key placed =>
    simp only [bind_ok, found_ok, pure_ok] at run
    obtain ⟨items, listed, rfl⟩ := run
    exact ⟨Agrees.erase consistent placed listed, by simp⟩

theorem setComputeAtIter_consistent {map : AttachMap} {target : IterKey} (consistent : map.Consistent)
    (run : map.setComputeAtIter stage target = .ok map') : map'.Consistent := by
  simp only [setComputeAtIter, bind_ok, pure_ok] at run
  obtain ⟨cleared, run, rfl⟩ := run
  obtain ⟨consistent, absent⟩ := deleteStage_consistent consistent run
  exact Agrees.insert consistent absent target

def shiftStage (startId offset stage : Int) : Int :=
  if stage < startId then stage else stage + offset

variable {offset : Int}

theorem shiftStage_injective (startId : Int) (grows : 0 ≤ offset) :
    Function.Injective (shiftStage startId offset) := by
  intro left right same
  unfold shiftStage at same
  split at same <;> split at same <;> omega

theorem shiftStage_eq_iff {startId : Int} (grows : 0 ≤ offset) {old new : Int} :
    shiftStage startId offset old = new ↔
      (if new < startId then some new
        else if new < startId + offset then none else some (new - offset)) = some old := by
  unfold shiftStage
  split <;> split <;> try split
  all_goals simp only [Option.some.injEq, reduceCtorEq, iff_false]
  all_goals omega

theorem applyStageIdOffset_consistent {map : AttachMap} (consistent : map.Consistent) (startId : Int)
    (grows : 0 ≤ offset) : (map.applyStageIdOffset startId offset).Consistent := by
  refine Agrees.rename (f := shiftStage startId offset)
    (g := fun key => (shiftStage startId offset key.1, key.2)) consistent
    (shiftStage_injective startId grows) ?_ ?_
  · intro stage key
    simp only [shiftStage_eq_iff grows]
    simp only [applyStageIdOffset, bind, Option.bind_eq_some_iff, pure, Option.some.injEq, Prod.exists]
    constructor
    · rintro ⟨old, back, target, iter, placed, rfl⟩
      exact ⟨old, target, iter, back, rfl, placed⟩
    · rintro ⟨old, target, iter, back, rfl, placed⟩
      exact ⟨old, back, target, iter, placed, rfl⟩
  · rintro ⟨target, iter⟩ stages
    simp only [applyStageIdOffset, bind, Option.bind_eq_some_iff, pure, Option.some.injEq,
      Prod.mk.injEq, Prod.exists, shiftStage_eq_iff grows]
    constructor
    · rintro ⟨old, back, olds, listed, rfl⟩
      exact ⟨old, iter, olds, ⟨back, rfl⟩, rfl, listed⟩
    · rintro ⟨old, iter, olds, ⟨back, rfl⟩, rfl, listed⟩
      exact ⟨old, back, olds, listed, rfl⟩

section

variable {map : AttachMap} {moves : List (IterKey × IterKey)}

def relocate (moves : List (IterKey × IterKey)) (key : IterKey) : IterKey :=
  (moves.lookup key).getD key

variable {key : IterKey}

theorem relocate_of_mem (distinct : (moves.map Prod.fst).Nodup) {target : IterKey}
    (member : (key, target) ∈ moves) : relocate moves key = target := by
  obtain ⟨before, after, rfl⟩ := List.append_of_mem member
  have found : (before ++ (key, target) :: after).lookup key = some target := by
    rw [List.lookup_eq_some_iff]
    refine ⟨before, after, rfl, fun move earlier => ?_⟩
    rw [List.map_append, List.nodup_append] at distinct
    have away := distinct.2.2 move.1 (List.mem_map_of_mem earlier) key (by simp)
    simpa using away.symm
  rw [relocate, found, Option.getD_some]

theorem relocate_of_not_mem (unmoved : key ∉ moves.map Prod.fst) : relocate moves key = key := by
  have missing : moves.lookup key = none := by
    rw [List.lookup_eq_none_iff]
    intro move member
    have away : key ≠ move.1 := by
      rintro rfl
      exact unmoved (List.mem_map_of_mem member)
    simpa using away
  rw [relocate, missing, Option.getD_none]

theorem moveIter_eq (map : AttachMap) (added : IterKey → Option (List StageKey)) (move : IterKey × IterKey) :
    moveIter (map, added) move =
      (⟨fun stage => if stage ∈ (map.iterToAttachedStages move.1).getD [] then some move.2
          else map.stageToAttachIter stage,
        fun iter => if iter = move.1 then none else map.iterToAttachedStages iter⟩,
        fun iter => if iter = move.2 then (map.iterToAttachedStages move.1).or (added iter)
          else added iter) := by
  cases listed : map.iterToAttachedStages move.1 with
  | none =>
    have same : (fun iter => if iter = move.1 then none else map.iterToAttachedStages iter) =
        map.iterToAttachedStages := by
      funext iter
      split
      next here => rw [here, listed]
      · rfl
    simp [moveIter, listed, same]
  | some stages => simp [moveIter, listed]

theorem foldl_moveIter_held (moves : List (IterKey × IterKey)) (map : AttachMap)
    (added : IterKey → Option (List StageKey)) (key : IterKey) :
    (moves.foldl moveIter (map, added)).1.iterToAttachedStages key =
      if key ∈ moves.map Prod.fst then none else map.iterToAttachedStages key := by
  induction moves generalizing map added with
  | nil => simp
  | cons move rest ih =>
    rw [List.foldl_cons, moveIter_eq, ih, List.map_cons]
    by_cases here : key = move.1 <;> by_cases later : key ∈ rest.map Prod.fst <;>
      simp [later]

section

variable (distinct : (moves.map Prod.fst).Nodup)

include distinct

theorem foldl_moveIter_placed (map : AttachMap)
    (added : IterKey → Option (List StageKey)) (stage : StageKey) :
    ((moves.foldl moveIter (map, added)).1.stageToAttachIter stage = map.stageToAttachIter stage ∧
        ∀ move ∈ moves, ¬Holds map.iterToAttachedStages move.1 stage) ∨
      ∃ move ∈ moves, Holds map.iterToAttachedStages move.1 stage ∧
        (moves.foldl moveIter (map, added)).1.stageToAttachIter stage = some move.2 := by
  induction moves generalizing map added with
  | nil => simp
  | cons move rest ih =>
    obtain ⟨fresh, distinct⟩ := List.nodup_cons.mp distinct
    rw [List.foldl_cons, moveIter_eq]
    -- the later sources are not touched by this round
    have kept : ∀ later ∈ rest,
        Holds (fun iter => if iter = move.1 then none else map.iterToAttachedStages iter) later.1
          stage ↔ Holds map.iterToAttachedStages later.1 stage := by
      intro later member
      have away : later.1 ≠ move.1 := by
        intro same
        exact fresh (same ▸ List.mem_map_of_mem member)
      simp [Holds, away]
    rcases ih distinct ⟨_, _⟩ _ with ⟨same, none_later⟩ | ⟨later, member, holds, same⟩
    · rw [same]
      by_cases holds : Holds map.iterToAttachedStages move.1 stage
      · exact .inr ⟨move, by simp, holds, if_pos (holds_iff.mp holds)⟩
      · refine .inl ⟨if_neg fun inside => holds (holds_iff.mpr inside), ?_⟩
        intro other member
        rcases List.mem_cons.mp member with rfl | member
        · exact holds
        · exact fun held => none_later other member ((kept other member).mpr held)
    · exact .inr ⟨later, by simp [member], (kept later member).mp holds, same⟩

theorem foldl_moveIter_added (map : AttachMap)
    (added : IterKey → Option (List StageKey)) (key : IterKey) :
    (∀ {stages}, (moves.foldl moveIter (map, added)).2 key = some stages →
        added key = some stages ∨
          ∃ move ∈ moves, move.2 = key ∧ map.iterToAttachedStages move.1 = some stages) ∧
      ((moves.foldl moveIter (map, added)).2 key = none →
        added key = none ∧ ∀ move ∈ moves, move.2 = key → map.iterToAttachedStages move.1 = none) := by
  induction moves generalizing map added with
  | nil => simp
  | cons move rest ih =>
    obtain ⟨fresh, distinct⟩ := List.nodup_cons.mp distinct
    rw [List.foldl_cons, moveIter_eq]
    have away : ∀ later ∈ rest, later.1 ≠ move.1 := by
      intro later member same
      exact fresh (same ▸ List.mem_map_of_mem member)
    obtain ⟨found, missing⟩ := ih distinct ⟨_, _⟩ _
    constructor
    · intro stages result
      rcases found result with first | ⟨later, member, there, listed⟩
      · by_cases here : key = move.2
        · rw [if_pos here, Option.or_eq_some_iff] at first
          rcases first with listed | ⟨-, before⟩
          · exact .inr ⟨move, by simp, here.symm, listed⟩
          · exact .inl before
        · exact .inl (by simpa [here] using first)
      · exact .inr ⟨later, by simp [member], there, by simpa [away later member] using listed⟩
    · intro result
      obtain ⟨first, rest_empty⟩ := missing result
      by_cases here : key = move.2
      · rw [if_pos here, Option.or_eq_none_iff] at first
        refine ⟨first.2, fun other member there => ?_⟩
        rcases List.mem_cons.mp member with rfl | member
        · exact first.1
        · simpa [away other member] using rest_empty other member there
      · refine ⟨by simpa [here] using first, fun other member there => ?_⟩
        rcases List.mem_cons.mp member with rfl | member
        · exact absurd there.symm here
        · simpa [away other member] using rest_empty other member there

theorem updateIters_placed (map : AttachMap) (stage : StageKey) :
    ((map.updateIters moves).stageToAttachIter stage = map.stageToAttachIter stage ∧
        ∀ move ∈ moves, ¬Holds map.iterToAttachedStages move.1 stage) ∨
      ∃ move ∈ moves, Holds map.iterToAttachedStages move.1 stage ∧
        (map.updateIters moves).stageToAttachIter stage = some move.2 :=
  foldl_moveIter_placed distinct map _ stage

variable {stages : List StageKey}

theorem updateIters_lists
    (listed : (map.updateIters moves).iterToAttachedStages key = some stages) :
    ∃ old, map.iterToAttachedStages old = some stages ∧ relocate moves old = key := by
  simp only [updateIters, foldl_moveIter_held, Option.or_eq_some_iff] at listed
  rcases listed with added | ⟨-, kept⟩
  · rcases (foldl_moveIter_added distinct map _ key).1 added with none | ⟨move, member, there, found⟩
    · cases none
    · exact ⟨move.1, found, there ▸ relocate_of_mem distinct member⟩
  · rw [Option.ite_none_left_eq_some] at kept
    exact ⟨key, kept.2, relocate_of_not_mem kept.1⟩

def Alone (map : AttachMap) (moves : List (IterKey × IterKey)) (key : IterKey) : Prop :=
  ∀ other ∈ moves.map Prod.fst, map.Carries other →
    relocate moves other = relocate moves key → other = key

theorem updateIters_relocate
    (listed : map.iterToAttachedStages key = some stages) (alone : map.Alone moves key) :
    (map.updateIters moves).iterToAttachedStages (relocate moves key) = some stages := by
  have added := foldl_moveIter_added distinct map (fun _ => none) (relocate moves key)
  -- whatever arrives there comes from `key`
  have arrives : ∀ {others}, (moves.foldl moveIter (map, fun _ => none)).2 (relocate moves key) =
      some others → key ∈ moves.map Prod.fst ∧ others = stages := by
    intro others result
    rcases added.1 result with none | ⟨move, member, there, found⟩
    · cases none
    · have same : move.1 = key := by
        apply alone move.1 (List.mem_map_of_mem member)
        · simp [Carries, found]
        · rw [relocate_of_mem distinct member, there]
      refine ⟨same ▸ List.mem_map_of_mem member, ?_⟩
      rw [same, listed] at found
      exact (Option.some.inj found).symm
  simp only [updateIters, foldl_moveIter_held, Option.or_eq_some_iff]
  by_cases moved : key ∈ moves.map Prod.fst
  · left
    obtain ⟨move, member, same⟩ := List.mem_map.mp moved
    cases result : (moves.foldl moveIter (map, fun _ => none)).2 (relocate moves key) with
    | none =>
      have there : relocate moves key = move.2 := same ▸ relocate_of_mem distinct member
      have empty := (added.2 result).2 move member there.symm
      rw [same, listed] at empty
      cases empty
    | some others => rw [(arrives result).2]
  · right
    constructor
    · cases result : (moves.foldl moveIter (map, fun _ => none)).2 (relocate moves key) with
      | none => rfl
      | some others => exact absurd (arrives result).1 moved
    · rw [relocate_of_not_mem moved, if_neg moved, listed]

variable {stage : StageKey}

theorem updateIters_placed_attached
    (attached : map.Attached stage key) :
    (map.updateIters moves).stageToAttachIter stage = some (relocate moves key) := by
  obtain ⟨placed, only⟩ := attached
  rcases updateIters_placed distinct map stage with ⟨same, unmoved⟩ | ⟨move, moved, holds, same⟩
  · have stays : key ∉ moves.map Prod.fst := by
      intro moved
      obtain ⟨move, inside, rfl⟩ := List.mem_map.mp moved
      exact unmoved move inside ((only move.1).mpr rfl)
    rw [same, placed, relocate_of_not_mem stays]
  · obtain rfl := (only move.1).mp holds
    rw [same, relocate_of_mem distinct moved]

theorem updateIters_attached (attached : map.Attached stage key)
    (alone : map.Alone moves key) : (map.updateIters moves).Attached stage (relocate moves key) := by
  refine ⟨updateIters_placed_attached distinct attached, fun other => ?_⟩
  constructor
  · rintro ⟨others, found, inside⟩
    obtain ⟨old, origin, there⟩ := updateIters_lists distinct found
    rw [← there, (attached.2 old).mp ⟨others, origin, inside⟩]
  · rintro rfl
    obtain ⟨stages, listed, member⟩ := (attached.2 key).mpr rfl
    exact ⟨stages, updateIters_relocate distinct listed alone, member⟩

-- Two iterators with attached stages must not be merged.
theorem updateIters_consistent (consistent : map.Consistent) :
    (map.updateIters moves).Consistent ↔ ∀ key, map.Carries key → map.Alone moves key := by
  have moved : ∀ stage, (map.updateIters moves).stageToAttachIter stage =
      (map.stageToAttachIter stage).map (relocate moves) := by
    intro stage
    cases placed : map.stageToAttachIter stage with
    | some key => exact updateIters_placed_attached distinct (consistent.sits placed)
    | none =>
      rcases updateIters_placed distinct map stage with ⟨same, -⟩ | ⟨move, -, holds, -⟩
      · simp [same, placed]
      · rw [← consistent.inverse, placed] at holds
        cases holds
  have lists : KeepsLists map.iterToAttachedStages (map.updateIters moves).iterToAttachedStages := by
    intro key stages listed
    obtain ⟨old, origin, -⟩ := updateIters_lists distinct listed
    exact ⟨old, origin⟩
  constructor
  · intro after key carries other _ carries' same
    exact Agrees.apart consistent after lists moved carries' carries same
  · intro alone
    apply Agrees.relocate consistent lists moved
    intro stage key attached
    obtain ⟨stages, listed, -⟩ := (attached.2 key).mpr rfl
    exact updateIters_attached distinct attached (alone key (by simp [Carries, listed]))

end

end

end AttachMap

end Tlm.AutoScheduler
