import Tlm.Usmp.GreedySafe
import Tlm.Usmp.HillClimb

set_option autoImplicit false

namespace Tlm.Usmp.HillClimb

open Cpp Traced

section

variable {Pool Buffer : Type} [DecidableEq Buffer] (objects : Objects Pool Buffer)

def placeOf (allocations : AllocMap Pool Buffer) (buffer : Buffer) : Option (PoolAllocation Pool) :=
  (allocations.lookup buffer).bind fun a => a.poolInfo.map fun pool => ⟨pool, a.byteOffset⟩

theorem placeOf_eq_some {allocations : AllocMap Pool Buffer} {buffer : Buffer}
    {p : PoolAllocation Pool} : placeOf allocations buffer = some p ↔
      allocations.lookup buffer = some ⟨some p.poolInfo, p.byteOffset⟩ := by
  cases found : allocations.lookup buffer with
  | none => simp [placeOf, found]
  | some a =>
    obtain ⟨pool, byteOffset⟩ := a
    obtain ⟨pool', byteOffset'⟩ := p
    cases pool <;> simp [placeOf, found]

theorem placeOf_insert (allocations : AllocMap Pool Buffer) (buffer : Buffer)
    (a : PoolAllocation (Option Pool)) : placeOf (allocations.insert buffer a) =
      Function.update (placeOf allocations) buffer (a.poolInfo.map fun pool => ⟨pool, a.byteOffset⟩) := by
  funext b
  by_cases same : b = buffer
  · rw [same, placeOf, AList.lookup_insert, Function.update_self, Option.bind_some]
  · rw [placeOf, AList.lookup_insert_ne same, Function.update_of_ne same, placeOf]

theorem bufConf_ascending (sorting : Sorting) (allocations : AllocMap Pool Buffer) (buffer : Buffer) :
    (bufConf objects sorting allocations buffer).Pairwise fun a b =>
      ∀ p, placeOf allocations a = some p → ∀ q, placeOf allocations b = some q →
      p.byteOffset ≤ q.byteOffset := by
  refine (sorting.sorted _ (strictWeak_key _)).imp fun {a b} ordered p placedA q placedB => ?_
  simpa [byteOffset, placeOf_eq_some.1 placedA, placeOf_eq_some.1 placedB] using ordered

structure Planned (buffers : List Buffer)
    (allocations : AllocMap Pool Buffer) : Prop where
  sound : Sound objects (placeOf allocations)
  tried : ∀ b ∈ buffers, (allocations.lookup b).isSome

variable {objects} {past : List Buffer}

theorem Planned.insert {allocations : AllocMap Pool Buffer} {buffer : Buffer}
    (planned : Planned objects past allocations) {a : PoolAllocation (Option Pool)}
    (sound : Sound objects (placeOf (allocations.insert buffer a))) :
    Planned objects (past ++ [buffer]) (allocations.insert buffer a) where
  sound := sound
  tried b member := by
    by_cases here : b = buffer
    · rw [here, AList.lookup_insert]
      rfl
    · rw [AList.lookup_insert_ne here]
      exact planned.tried b (by simpa [here] using member)

variable [DecidableEq Pool] (objects) (allocations : AllocMap Pool Buffer) (buffer : Buffer)

def Clear (past : List Buffer) (offsets : PoolOffsets Pool) : Prop :=
  ∀ pool offset, offsets.lookup pool = some offset → Valid objects buffer pool offset ∧
    ∀ c ∈ past, ∀ p, placeOf allocations c = some p → p.poolInfo = pool →
      p.byteOffset + objects.sizeBytes c ≤ offset ∨ offset + objects.sizeBytes buffer ≤ p.byteOffset

variable {objects allocations buffer}

theorem fitAround_ensures {conflict : Buffer} {offsets : PoolOffsets Pool}
    (ascending : ∀ c ∈ past, ∀ p, placeOf allocations c = some p →
      ∀ q, placeOf allocations conflict = some q → p.byteOffset ≤ q.byteOffset)
    (clear : Clear objects allocations buffer past offsets) :
    Ensures Quiet (fitAround objects buffer allocations offsets conflict)
      (Clear objects allocations buffer (past ++ [conflict])) := by
  -- What a pool that keeps its offset needs of the new conflict.
  have keep {pool : Pool} {offset : Nat} (found : offsets.lookup pool = some offset)
      (apart : ∀ p, placeOf allocations conflict = some p → p.poolInfo = pool →
        p.byteOffset + objects.sizeBytes conflict ≤ offset ∨ offset + objects.sizeBytes buffer ≤ p.byteOffset) :
      Valid objects buffer pool offset ∧ ∀ c ∈ past ++ [conflict], ∀ p,
        placeOf allocations c = some p → p.poolInfo = pool → p.byteOffset + objects.sizeBytes c ≤ offset ∨
            offset + objects.sizeBytes buffer ≤ p.byteOffset := by
    obtain ⟨valid, before⟩ := clear pool offset found
    refine ⟨valid, fun c member => ?_⟩
    rcases List.mem_append.1 member with earlier | last
    · exact before c earlier
    · cases List.mem_singleton.1 last
      exact apart
  unfold fitAround
  split
  next place byteOffset present =>
    have placed : placeOf allocations conflict = some ⟨place, byteOffset⟩ := placeOf_eq_some.2 present
    have away {pool : Pool} (differ : pool ≠ place) (p : PoolAllocation Pool)
        (found : placeOf allocations conflict = some p) (here : p.poolInfo = pool) : False := by
      cases placed.symm.trans found
      exact differ here.symm
    split
    next absent =>
      refine ensures_pure fun pool offset found => keep found fun p placed' here => ?_
      by_cases same : pool = place
      · rw [same, absent] at found
        cases found
      · exact (away same p placed' here).elim
    next old was =>
      obtain ⟨-, before⟩ := clear place old was
      refine ensures_bind (nextOffset_ensures objects conflict byteOffset) fun next above => ?_
      refine ensures_bind (sizeT_ensures _) fun size sameSize => ?_
      refine ensures_bind (isValidPlacement_ensures objects place next size) fun valid room => ?_
      -- The offset stays, behind the conflict or before it.
      have stay (apart : byteOffset + objects.sizeBytes conflict ≤ old ∨
          old + objects.sizeBytes buffer ≤ byteOffset) :
          Clear objects allocations buffer (past ++ [conflict]) offsets := by
        intro pool offset found
        refine keep found fun p placed' here => ?_
        by_cases same : pool = place
        · rw [same, was] at found
          cases found
          cases placed.symm.trans placed'
          exact apart
        · exact (away same p placed' here).elim
      split
      next holds =>
        split
        next raised =>
          refine ensures_bind (sizeT_ensures _) fun stop sameStop => ?_
          refine ensures_bind (sizeT_ensures _) fun start sameStart => ensures_pure ?_
          split
          next clashes =>
            intro pool offset found
            by_cases same : pool = place
            · subst same
              rw [AList.lookup_insert] at found
              cases found
              refine ⟨fun bounded => ?_, fun c member p placed' here => Or.inl ?_⟩
              · have := room holds bounded
                omega
              · rcases List.mem_append.1 member with earlier | last
                · have lower := ascending c earlier p placed' _ placed
                  have := before c earlier p placed' here
                  simp only at lower
                  omega
                · cases List.mem_singleton.1 last
                  cases placed.symm.trans placed'
                  exact above
            · rw [AList.lookup_insert_ne same] at found
              exact keep found fun p placed' here => (away same p placed' here).elim
          · exact stay (Or.inr (by omega))
        · exact ensures_pure (stay (Or.inl (by omega)))
      · refine ensures_pure fun pool offset found => ?_
        by_cases same : pool = place
        · rw [same, AList.lookup_erase] at found
          cases found
        · rw [AList.lookup_erase_ne same] at found
          exact keep found fun p placed' here => (away same p placed' here).elim
  next unplaced =>
    refine ensures_pure fun pool offset found => keep found fun p placed => ?_
    exact (unplaced _ _ (placeOf_eq_some.1 placed)).elim

variable (sorting : Sorting)

theorem fitAll_ensures {initial : PoolOffsets Pool} (valid : AllValid objects buffer initial) :
    Ensures Quiet ((bufConf objects sorting allocations buffer).foldlM
      (fitAround objects buffer allocations) initial)
      (Clear objects allocations buffer (bufConf objects sorting allocations buffer)) := by
  suffices run : Ensures Quiet ((bufConf objects sorting allocations buffer).foldlM
      (fitAround objects buffer allocations) initial) fun offsets =>
        bufConf objects sorting allocations buffer <+: bufConf objects sorting allocations buffer →
          Clear objects allocations buffer (bufConf objects sorting allocations buffer) offsets from
    run.mono fun offsets clear => clear (List.prefix_refl _)
  refine ensures_foldlM (K := fun past offsets =>
    past <+: bufConf objects sorting allocations buffer →
      Clear objects allocations buffer past offsets) ?_ _ [] initial ?_
  · -- The items so far come first in the sorted list, so the next one does not start before them.
    intro past conflict offsets clear
    by_cases inOrder : past ++ [conflict] <+: bufConf objects sorting allocations buffer
    · have sorted := (bufConf_ascending objects sorting allocations buffer).sublist inOrder.sublist
      rw [List.pairwise_append] at sorted
      have step := fitAround_ensures (fun c earlier => sorted.2.2 c earlier conflict (by simp))
        (clear ((List.prefix_append _ _).trans inOrder))
      exact step.mono fun offsets' clear' _ => clear'
    · exact fun _ _ _ absurd => (inOrder absurd).elim
  · intro _ pool offset found
    exact ⟨valid pool offset found, by simp⟩

variable (symmetric : ∀ {a b}, b ∈ objects.conflicts a → a ∈ objects.conflicts b)

include symmetric

theorem allocate_ensures (couldNotFit : Bool) (planned : Planned objects past allocations) :
    Ensures Quiet (allocate objects sorting (allocations, couldNotFit) buffer)
      fun fitted => Planned objects (past ++ [buffer]) fitted.1 := by
  refine ensures_bind (initialOffsets_ensures objects buffer) fun initial valid => ?_
  refine ensures_bind (fitAll_ensures sorting valid) fun offsets clear => ?_
  split
  · refine ensures_pure (planned.insert ?_)
    rw [placeOf_insert]
    exact planned.sound.update symmetric (by simp) (by simp)
  next pool chosen =>
    refine ensures_bind (int32_ensures _) fun byteOffset same => ensures_pure (planned.insert ?_)
    have inside := List.mem_of_find?_eq_some chosen
    obtain ⟨offset, found⟩ := Option.isSome_iff_exists.1 (by simpa using List.find?_some chosen)
    obtain ⟨room, apart⟩ := clear pool offset found
    simp only [found] at same
    subst same
    rw [placeOf_insert]
    refine planned.sound.update symmetric ?_ ?_
    · rintro p ⟨⟩
      exact ⟨inside, by simp, room⟩
    · rintro p ⟨⟩ c conflict q placed
      refine apart_of_le fun samePool => ?_
      have before := apart c (by simp [bufConf, sorting.mem_sort, conflict, placeOf_eq_some.1 placed])
        q placed samePool.symm
      exact before.symm

theorem greedy_ensures (vec : List Buffer) :
    Ensures Quiet (greedy objects sorting vec) fun fitted => Planned objects vec fitted.1 :=
  ensures_foldlM (K := fun past (fitted : AllocMap Pool Buffer × Bool) =>
    Planned objects past fitted.1)
    (fun _ _ _ planned => allocate_ensures sorting symmetric _ planned) vec [] (∅, false)
    ⟨⟨by simp [placeOf], by simp [placeOf]⟩, by simp⟩

end

theorem mem_swapped {α : Type} {xs : List α} {i j : Nat} {a b : α} (first : xs[i]? = some a)
    (second : xs[j]? = some b) (x : α) : x ∈ (xs.set i b).set j a ↔ x ∈ xs := by
  simp only [List.mem_iff_getElem?]
  constructor
  · rintro ⟨k, found⟩
    grind
  · rintro ⟨k, found⟩
    -- The item at one of the two places is found at the other.
    refine ⟨if k = i then j else if k = j then i else k, ?_⟩
    grind

section

variable {Pool Buffer : Type}

structure Reordered (climb next : Climb Pool Buffer) : Prop where
  mem : ∀ b, b ∈ next.bufferInfoVec ↔ b ∈ climb.bufferInfoVec
  result : next.resultPoolAllocations = climb.resultPoolAllocations

structure Climbing (buffers : List Buffer) (I : AllocMap Pool Buffer → Prop) (climb : Climb Pool Buffer) :
    Prop where
  mem : ∀ b, b ∈ climb.bufferInfoVec ↔ b ∈ buffers
  best : I climb.resultPoolAllocations

variable {climb : Climb Pool Buffer} {buffers : List Buffer} {I : AllocMap Pool Buffer → Prop}

theorem Reordered.climbing {next : Climb Pool Buffer} (same : Reordered climb next)
    (climbing : Climbing buffers I climb) : Climbing buffers I next :=
  ⟨fun b => (same.mem b).trans (climbing.mem b), same.result ▸ climbing.best⟩

variable {objects : Objects Pool Buffer} [DecidableEq Buffer] {fine : Event → Prop}

theorem swapBuffers_ensures (i1 i2 : Nat) (climb : Climb Pool Buffer) :
    Ensures fine (swapBuffers i1 i2 climb) (Reordered climb) := by
  unfold swapBuffers
  split
  · exact ensures_pure ⟨fun _ => Iff.rfl, rfl⟩
  · split
    next b1 b2 first second => exact ensures_pure ⟨mem_swapped first second, rfl⟩
    · exact ensures_fail

theorem rollback_ensures (previous : AllocMap Pool Buffer) (climb : Climb Pool Buffer) :
    Ensures fine (rollback previous climb) (Reordered climb) := by
  unfold rollback
  split
  · exact ensures_pure ⟨fun _ => Iff.rfl, rfl⟩
  · exact (swapBuffers_ensures _ _ _).mono fun _ same => ⟨same.mem, same.result⟩

theorem checked_ensures (result : AllocMap Pool Buffer) :
    Ensures fine (result.entries.foldlM (checked objects) ∅) fun plan =>
      (∀ b p, plan.lookup b = some p → ⟨b, some p.poolInfo, p.byteOffset⟩ ∈ result.entries) ∧
        ∀ entry ∈ result.entries, (plan.lookup entry.1).isSome := by
  refine ensures_foldlM (K := fun past (plan : Allocations Pool Buffer) =>
    (∀ b p, plan.lookup b = some p → ⟨b, some p.poolInfo, p.byteOffset⟩ ∈ past) ∧
      ∀ entry ∈ past, (plan.lookup entry.1).isSome) ?_ result.entries [] ∅ (by simp)
  rintro past ⟨buffer, place, byteOffset⟩ plan ⟨taken, found⟩
  unfold checked
  split
  · exact ensures_fail
  next pool here =>
    cases here
    refine ensures_bind ensures_true fun start _ => ?_
    refine ensures_bind ensures_true fun size _ => ?_
    refine ensures_bind ensures_true fun valid _ => ?_
    split
    · refine ensures_pure ⟨fun b p inside => ?_, fun entry member => ?_⟩
      · by_cases same : b = buffer
        · subst same
          rw [AList.lookup_insert] at inside
          cases inside
          simp
        · rw [AList.lookup_insert_ne same] at inside
          exact List.mem_append_left _ (taken b p inside)
      · by_cases same : entry.1 = buffer
        · rw [same, AList.lookup_insert]
          rfl
        · rw [AList.lookup_insert_ne same]
          refine found entry ((List.mem_append.1 member).resolve_right fun last => same ?_)
          rw [List.mem_singleton.1 last]
    · exact ensures_fail

variable [DecidableEq Pool] (sorting : Sorting) (random : Nat → Nat) (fuel : Nat)

theorem permute_ensures (climb : Climb Pool Buffer) :
    Ensures fine (permute objects sorting random fuel climb) (Reordered climb) := by
  refine ensures_bind ensures_true fun sizes _ => ?_
  refine ensures_bind ensures_true fun highest _ => ?_
  split
  · exact ensures_fail
  · refine ensures_bind ensures_true fun node _ => ?_
    refine ensures_bind ensures_true fun levels _ => ?_
    dsimp only
    split
    · exact ensures_pure ⟨fun _ => Iff.rfl, rfl⟩
    · refine ensures_bind ensures_true fun swapBuf1 _ => ?_
      refine ensures_bind ensures_true fun ⟨swapBuf2, draws⟩ _ => ?_
      split
      · exact ensures_pure ⟨fun _ => Iff.rfl, rfl⟩
      · refine ensures_bind ensures_true fun i1 _ => ?_
        refine ensures_bind ensures_true fun i2 _ => ?_
        exact (swapBuffers_ensures _ _ _).mono fun _ same => ⟨same.mem, same.result⟩

variable (desired : Nat) (P : AllocMap Pool Buffer × Bool → Buffer → Prop)

variable (objects) in
def ArrangeAlong (vec : List Buffer) : Prop :=
  Along P (fun fitted b => (allocate objects sorting fitted b).result) vec (∅, false)

instance [∀ fitted b, Decidable (P fitted b)] (vec : List Buffer) : Decidable (ArrangeAlong objects sorting P vec) :=
  Along.decidable vec _

variable (objects) in
def ClimbAlong : Nat → Nat → Climb Pool Buffer → Prop
  | 0, _, _ => True
  | left + 1, attempts, climb => ArrangeAlong objects sorting P climb.bufferInfoVec ∧
      ∀ next, (attempt objects sorting random fuel desired attempts climb).result = .ok (next, false) →
        ClimbAlong left (attempts + 1) next

variable {P} (arranges : ∀ {vec fitted}, (∀ b, b ∈ vec ↔ b ∈ buffers) → ArrangeAlong objects sorting P vec →
    (greedy objects sorting vec).result = .ok fitted → I fitted.1)

include arranges

theorem attempt_climbing {attempts : Nat} (mem : ∀ b, b ∈ climb.bufferInfoVec ↔ b ∈ buffers)
    (best : climb.totalSize = 0 ∨ I climb.resultPoolAllocations)
    (along : ArrangeAlong objects sorting P climb.bufferInfoVec) {next : Climb Pool Buffer × Bool}
    (run : (attempt objects sorting random fuel desired attempts climb).result = .ok next) :
    Climbing buffers I next.1 := by
  refine Ensures.holds (P := fun next => Climbing buffers I next.1) ?_ run
  refine ensures_bind ensures_result fun fitted arranged => ?_
  refine ensures_bind ensures_true fun sizes _ => ?_
  split
  · exact ensures_fail
  · dsimp only
    split
    · have kept : I fitted.1 := arranges mem along arranged
      split
      · exact ensures_pure ⟨mem, kept⟩
      · refine ensures_bind (permute_ensures sorting random fuel _) fun next same => ?_
        exact ensures_pure (same.climbing ⟨mem, kept⟩)
    next rejected =>
      have kept := best.resolve_left fun zero => rejected (Or.inl zero)
      refine ensures_bind (rollback_ensures _ _) fun back same => ?_
      refine ensures_bind (permute_ensures sorting random fuel _) fun next same' => ?_
      exact ensures_pure (same'.climbing (same.climbing ⟨mem, kept⟩))

-- The first attempt is always accepted.
theorem climbOn_keeps {left attempts : Nat} (mem : ∀ b, b ∈ climb.bufferInfoVec ↔ b ∈ buffers)
    (best : climb.totalSize = 0 ∧ 0 < left ∨ I climb.resultPoolAllocations)
    (along : ClimbAlong objects sorting random fuel desired P left attempts climb) {result : AllocMap Pool Buffer}
    (run : (climbOn objects sorting random fuel desired left attempts climb).result = .ok result) : I result := by
  induction left generalizing attempts climb with
  | zero =>
    cases run
    exact best.resolve_left (by simp)
  | succ left ih =>
    obtain ⟨⟨next, reached⟩, first, later⟩ := result_bind run
    have climbing := attempt_climbing sorting random fuel desired arranges mem (best.imp_left And.left) along.1 first
    cases reached with
    | true =>
      cases later
      exact climbing.best
    | false => exact ih climbing.mem (.inr climbing.best) (along.2 next first) later

theorem hillClimb_keeps {memoryPressure : Int} {plan : Allocations Pool Buffer}
    (along : ClimbAlong objects sorting random fuel (wrapSize memoryPressure) P maxAttempts 0
      (initialClimb (sorting.sort (sizeFirst objects) buffers)))
    (run : (hillClimb objects sorting random fuel memoryPressure buffers).result = .ok plan) :
    buffers = [] ∧ plan = ∅ ∨ ∃ result, I result ∧
      (∀ b p, plan.lookup b = some p → result.lookup b = some ⟨some p.poolInfo, p.byteOffset⟩) ∧
        ∀ b, (result.lookup b).isSome → (plan.lookup b).isSome := by
  unfold hillClimb at run
  split at run
  next empty =>
    cases run
    exact .inl ⟨List.isEmpty_iff.1 empty, rfl⟩
  · split at run
    · cases run
    · obtain ⟨result, climbed, later⟩ := result_bind run
      obtain ⟨taken, found⟩ := (checked_ensures result).holds later
      refine .inr ⟨result, climbOn_keeps sorting random fuel _ arranges (fun b => sorting.mem_sort)
        (.inl ⟨rfl, by decide⟩) along climbed, fun b p inside => ?_, fun b tried => ?_⟩
      · exact AList.mem_lookup_iff.2 (taken b p inside)
      · obtain ⟨a, here⟩ := Option.isSome_iff_exists.1 tried
        exact found ⟨b, a⟩ (AList.mem_lookup_iff.1 here)

end

theorem hillClimb_safe {Pool Buffer : Type} [DecidableEq Pool] [DecidableEq Buffer]
    {objects : Objects Pool Buffer} (sorting : Sorting) (random : Nat → Nat) (fuel : Nat)
    (symmetric : ∀ {a b}, b ∈ objects.conflicts a → a ∈ objects.conflicts b) (memoryPressure : Int)
    (buffers : List Buffer)
    (quiet : ClimbAlong objects sorting random fuel (wrapSize memoryPressure)
      (fun fitted b => (allocate objects sorting fitted b).log = []) maxAttempts 0
      (initialClimb (sorting.sort (sizeFirst objects) buffers)))
    {plan : Allocations Pool Buffer}
    (planned : (hillClimb objects sorting random fuel memoryPressure buffers).result = .ok plan) :
    Safe objects buffers plan := by
  have kept := hillClimb_keeps (I := Planned objects buffers) sorting random fuel
    (fun {vec fitted} mem along arranged => ?_) quiet planned
  · rcases kept with ⟨rfl, rfl⟩ | ⟨result, planned, taken, found⟩
    · exact ⟨⟨by simp, by simp⟩, by simp⟩
    · refine ⟨Sound.of_le planned.sound fun b p inside => placeOf_eq_some.2 (taken b p inside), fun b member => ?_⟩
      exact found b (planned.tried b member)
  · have arranged := ensures_of_quiet (greedy_ensures sorting symmetric vec) along arranged
    exact ⟨arranged.sound, fun b member => arranged.tried b ((mem b).2 member)⟩

def gap : Objects Unit (Fin 4) where
  sizeHintBytes _ := 120
  nameHint _ := ""
  sizeBytes b := [50, 40, 30, 20].getD b 0
  poolCandidates _ := [()]
  alignment _ := 4
  conflicts b := (List.finRange 4).filter fun c =>
    (b.val, c.val) ∈ [(0, 1), (1, 0), (1, 3), (2, 3), (3, 1), (3, 2)]

theorem gap_safe : ∃ plan, (hillClimb gap .byInsertion id 1 92 [0, 1, 2, 3]).result = .ok plan ∧
    plan.lookup 3 = some ⟨(), 32⟩ ∧ Safe gap [0, 1, 2, 3] plan := by
  refine ⟨_, rfl, by decide +kernel, hillClimb_safe .byInsertion id 1 (by decide +kernel) 92 _ ⟨?_, ?_⟩ rfl⟩
  · decide +kernel
  · rintro next ⟨⟩

def huge : Objects Unit (Fin 4) where
  sizeHintBytes _ := -1
  nameHint b := ["d", "c", "b", "a"].getD b ""
  sizeBytes _ := 1610612736
  poolCandidates _ := [()]
  alignment _ := 1
  conflicts b := (List.finRange 4).filter (· ≠ b)

-- The offset of the third buffer does not fit `int`, and the fourth one gets the same.
theorem huge_overlaps : (∀ {a b}, b ∈ huge.conflicts a → a ∈ huge.conflicts b) ∧
    ∃ plan, (hillClimb huge .byInsertion id 1 6442450944 [0, 1, 2, 3]).result = .ok plan ∧
      ¬ Safe huge [0, 1, 2, 3] plan := by
  refine ⟨by decide +kernel, _, rfl, fun safe => ?_⟩
  exact safe.apart (a := 2) (p := ⟨(), -1073741824⟩) (b := 3) (q := ⟨(), -1073741824⟩)
    (by decide +kernel) (by decide +kernel) (by decide) (by decide) rfl 0 (by decide)

end Tlm.Usmp.HillClimb
