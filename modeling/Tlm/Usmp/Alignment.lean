import Tlm.Usmp.HillClimbSafe

set_option autoImplicit false

namespace Tlm.Usmp

open Cpp Traced

-- A multiple of the alignment, also when it is stored in an `int`.
def Whole (unit : Int) (offset : Nat) : Prop :=
  unit ∣ offset ∧ (offset < 2 ^ 31 ∨ unit ∣ 2 ^ 32)

instance (unit : Int) (offset : Nat) : Decidable (Whole unit offset) :=
  inferInstanceAs (Decidable (_ ∧ _))

section

variable {unit : Int} {fine : Event → Prop}

theorem whole_zero : Whole unit 0 :=
  ⟨dvd_zero unit, .inl (by decide)⟩

theorem int32_whole {offset : Nat} (whole : Whole unit offset) : Ensures fine (int32 offset) (unit ∣ ·) := by
  refine ensures_bind ensures_true fun _ _ => ensures_pure ?_
  rcases whole.2 with range | divides
  · rw [Int.bmod_eq_of_le (by omega) (by omega)]
    exact whole.1
  · exact (Int.dvd_iff_dvd_of_dvd_sub (divides.trans Int.dvd_bmod_sub_self)).2 whole.1

end

section

variable {Pool Buffer : Type} {objects : Objects Pool Buffer} {unit : Int} {fine : Event → Prop}

variable [DecidableEq Pool]

def Multiples (unit : Int) (pools : List Pool) (offsets : PoolOffsets Pool) : Prop :=
  ∀ pool ∈ pools, ∀ offset, offsets.lookup pool = some offset → Whole unit offset

variable {pools : List Pool} {offsets : PoolOffsets Pool} (multiples : Multiples unit pools offsets)

include multiples

theorem Multiples.insert {place : Pool} {next : Nat} (whole : place ∈ pools → Whole unit next) :
    Multiples unit pools (offsets.insert place next) := by
  intro pool member offset found
  by_cases here : pool = place
  · subst here
    rw [AList.lookup_insert] at found
    cases found
    exact whole member
  · exact multiples pool member offset (AList.lookup_insert_ne here ▸ found)

theorem Multiples.erase (place : Pool) : Multiples unit pools (offsets.erase place) := by
  intro pool member offset found
  by_cases here : pool = place
  · rw [here, AList.lookup_erase] at found
    cases found
  · exact multiples pool member offset (AList.lookup_erase_ne here ▸ found)

theorem Multiples.getD {pool : Pool} (member : pool ∈ pools) : Whole unit ((offsets.lookup pool).getD 0) := by
  cases found : offsets.lookup pool with
  | none => exact whole_zero
  | some offset => exact multiples pool member offset found

omit multiples

theorem initialOffsets_multiples (buffer : Buffer) : Ensures fine (initialOffsets objects buffer)
    (Multiples (objects.alignment buffer) (objects.poolCandidates buffer)) := by
  refine ensures_foldlM (K := fun _ => Multiples (objects.alignment buffer) (objects.poolCandidates buffer)) ?_ _ []
    ∅ (by simp [Multiples])
  intro _ pool offsets multiples
  refine ensures_bind ensures_true fun size _ => ?_
  refine ensures_bind ensures_true fun valid _ => ensures_pure ?_
  split
  · exact multiples.insert fun _ => whole_zero
  · exact multiples

theorem conflicts_multiples {avoid : PoolOffsets Pool → Buffer → Planning (PoolOffsets Pool)} {conflicts : List Buffer}
    (step : ∀ c ∈ conflicts, ∀ offsets, Multiples unit pools offsets →
      Ensures fine (avoid offsets c) (Multiples unit pools)) (multiples : Multiples unit pools offsets) :
    Ensures fine (conflicts.foldlM avoid offsets) (Multiples unit pools) := by
  induction conflicts generalizing offsets with
  | nil => exact ensures_pure multiples
  | cons c rest ih =>
    obtain ⟨first, later⟩ := List.forall_mem_cons.1 step
    exact ensures_bind (first offsets multiples) fun _ kept => ih later kept

end

section

variable {Pool Buffer : Type} (objects : Objects Pool Buffer) (buffer : Buffer)

-- The places behind the conflicts that have been placed in a pool of the buffer, each rounded up to the alignment of the
-- conflict, are good for the buffer as well.
def Tolerates (placed : Buffer → Option (PoolAllocation Pool)) : Prop :=
  ∀ c ∈ objects.conflicts buffer, ∀ p ∈ placed c, p.poolInfo ∈ objects.poolCandidates buffer →
    ∀ next, (nextOffset objects c p.byteOffset).result = .ok next → Whole (objects.alignment buffer) next

instance [DecidableEq Pool] (placed : Buffer → Option (PoolAllocation Pool)) :
    Decidable (Tolerates objects buffer placed) :=
  inferInstanceAs (Decidable (∀ c ∈ objects.conflicts buffer, ∀ p ∈ placed c, _ → _))

variable {objects buffer} [DecidableEq Pool] [DecidableEq Buffer] {fine : Event → Prop} {conflict : Buffer}
  {offsets : PoolOffsets Pool}
  (multiples : Multiples (objects.alignment buffer) (objects.poolCandidates buffer) offsets)

include multiples

theorem avoidConflict_multiples {allocations : Allocations Pool Buffer} (tolerates : Tolerates objects buffer allocations.lookup)
    (member : conflict ∈ objects.conflicts buffer) :
    Ensures fine (avoidConflict objects buffer allocations offsets conflict)
      (Multiples (objects.alignment buffer) (objects.poolCandidates buffer)) := by
  unfold avoidConflict
  split
  · exact ensures_pure multiples
  next pool byteOffset placed =>
    refine ensures_bind ensures_result fun next computed => ?_
    refine ensures_bind ensures_true fun size _ => ?_
    refine ensures_bind ensures_true fun valid _ => ?_
    split
    · refine ensures_bind ensures_true fun _ _ => ensures_pure (multiples.insert fun inside => ?_)
      exact max_rec' (Whole (objects.alignment buffer)) (multiples.getD inside)
        (tolerates conflict member _ placed inside next computed)
    · exact ensures_pure (multiples.erase _)

theorem fitAround_multiples {allocations : HillClimb.AllocMap Pool Buffer}
    (tolerates : Tolerates objects buffer (HillClimb.placeOf allocations)) (member : conflict ∈ objects.conflicts buffer) :
    Ensures fine (HillClimb.fitAround objects buffer allocations offsets conflict)
      (Multiples (objects.alignment buffer) (objects.poolCandidates buffer)) := by
  unfold HillClimb.fitAround
  split
  next pool byteOffset placed =>
    split
    · exact ensures_pure multiples
    · refine ensures_bind ensures_result fun next computed => ?_
      refine ensures_bind ensures_true fun size _ => ?_
      refine ensures_bind ensures_true fun valid _ => ?_
      split
      · split
        · refine ensures_bind ensures_true fun stop _ => ?_
          refine ensures_bind ensures_true fun start _ => ensures_pure ?_
          split
          · refine multiples.insert fun inside => tolerates conflict member ⟨pool, byteOffset⟩ ?_ inside next computed
            simp [HillClimb.placeOf, placed]
          · exact multiples
        · exact ensures_pure multiples
      · exact ensures_pure (multiples.erase _)
  · exact ensures_pure multiples

end

section

variable {Pool Place Buffer : Type} [DecidableEq Buffer] (objects : Objects Pool Buffer)
  (buffer : Buffer)

def Aligned (plan : Allocations Place Buffer) : Prop :=
  ∀ p, plan.lookup buffer = some p → objects.alignment buffer ∣ p.byteOffset

variable {objects buffer}

theorem Aligned.insert {plan : Allocations Place Buffer} (aligned : Aligned objects buffer plan)
    {other : Buffer} {p : PoolAllocation Place}
    (new : other = buffer → objects.alignment buffer ∣ p.byteOffset) :
    Aligned objects buffer (plan.insert other p) := by
  intro q found
  by_cases here : buffer = other
  · subst here
    rw [AList.lookup_insert] at found
    cases found
    exact new rfl
  · exact aligned q (AList.lookup_insert_ne here ▸ found)

variable [DecidableEq Pool]

variable (objects buffer) in
def MayPlace (placed : Buffer → Option (PoolAllocation Pool)) (other : Buffer) : Prop :=
  other = buffer → Tolerates objects buffer placed

instance (placed : Buffer → Option (PoolAllocation Pool)) (other : Buffer) :
    Decidable (MayPlace objects buffer placed other) :=
  inferInstanceAs (Decidable (_ → _))

theorem allocate_aligned {plan : Allocations Pool Buffer} {other : Buffer} {next : Allocations Pool Buffer}
    (aligned : Aligned objects buffer plan) (may : MayPlace objects buffer plan.lookup other)
    (run : (allocate objects plan other).result = .ok next) : Aligned objects buffer next := by
  refine Ensures.holds ?_ run
  by_cases same : other = buffer
  · subst same
    refine ensures_bind (initialOffsets_multiples other) fun initial multiples => ?_
    refine ensures_bind (conflicts_multiples (fun c member _ kept =>
      avoidConflict_multiples kept (may rfl) member) multiples) fun offsets found => ?_
    refine ensures_bind (selectPlacementPool_ensures objects other offsets) fun pool chosen => ?_
    refine ensures_bind (int32_whole (found.getD chosen.1)) fun byteOffset multiple => ?_
    exact ensures_pure (aligned.insert fun _ => multiple)
  · refine ensures_bind ensures_true fun initial _ => ?_
    refine ensures_bind ensures_true fun offsets _ => ?_
    refine ensures_bind ensures_true fun pool _ => ?_
    refine ensures_bind ensures_true fun byteOffset _ => ?_
    exact ensures_pure (aligned.insert fun own => absurd own same)

theorem postSortAllocation_aligned {vec : List Buffer} {plan : Allocations Pool Buffer}
    (along : Along (fun plan => MayPlace objects buffer plan.lookup) (fun plan other => (allocate objects plan other).result) vec ∅)
    (run : (postSortAllocation objects vec).result = .ok plan) : Aligned objects buffer plan :=
  along_foldlM (fun aligned may => allocate_aligned aligned may) along (by simp [Aligned]) run

namespace HillClimb

variable (sorting : Sorting)

theorem allocate_aligned {fitted next : AllocMap Pool Buffer × Bool} {other : Buffer}
    (aligned : Aligned objects buffer fitted.1) (may : MayPlace objects buffer (placeOf fitted.1) other)
    (run : (allocate objects sorting fitted other).result = .ok next) : Aligned objects buffer next.1 := by
  refine Ensures.holds (P := fun next => Aligned objects buffer next.1) ?_ run
  by_cases same : other = buffer
  · subst same
    refine ensures_bind (initialOffsets_multiples other) fun initial multiples => ?_
    refine ensures_bind (conflicts_multiples (fun c member _ kept => fitAround_multiples kept (may rfl)
      (List.mem_of_mem_filter (sorting.mem_sort.1 member))) multiples) fun offsets found => ?_
    split
    · exact ensures_pure (aligned.insert fun _ => dvd_zero _)
    next pool first =>
      refine ensures_bind (int32_whole (found.getD (List.mem_of_find?_eq_some first))) fun byteOffset multiple => ?_
      exact ensures_pure (aligned.insert fun _ => multiple)
  · refine ensures_bind ensures_true fun initial _ => ?_
    refine ensures_bind ensures_true fun offsets _ => ?_
    split
    · exact ensures_pure (aligned.insert fun own => absurd own same)
    · refine ensures_bind ensures_true fun byteOffset _ => ?_
      exact ensures_pure (aligned.insert fun own => absurd own same)

variable {sorting} in
theorem greedy_aligned {vec : List Buffer} {fitted : AllocMap Pool Buffer × Bool}
    (may : ArrangeAlong objects sorting (fun fitted => MayPlace objects buffer (placeOf fitted.1)) vec) (run : (greedy objects sorting vec).result = .ok fitted) :
    Aligned objects buffer fitted.1 := by
  have start : Aligned objects buffer (∅ : AllocMap Pool Buffer) := by simp [Aligned]
  exact along_foldlM (I := fun fitted => Aligned objects buffer fitted.1)
    (fun aligned may => allocate_aligned sorting aligned may) may start run

theorem hillClimb_aligned (random : Nat → Nat) (fuel : Nat) {memoryPressure : Int} {buffers : List Buffer}
    {plan : Allocations Pool Buffer}
    (may : ClimbAlong objects sorting random fuel (wrapSize memoryPressure)
      (fun fitted => MayPlace objects buffer (placeOf fitted.1)) maxAttempts 0
      (initialClimb (sorting.sort (sizeFirst objects) buffers)))
    (run : (hillClimb objects sorting random fuel memoryPressure buffers).result = .ok plan) :
    Aligned objects buffer plan := by
  rcases hillClimb_keeps (I := Aligned objects buffer) sorting random fuel (fun _ => greedy_aligned) may run with
    ⟨rfl, rfl⟩ | ⟨result, aligned, taken, -⟩
  · simp [Aligned]
  · exact fun p found => aligned _ (taken buffer p found)

end HillClimb

end

theorem plan_aligned {Pool Buffer : Type} [DecidableEq Pool] [DecidableEq Buffer]
    (objects : Objects Pool Buffer) (sorting : Sorting) (random : Nat → Nat) (fuel : Nat)
    (memoryPressure : Int) (buffers : List Buffer) (buffer : Buffer) (plan : Allocations Pool Buffer) :
    (Along (fun plan => MayPlace objects buffer plan.lookup) (fun plan other => (allocate objects plan other).result)
        (sorting.sort (sizeFirst objects) buffers) ∅ →
      (greedyBySize objects sorting buffers).result = .ok plan → Aligned objects buffer plan) ∧
    (Along (fun plan => MayPlace objects buffer plan.lookup) (fun plan other => (allocate objects plan other).result)
        (sorting.sort (conflictsFirst objects) buffers) ∅ →
      (greedyByConflicts objects sorting buffers).result = .ok plan → Aligned objects buffer plan) ∧
    (HillClimb.ClimbAlong objects sorting random fuel (HillClimb.wrapSize memoryPressure)
        (fun fitted => MayPlace objects buffer (HillClimb.placeOf fitted.1)) HillClimb.maxAttempts 0
        (HillClimb.initialClimb (sorting.sort (sizeFirst objects) buffers)) →
      (HillClimb.hillClimb objects sorting random fuel memoryPressure buffers).result = .ok plan →
        Aligned objects buffer plan) :=
  ⟨postSortAllocation_aligned, postSortAllocation_aligned, HillClimb.hillClimb_aligned sorting random fuel⟩

def neighbours (sizeBytes : Fin 2 → Int) : Objects Unit (Fin 2) where
  sizeHintBytes _ := -1
  nameHint _ := ""
  sizeBytes := sizeBytes
  poolCandidates _ := [()]
  alignment b := [1, 16][b]
  conflicts b := [[1], [0]][b]

def wideFirst : Objects Unit (Fin 2) :=
  neighbours fun b => [10, 40][b]

-- The wide buffer is the first to be placed, so no end of the other one is rounded for it.
theorem wideFirst_aligned :
    (∃ plan, (greedyBySize wideFirst .byInsertion [0, 1]).result = .ok plan ∧
      plan.lookup 0 = some ⟨(), 48⟩ ∧ ∀ b, Aligned wideFirst b plan) ∧
    (∃ plan, (greedyByConflicts wideFirst .byInsertion [0, 1]).result = .ok plan ∧
      plan.lookup 0 = some ⟨(), 48⟩ ∧ ∀ b, Aligned wideFirst b plan) ∧
    ∃ plan, (HillClimb.hillClimb wideFirst .byInsertion id 1 58 [0, 1]).result = .ok plan ∧
      plan.lookup 0 = some ⟨(), 48⟩ ∧ ∀ b, Aligned wideFirst b plan := by
  have aligned := plan_aligned wideFirst .byInsertion id 1 58 [0, 1]
  refine ⟨⟨_, rfl, by decide +kernel, fun b => (aligned b _).1 ?_ rfl⟩,
    ⟨_, rfl, by decide +kernel, fun b => (aligned b _).2.1 ?_ rfl⟩,
    ⟨_, rfl, by decide +kernel, fun b => (aligned b _).2.2 ⟨?_, ?_⟩ rfl⟩⟩
  · revert b
    decide +kernel
  · revert b
    decide +kernel
  · revert b
    decide +kernel
  · rintro next ⟨⟩

def mixed : Objects Unit (Fin 2) :=
  neighbours fun b => [10, 4][b]

-- The second buffer starts where the first one ends, which is rounded up to a multiple of one.
theorem mixed_misaligned : (∀ b, 0 < mixed.alignment b) ∧
    ∀ planner ∈ [greedyBySize mixed .byInsertion, greedyByConflicts mixed .byInsertion,
      HillClimb.hillClimb mixed .byInsertion id 1 14], ∃ plan, (planner [0, 1]).result = .ok plan ∧
        ∃ p, plan.lookup 1 = some p ∧ ¬ mixed.alignment 1 ∣ p.byteOffset := by
  refine ⟨by decide, ?_⟩
  simp only [List.mem_cons, List.not_mem_nil, or_false, forall_eq_or_imp, forall_eq]
  have at10 : ¬ mixed.alignment 1 ∣ 10 := by decide
  exact ⟨⟨_, rfl, ⟨(), 10⟩, by decide +kernel, at10⟩, ⟨_, rfl, ⟨(), 10⟩, by decide +kernel, at10⟩,
    ⟨_, rfl, ⟨(), 10⟩, by decide +kernel, at10⟩⟩

end Tlm.Usmp
