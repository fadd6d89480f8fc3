import Mathlib.Logic.Function.Basic
import Mathlib.Tactic.Ring
import Tlm.Usmp.Greedy

set_option autoImplicit false

namespace Tlm.Usmp

open Cpp Traced

section

variable {Pool Buffer : Type} (objects : Objects Pool Buffer)

def Occupies (buffer : Buffer) (allocation : PoolAllocation Pool) (place : Int) : Prop :=
  allocation.byteOffset ≤ place ∧ place < allocation.byteOffset + objects.sizeBytes buffer

instance (buffer : Buffer) (allocation : PoolAllocation Pool) (place : Int) :
    Decidable (Occupies objects buffer allocation place) :=
  inferInstanceAs (Decidable (_ ∧ _))

def Apart (a : Buffer) (p : PoolAllocation Pool) (b : Buffer) (q : PoolAllocation Pool) : Prop :=
  p.poolInfo = q.poolInfo → ∀ place, ¬ (Occupies objects a p place ∧ Occupies objects b q place)

structure Fits (buffer : Buffer) (allocation : PoolAllocation Pool) : Prop where
  candidate : allocation.poolInfo ∈ objects.poolCandidates buffer
  start : 0 ≤ allocation.byteOffset
  bounded : objects.sizeHintBytes allocation.poolInfo ≠ kUnrestrictedPoolSizeHint →
    allocation.byteOffset + objects.sizeBytes buffer ≤ objects.sizeHintBytes allocation.poolInfo

-- The buffers that have a place are inside their pools, and apart if they are in conflict.
structure Sound (plan : Buffer → Option (PoolAllocation Pool)) : Prop where
  fits : ∀ {b p}, plan b = some p → Fits objects b p
  apart : ∀ {a p b q}, plan a = some p → plan b = some q → a ≠ b → b ∈ objects.conflicts a →
    Apart objects a p b q

structure Safe [DecidableEq Buffer] (buffers : List Buffer) (plan : Allocations Pool Buffer) : Prop extends
    Sound objects fun b => plan.lookup b where
  placed : ∀ b ∈ buffers, (plan.lookup b).isSome

variable {objects} {a b : Buffer} {p q : PoolAllocation Pool}

theorem Apart.symm (apart : Apart objects a p b q) : Apart objects b q a p :=
  fun same place both => apart same.symm place both.symm

theorem apart_of_le
    (before : p.poolInfo = q.poolInfo → p.byteOffset + objects.sizeBytes a ≤ q.byteOffset ∨
      q.byteOffset + objects.sizeBytes b ≤ p.byteOffset) : Apart objects a p b q := by
  rintro same place ⟨⟨_, _⟩, _, _⟩
  have := before same
  omega

variable {plan : Buffer → Option (PoolAllocation Pool)}

theorem Sound.of_le {plan' : Buffer → Option (PoolAllocation Pool)} (sound : Sound objects plan)
    (le : ∀ b p, plan' b = some p → plan b = some p) : Sound objects plan' :=
  ⟨fun found => sound.fits (le _ _ found), fun foundA foundB => sound.apart (le _ _ foundA) (le _ _ foundB)⟩

variable [DecidableEq Buffer]

theorem Sound.update (sound : Sound objects plan)
    (symmetric : ∀ {a b}, b ∈ objects.conflicts a → a ∈ objects.conflicts b) {buffer : Buffer}
    {entry : Option (PoolAllocation Pool)} (fits : ∀ p ∈ entry, Fits objects buffer p)
    (apart : ∀ p ∈ entry, ∀ c ∈ objects.conflicts buffer, ∀ q, plan c = some q →
      Apart objects buffer p c q) : Sound objects (Function.update plan buffer entry) where
  fits {b p} found := by
    by_cases same : b = buffer
    · subst same
      exact fits p (by simpa using found)
    · exact sound.fits (by simpa [same] using found)
  apart {a p b q} foundA foundB distinct conflict := by
    by_cases sameA : a = buffer
    · subst sameA
      exact apart p (by simpa using foundA) b conflict q (by simpa [distinct.symm] using foundB)
    · rw [Function.update_of_ne sameA] at foundA
      by_cases sameB : b = buffer
      · subst sameB
        exact (apart q (by simpa using foundB) a (symmetric conflict) p foundA).symm
      · exact sound.apart foundA (by simpa [sameB] using foundB) distinct conflict

theorem lookup_insert_eq_update (plan : Allocations Pool Buffer) (buffer : Buffer)
    (p : PoolAllocation Pool) : (fun b => (plan.insert buffer p).lookup b) =
      Function.update (fun b => plan.lookup b) buffer (some p) := by
  funext b
  by_cases same : b = buffer
  · rw [same, AList.lookup_insert, Function.update_self]
  · rw [AList.lookup_insert_ne same, Function.update_of_ne same]

theorem Safe.of_perm {buffers buffers' : List Buffer} {plan : Allocations Pool Buffer}
    (safe : Safe objects buffers plan) (perm : buffers.Perm buffers') : Safe objects buffers' plan :=
  ⟨safe.toSound, fun b member => safe.placed b (perm.mem_iff.2 member)⟩

end

def Quiet (_ : Event) : Prop := False

theorem note_ensures {event : Event} {fine : Prop} [Decidable fine] :
    Ensures Quiet (note event fine) fun _ => fine := by
  unfold note
  split
  next holds => exact ensures_pure holds
  · exact ensures_emit False.elim

theorem sizeT_ensures (z : Int) : Ensures Quiet (sizeT z) fun n => (n : Int) = z := by
  refine ensures_bind note_ensures fun _ range => ensures_pure ?_
  rw [Int.emod_eq_of_lt range.1 range.2, Int.toNat_of_nonneg range.1]

theorem int32_ensures (z : Int) : Ensures Quiet (int32 z) fun v => v = z :=
  ensures_bind note_ensures fun _ range => ensures_pure
    (Int.bmod_eq_of_le (by omega) (by omega))

theorem addInt64_ensures (a b : Int) : Ensures Quiet (addInt64 a b) fun sum => sum = a + b := by
  unfold addInt64
  split
  · exact ensures_pure rfl
  · exact ensures_fail

theorem roundUpToByteAlignment_ensures (offset : Nat) (alignment : Int) :
    Ensures Quiet (roundUpToByteAlignment offset alignment) fun next => offset ≤ next := by
  refine ensures_bind (sizeT_ensures alignment) fun unit _ => ?_
  refine ensures_bind (sizeT_ensures _) fun raised same => ?_
  split
  · exact ensures_fail
  next positive =>
    apply ensures_pure
    have cut := Nat.div_add_mod raised unit
    have rest := Nat.mod_lt raised (Nat.pos_of_ne_zero positive)
    rw [Nat.mul_comm] at cut
    omega

section

variable {Pool Buffer : Type} (objects : Objects Pool Buffer)

theorem isValidPlacement_ensures (pool : Pool) (next size : Nat) :
    Ensures Quiet (isValidPlacement objects pool next size) fun valid => valid = true →
      objects.sizeHintBytes pool ≠ kUnrestrictedPoolSizeHint →
        (next + size : Int) ≤ objects.sizeHintBytes pool := by
  unfold isValidPlacement
  split
  next unbounded => exact ensures_pure fun _ bounded => absurd unbounded bounded
  · refine ensures_bind (sizeT_ensures _) fun poolSize samePool => ?_
    refine ensures_bind (sizeT_ensures _) fun maxAddress sameAddress => ensures_pure ?_
    simp only [decide_eq_true_eq]
    omega

theorem nextOffset_ensures (conflict : Buffer) (byteOffset : Int) :
    Ensures Quiet (nextOffset objects conflict byteOffset) fun next =>
      byteOffset + objects.sizeBytes conflict ≤ next := by
  refine ensures_bind (addInt64_ensures _ _) fun stop sum => ?_
  refine ensures_bind (sizeT_ensures _) fun bytes same => ?_
  refine ensures_bind (int32_ensures _) fun alignment _ => ?_
  refine (roundUpToByteAlignment_ensures _ _).mono fun next above => ?_
  omega

def Valid (buffer : Buffer) (pool : Pool) (offset : Nat) : Prop :=
  objects.sizeHintBytes pool ≠ kUnrestrictedPoolSizeHint →
    offset + objects.sizeBytes buffer ≤ objects.sizeHintBytes pool

variable [DecidableEq Pool]

def AllValid (buffer : Buffer) (offsets : PoolOffsets Pool) : Prop :=
  ∀ pool offset, offsets.lookup pool = some offset → Valid objects buffer pool offset

theorem initialOffsets_ensures (buffer : Buffer) :
    Ensures Quiet (initialOffsets objects buffer) (AllValid objects buffer) := by
  refine ensures_foldlM (K := fun _ => AllValid objects buffer) ?_ _ [] ∅ (by simp [AllValid])
  intro _ pool offsets kept
  refine ensures_bind (sizeT_ensures _) fun size same => ?_
  refine ensures_bind (isValidPlacement_ensures objects pool 0 size) fun valid room =>
    ensures_pure fun pool' offset found => ?_
  split at found
  next holds =>
    by_cases here : pool' = pool
    · subst here
      rw [AList.lookup_insert] at found
      cases found
      intro bounded
      have := room holds bounded
      omega
    · exact kept pool' offset (by simpa [AList.lookup_insert_ne here] using found)
  · exact kept pool' offset found

theorem selectPlacementPool_ensures {fine : Event → Prop} (buffer : Buffer) (offsets : PoolOffsets Pool) :
    Ensures fine (selectPlacementPool objects buffer offsets) fun pool =>
      pool ∈ objects.poolCandidates buffer ∧ (offsets.lookup pool).isSome := by
  unfold selectPlacementPool
  split
  next pool found =>
    exact ensures_pure ⟨List.mem_of_find?_eq_some found, by simpa using List.find?_some found⟩
  · exact ensures_fail

variable [DecidableEq Buffer] (allocations : Allocations Pool Buffer) (buffer : Buffer)

def Behind (past : List Buffer) (offsets : PoolOffsets Pool) : Prop :=
  ∀ pool ∈ objects.poolCandidates buffer, ∀ offset, offsets.lookup pool = some offset →
    Valid objects buffer pool offset ∧ ∀ c ∈ past, ∀ p, allocations.lookup c = some p →
      p.poolInfo = pool → p.byteOffset + objects.sizeBytes c ≤ offset

theorem avoidConflict_ensures (past : List Buffer) (conflict : Buffer) (offsets : PoolOffsets Pool)
    (behind : Behind objects allocations buffer past offsets) :
    Ensures Quiet (avoidConflict objects buffer allocations offsets conflict)
      (Behind objects allocations buffer (past ++ [conflict])) := by
  -- A pool that the conflict is not in keeps its offset.
  have other {offsets' : PoolOffsets Pool} {pool : Pool} (inside : pool ∈ objects.poolCandidates buffer)
      {offset : Nat} (same : offsets'.lookup pool = offsets.lookup pool)
      (found : offsets'.lookup pool = some offset)
      (away : ∀ p, allocations.lookup conflict = some p → p.poolInfo ≠ pool) :
      Valid objects buffer pool offset ∧ ∀ c ∈ past ++ [conflict], ∀ p,
        allocations.lookup c = some p → p.poolInfo = pool →
          p.byteOffset + objects.sizeBytes c ≤ offset := by
    obtain ⟨valid, above⟩ := behind pool inside offset (same.symm.trans found)
    refine ⟨valid, fun c member p placed here => ?_⟩
    rcases List.mem_append.1 member with earlier | last
    · exact above c earlier p placed here
    · cases List.mem_singleton.1 last
      exact absurd here (away p placed)
  unfold avoidConflict
  split
  next absent =>
    exact ensures_pure fun pool inside offset found => other inside rfl found (by simp [absent])
  next place byteOffset present =>
    have away {pool : Pool} (differ : pool ≠ place) (p : PoolAllocation Pool)
        (placed : allocations.lookup conflict = some p) : p.poolInfo ≠ pool := by
      cases present.symm.trans placed
      exact differ.symm
    refine ensures_bind (nextOffset_ensures objects conflict byteOffset) fun next above => ?_
    refine ensures_bind (sizeT_ensures _) fun size same => ?_
    refine ensures_bind (isValidPlacement_ensures objects place next size) fun valid room => ?_
    split
    next holds =>
      refine ensures_bind note_ensures fun _ kept => ensures_pure fun pool inside offset found => ?_
      by_cases here : pool = place
      · subst here
        obtain ⟨old, was⟩ := Option.isSome_iff_exists.1 (kept inside)
        obtain ⟨validOld, aboveOld⟩ := behind pool inside old was
        simp only [AList.lookup_insert, was, Option.getD_some, Option.some.injEq] at found
        constructor
        · intro bounded
          have := room holds bounded
          have := validOld bounded
          omega
        · intro c member p placed same'
          rcases List.mem_append.1 member with earlier | last
          · have := aboveOld c earlier p placed same'
            omega
          · cases List.mem_singleton.1 last
            cases present.symm.trans placed
            simp only
            omega
      · exact other inside (AList.lookup_insert_ne here) found (away here)
    · refine ensures_pure fun pool inside offset found => ?_
      by_cases here : pool = place
      · rw [here, AList.lookup_erase] at found
        cases found
      · exact other inside (AList.lookup_erase_ne here) found (away here)

variable {objects buffer allocations}

theorem allocate_ensures (symmetric : ∀ {a b}, b ∈ objects.conflicts a → a ∈ objects.conflicts b)
    {past : List Buffer} (safe : Safe objects past allocations) :
    Ensures Quiet (allocate objects allocations buffer) (Safe objects (past ++ [buffer])) := by
  refine ensures_bind (initialOffsets_ensures objects buffer) fun initial valid => ?_
  have start : Behind objects allocations buffer [] initial := by
    intro pool _ offset found
    exact ⟨valid pool offset found, by simp⟩
  refine ensures_bind (ensures_foldlM (avoidConflict_ensures objects allocations buffer) _ [] initial
    start) fun offsets behind => ?_
  refine ensures_bind (selectPlacementPool_ensures objects buffer offsets) fun pool chosen => ?_
  refine ensures_bind (int32_ensures _) fun byteOffset same => ensures_pure ?_
  obtain ⟨inside, found⟩ := chosen
  obtain ⟨offset, found⟩ := Option.isSome_iff_exists.1 found
  obtain ⟨room, above⟩ := behind pool inside offset found
  simp only [found] at same
  subst same
  constructor
  case toSound =>
    rw [lookup_insert_eq_update]
    refine safe.toSound.update symmetric ?_ ?_
    · rintro p ⟨⟩
      exact ⟨inside, by simp, room⟩
    · rintro p ⟨⟩ c conflict q placed
      refine apart_of_le fun samePool => Or.inr ?_
      exact above c (by simpa using conflict) q placed samePool.symm
  case placed =>
    intro b member
    by_cases here : b = buffer
    · rw [here, AList.lookup_insert]
      rfl
    · rw [AList.lookup_insert_ne here]
      exact safe.placed b (by simpa [here] using member)

theorem postSortAllocation_ensures
    (symmetric : ∀ {a b}, b ∈ objects.conflicts a → a ∈ objects.conflicts b) (buffers : List Buffer) :
    Ensures Quiet (postSortAllocation objects buffers) (Safe objects buffers) :=
  ensures_foldlM (fun _ _ _ safe => allocate_ensures symmetric safe) buffers [] ∅
    ⟨⟨by simp, by simp⟩, by simp⟩

theorem ensures_of_quiet {σ ι : Type} {body : σ → ι → Planning σ} {items : List ι} {start a : σ} {post : σ → Prop}
    (ensured : Ensures Quiet (items.foldlM body start) post)
    (quiet : Along (fun s i => (body s i).log = []) (fun s i => (body s i).result) items start)
    (returned : (items.foldlM body start).result = .ok a) : post a :=
  ensured (by simp [quiet_foldlM quiet]) a returned

theorem greedy_safe (sorting : Sorting)
    (symmetric : ∀ {a b}, b ∈ objects.conflicts a → a ∈ objects.conflicts b) (buffers : List Buffer)
    {planner : List Buffer → Planning (Allocations Pool Buffer)} {before : Buffer → Buffer → Bool}
    (order : (planner, before) ∈ [(greedyBySize objects sorting, sizeFirst objects),
      (greedyByConflicts objects sorting, conflictsFirst objects)])
    (quiet : Along (fun plan b => (allocate objects plan b).log = []) (fun plan b => (allocate objects plan b).result)
      (sorting.sort before buffers) ∅) {plan : Allocations Pool Buffer}
    (planned : (planner buffers).result = .ok plan) : Safe objects buffers plan := by
  have planned : (postSortAllocation objects (sorting.sort before buffers)).result = .ok plan := by
    rw [List.mem_pair, Prod.mk.injEq, Prod.mk.injEq] at order
    rcases order with ⟨rfl, rfl⟩ | ⟨rfl, rfl⟩ <;> exact planned
  have safe := ensures_of_quiet (postSortAllocation_ensures symmetric _) quiet planned
  exact safe.of_perm (sorting.perm _ _)

end

def three {Pool : Type} (sizeHintBytes : Pool → Int) (pools : List Pool) (last : List (Fin 3)) :
    Objects Pool (Fin 3) where
  sizeHintBytes := sizeHintBytes
  nameHint _ := ""
  sizeBytes b := [40, 35, 30][b]
  poolCandidates _ := pools
  alignment _ := 1
  conflicts b := [[1, 2], [0, 2], last][b]

-- The first pool has no room for the third buffer, the second one is unbounded.
def spill : Objects Bool (Fin 3) :=
  three (fun pool => if pool then 100 else -1) [true, false] [0, 1]

theorem spill_safe : ∃ plan, (greedyBySize spill .byInsertion [2, 0, 1]).result = .ok plan ∧
    plan.lookup 2 = some ⟨false, 0⟩ ∧ Safe spill [2, 0, 1] plan :=
  ⟨_, rfl, by decide +kernel, greedy_safe .byInsertion (by decide +kernel) _ (List.mem_cons_self ..)
    (by decide +kernel) rfl⟩

-- The second buffer rules the pool out for the third, the first buffer brings it back.
def tight : Objects Unit (Fin 3) :=
  three (fun _ => 100) [()] [1, 0]

theorem tight_overlaps : (∀ {a b}, b ∈ tight.conflicts a → a ∈ tight.conflicts b) ∧
    ∀ planner ∈ [greedyBySize tight .byInsertion, greedyByConflicts tight .byInsertion],
      ∃ plan, (planner [0, 1, 2]).result = .ok plan ∧ ¬ Safe tight [0, 1, 2] plan := by
  refine ⟨by decide +kernel, ?_⟩
  have overlap {plan : Allocations Unit (Fin 3)} (second : plan.lookup 1 = some ⟨(), 40⟩)
      (third : plan.lookup 2 = some ⟨(), 40⟩) : ¬ Safe tight [0, 1, 2] plan := by
    intro safe
    exact safe.apart second third (by decide) (by decide) rfl 40 (by decide)
  simp only [List.mem_cons, List.not_mem_nil, or_false, forall_eq_or_imp, forall_eq]
  exact ⟨⟨_, rfl, overlap (by decide +kernel) (by decide +kernel)⟩,
    ⟨_, rfl, overlap (by decide +kernel) (by decide +kernel)⟩⟩

end Tlm.Usmp
