import Mathlib.Algebra.GroupWithZero.Nat
import Mathlib.Logic.Function.Basic
import Mathlib.Tactic.Common

set_option autoImplicit false

namespace Tlm.Hexagon.QueuedRingBuffer

structure QueueDescriptor where
  pendingTotal : Nat
  pendingInGroup : Nat
  groupStarted : Bool
  groups : List Nat
  closed : List (List Nat)
  opened : List Nat

structure State where
  ringBuffSize : Nat
  maxQueues : Nat
  inFlight : Nat → Bool -- by slot
  idNext : Nat
  idOldest : Nat
  queueIds : List Nat -- the latest first
  queueDescriptors : Nat → QueueDescriptor
  completed : Nat

def init (ringBuffSize maxQueues : Nat) : State :=
  ⟨ringBuffSize, maxQueues, fun _ => false, 0, 0, [], fun _ => ⟨0, 0, false, [], [], []⟩, 0⟩

def advance (inFlight : Nat → Bool) (ringBuffSize : Nat) : Nat → Nat → Nat
  | 0, id => id
  | rounds + 1, id => if inFlight (id % ringBuffSize) then id else advance inFlight ringBuffSize rounds (id + 1)

def State.oldest (s : State) : Nat :=
  advance s.inFlight s.ringBuffSize (s.idNext - s.idOldest) s.idOldest

namespace QueueDescriptor

def count (d : QueueDescriptor) : QueueDescriptor :=
  if d.groupStarted then { d with pendingInGroup := d.pendingInGroup + 1 }
  else { d with groups := d.groups ++ [1], pendingTotal := d.pendingTotal + 1 }

def issue (d : QueueDescriptor) (id : Nat) : QueueDescriptor :=
  if d.groupStarted then { d with opened := d.opened ++ [id] } else { d with closed := d.closed ++ [[id]] }

def startGroup (d : QueueDescriptor) : Option QueueDescriptor :=
  if d.groupStarted then none else some { d with groupStarted := true, pendingInGroup := 0 }

def endGroup (d : QueueDescriptor) : Option QueueDescriptor :=
  if d.groupStarted = false ∨ d.pendingInGroup = 0 then none
  else some ⟨d.pendingTotal + d.pendingInGroup, 0, false, d.groups ++ [d.pendingInGroup], d.closed ++ [d.opened], []⟩

def popGroups (inFlight : Nat) : List Nat → Nat → List Nat × Nat
  | [], pendingTotal => ([], pendingTotal)
  | front :: groups, pendingTotal =>
    if inFlight ≤ pendingTotal - front then popGroups inFlight groups (pendingTotal - front)
    else (front :: groups, pendingTotal)

def poll (d : QueueDescriptor) (inFlight : Nat) : Option QueueDescriptor :=
  let left := popGroups inFlight d.groups d.pendingTotal
  if d.groupStarted then none else some { d with groups := left.1, pendingTotal := left.2 }

end QueueDescriptor

namespace State

def updateQueue (s : State) (queueId : Nat) (f : QueueDescriptor → Option QueueDescriptor) : Option State :=
  if queueId < s.maxQueues then
    (f (s.queueDescriptors queueId)).map fun d =>
      { s with queueDescriptors := Function.update s.queueDescriptors queueId d }
  else none

-- The queue is counted before the ring is known to have room.
def next (s : State) (queueId : Nat) : Option State :=
  let s := { s with queueIds := queueId :: s.queueIds, idOldest := s.oldest }
  if s.idNext - s.idOldest = s.ringBuffSize then s.updateQueue queueId fun d => some d.count
  else
    { s with inFlight := Function.update s.inFlight (s.idNext % s.ringBuffSize) true
             idNext := s.idNext + 1 }.updateQueue queueId fun d => some (d.count.issue s.idNext)

def pollQueue (s : State) (queueId : Nat) : Option State :=
  { s with idOldest := s.oldest }.updateQueue queueId fun d =>
    d.poll ((s.queueIds.take (s.idNext - s.oldest)).count queueId)

end State

inductive Call where
  | next (queueId : Nat)
  | startGroup (queueId : Nat)
  | endGroup (queueId : Nat)
  | inFlight (queueId : Nat)
  | complete

-- `none` if a check fails, or if there is no descriptor to complete.
def State.step (s : State) : Call → Option State
  | .next queueId => s.next queueId
  | .startGroup queueId => s.updateQueue queueId QueueDescriptor.startGroup
  | .endGroup queueId => s.updateQueue queueId QueueDescriptor.endGroup
  | .inFlight queueId => s.pollQueue queueId
  | .complete =>
    if s.completed < s.idNext then
      some { s with inFlight := Function.update s.inFlight (s.completed % s.ringBuffSize) false
                    completed := s.completed + 1 }
    else none

-- What the calls reach if `Next` is never called on a full ring.
inductive Reachable (ringBuffSize maxQueues : Nat) : State → Prop where
  | init : Reachable ringBuffSize maxQueues (init ringBuffSize maxQueues)
  | step {s s' call} (reached : Reachable ringBuffSize maxQueues s)
      (room : ∀ queueId, call = .next queueId → s.idNext - s.completed < s.ringBuffSize)
      (next : s.step call = some s') : Reachable ringBuffSize maxQueues s'

def Unfinished (completed : Nat) (group : List Nat) : Bool :=
  group.any (completed ≤ ·)

theorem popGroups_split {completed : Nat} {kept : List (List Nat)} (filled : ∀ group ∈ kept, group ≠ [])
    (sorted : kept.flatten.Pairwise (· < ·)) :
    ∃ dropped left, kept = dropped ++ left ∧ (∀ group ∈ dropped, Unfinished completed group = false) ∧
      (∀ group ∈ left, Unfinished completed group = true) ∧
      QueueDescriptor.popGroups (kept.flatten.countP (completed ≤ ·)) (kept.map List.length) (kept.map List.length).sum =
        (left.map List.length, (left.map List.length).sum) := by
  induction kept with
  | nil => exact ⟨[], [], by simp [QueueDescriptor.popGroups]⟩
  | cons group rest ih =>
    simp only [List.flatten_cons, List.pairwise_append, List.forall_mem_cons] at sorted filled
    simp only [QueueDescriptor.popGroups, List.map_cons, List.sum_cons, List.flatten_cons, List.countP_append,
      ← List.length_flatten]
    cases unfinished : Unfinished completed group with
    | false =>
      obtain ⟨dropped, left, rfl, finished, rest⟩ := ih filled.2 sorted.2.1
      have none : group.countP (completed ≤ ·) = 0 := by simpa [Unfinished] using unfinished
      refine ⟨group :: dropped, left, rfl, by simpa [unfinished] using finished, rest.1, ?_⟩
      rw [none, Nat.zero_add, Nat.add_sub_cancel_left, if_pos List.countP_le_length]
      simpa only [List.length_flatten] using rest.2
    | true =>
      -- Everything that was issued after an unfinished descriptor is unfinished too.
      simp only [Unfinished, List.any_eq_true, decide_eq_true_eq] at unfinished
      obtain ⟨id, member, low⟩ := unfinished
      have some : 0 < group.countP (completed ≤ ·) := List.countP_pos_iff.mpr ⟨id, member, by simpa using low⟩
      have all : ∀ other ∈ rest.flatten, completed ≤ other := fun other mem =>
        Nat.le_trans low (Nat.le_of_lt (sorted.2.2 id member other mem))
      refine ⟨[], group :: rest, rfl, by simp, ?_, ?_⟩
      · simp only [List.forall_mem_cons, Unfinished, List.any_eq_true, decide_eq_true_eq]
        refine ⟨⟨id, member, low⟩, fun other mem => ?_⟩
        obtain ⟨first, inside⟩ := List.exists_mem_of_ne_nil other (filled.2 other mem)
        exact ⟨first, inside, all first (List.mem_flatten.mpr ⟨other, mem, inside⟩)⟩
      · have every : rest.flatten.countP (completed ≤ ·) = rest.flatten.length := List.countP_eq_length.mpr (by simpa using all)
        rw [every, if_neg (by omega)]
        simp

-- The descriptors of a queue, by the log.
def positions (queueId : Nat) : List Nat → List Nat
  | [] => []
  | other :: log => if other = queueId then positions queueId log ++ [log.length] else positions queueId log

theorem positions_lt {queueId id : Nat} {log : List Nat} (member : id ∈ positions queueId log) : id < log.length := by
  induction log with
  | nil => cases member
  | cons other log ih =>
    simp only [positions] at member
    split_ifs at member <;> simp at * <;> grind

theorem sorted_positions (queueId : Nat) (log : List Nat) : (positions queueId log).Pairwise (· < ·) := by
  induction log with
  | nil => exact .nil
  | cons other log ih =>
    unfold positions
    split
    · simpa [List.pairwise_append] using ⟨ih, fun id member => positions_lt member⟩
    · exact ih

theorem count_take (queueId : Nat) {log : List Nat} {completed : Nat} (low : completed ≤ log.length) :
    (log.take (log.length - completed)).count queueId = (positions queueId log).countP (completed ≤ ·) := by
  induction log with
  | nil => simp [positions]
  | cons other log ih =>
    by_cases last : completed ≤ log.length
    · rw [List.length_cons, Nat.succ_sub last, List.take_succ_cons, List.count_cons, ih last]
      simp only [positions]
      split_ifs <;> simp_all
    · have none : (positions queueId (other :: log)).countP (completed ≤ ·) = 0 := by
        simp only [List.countP_eq_zero]
        intro id member
        have := positions_lt member
        simp at *
        omega
      rw [none, Nat.sub_eq_zero_of_le (by simp; omega), List.take_zero, List.count_nil]

structure Follows (log : List Nat) (completed queueId : Nat) (d : QueueDescriptor) : Prop where
  ids : d.closed.flatten ++ d.opened = positions queueId log
  filled : ∀ group ∈ d.closed, group ≠ []
  pending : d.opened.length = d.pendingInGroup
  started : d.groupStarted = false → d.opened = []
  kept : ∃ popped kept, d.closed = popped ++ kept ∧ d.groups = kept.map List.length ∧
    d.pendingTotal = (kept.map List.length).sum ∧ ∀ group ∈ popped, Unfinished completed group = false

section

variable {log : List Nat} {completed queueId : Nat} {d d' : QueueDescriptor}

theorem Follows.issue (follows : Follows log completed queueId d) :
    Follows (queueId :: log) completed queueId (d.count.issue log.length) := by
  obtain ⟨ids, filled, pending, started, popped, kept, split, groups, total, finished⟩ := follows
  obtain ⟨pendingTotal, pendingInGroup, _ | _, _, closed, opened⟩ := d
  · refine ⟨?_, ?_, pending, started, popped, kept ++ [[log.length]], ?_, ?_, ?_, finished⟩
    all_goals simp_all [positions, ← ids, QueueDescriptor.count, QueueDescriptor.issue, or_imp]
  · refine ⟨?_, filled, ?_, nofun, popped, kept, split, groups, total, finished⟩
    all_goals simp_all [positions, QueueDescriptor.count, QueueDescriptor.issue, ← List.append_assoc]

theorem Follows.endGroup (follows : Follows log completed queueId d) (next : d.endGroup = some d') :
    Follows log completed queueId d' := by
  obtain ⟨ids, filled, pending, started, popped, kept, split, groups, total, finished⟩ := follows
  simp only [QueueDescriptor.endGroup, Option.ite_none_left_eq_some, Option.some.injEq, not_or] at next
  obtain ⟨⟨-, some⟩, rfl⟩ := next
  have opened : d.opened ≠ [] := fun empty => some (by simp [← pending, empty])
  exact ⟨by simpa using ids, by simpa [or_imp, forall_and, opened] using filled, rfl, fun _ => rfl,
    popped, kept ++ [d.opened], by simp [split], by simp [groups, pending], by simp [total, pending], finished⟩

theorem Follows.poll (follows : Follows log completed queueId d) (low : completed ≤ log.length)
    (next : d.poll ((log.take (log.length - completed)).count queueId) = some d') :
    Follows log completed queueId d' ∧ d'.groups.length = d.closed.countP (Unfinished completed) := by
  obtain ⟨ids, filled, pending, started, popped, kept, split, groups, total, finished⟩ := follows
  simp only [QueueDescriptor.poll, Option.ite_none_left_eq_some, Option.some.injEq, Bool.not_eq_true] at next
  obtain ⟨ended, rfl⟩ := next
  have sorted := sorted_positions queueId log
  have counted := count_take queueId low
  have none : popped.flatten.countP (completed ≤ ·) = 0 := by
    refine List.countP_eq_zero.mpr fun id member => ?_
    obtain ⟨group, mem, inside⟩ := List.mem_flatten.mp member
    exact List.any_eq_false.mp (finished group mem) id inside
  simp only [← ids, split, started ended, List.append_nil, List.flatten_append, List.countP_append, none,
    Nat.zero_add] at sorted counted
  obtain ⟨dropped, left, rfl, passed, open_, result⟩ := popGroups_split
    (fun group member => filled group (by simp [split, member])) (List.pairwise_append.mp sorted).2.1
  rw [← counted, ← total, ← groups] at result
  refine ⟨⟨ids, filled, pending, started, popped ++ dropped, left, by simp [split], by simp [result], by simp [result],
    by simpa [or_imp, forall_and] using ⟨finished, passed⟩⟩, ?_⟩
  rw [result, split, List.countP_append, List.countP_append, List.countP_eq_length.mpr open_,
    List.countP_eq_zero.mpr (by simpa using finished), List.countP_eq_zero.mpr (by simpa using passed)]
  simp

end

structure Inv (s : State) : Prop where
  oldest : s.idOldest ≤ s.completed
  issued : s.completed ≤ s.idNext
  window : s.idNext ≤ s.idOldest + s.ringBuffSize
  slots : ∀ id, s.idOldest ≤ id → id < s.idNext → (s.inFlight (id % s.ringBuffSize) = true ↔ s.completed ≤ id)
  log : s.queueIds.length = s.idNext
  queues : ∀ queueId, Follows s.queueIds s.completed queueId (s.queueDescriptors queueId)

section

variable {s s' : State} {queueId : Nat}

theorem mod_ne {size a b : Nat} (below : a < b) (near : b < a + size) : a % size ≠ b % size := by
  intro same
  have divides := Nat.le_of_dvd (by omega) (Nat.dvd_of_mod_eq_zero (Nat.sub_mod_eq_zero_of_mod_eq same.symm))
  omega

theorem advance_eq {inFlight : Nat → Bool} {size completed rounds id : Nat} (low : id ≤ completed)
    (high : completed ≤ id + rounds)
    (slots : ∀ other, id ≤ other → other < id + rounds → (inFlight (other % size) = true ↔ completed ≤ other)) :
    advance inFlight size rounds id = completed := by
  induction rounds generalizing id with
  | zero => simp only [advance]; omega
  | succ rounds ih =>
    have here := slots id (Nat.le_refl _) (by omega)
    simp only [advance]
    split
    next busy => exact Nat.le_antisymm low (here.mp busy)
    next done =>
      have below : ¬ completed ≤ id := fun reached => done (here.mpr reached)
      exact ih (by omega) (by omega) fun other first last => slots other (by omega) (by omega)

theorem Inv.oldest_eq (inv : Inv s) : s.oldest = s.completed := by
  have window := inv.issued
  have low := inv.oldest
  exact advance_eq low (by omega) fun other first last => inv.slots other first (by omega)

theorem Inv.update (inv : Inv s) {f : QueueDescriptor → Option QueueDescriptor}
    (keeps : ∀ d', f (s.queueDescriptors queueId) = some d' → Follows s.queueIds s.completed queueId d')
    (next : s.updateQueue queueId f = some s') : Inv s' := by
  simp only [State.updateQueue, Option.ite_none_right_eq_some, Option.map_eq_some_iff] at next
  obtain ⟨-, d', made, rfl⟩ := next
  refine { inv with queues := fun other => ?_ }
  by_cases same : other = queueId
  · subst same
    simpa using keeps d' made
  · simpa [same] using inv.queues other

theorem Inv.forget (inv : Inv s) : Inv { s with idOldest := s.oldest } := by
  rw [inv.oldest_eq]
  have window := inv.window
  have low := inv.oldest
  exact { inv with
    oldest := Nat.le_refl _
    window := by simp only; omega
    slots := fun id first => inv.slots id (Nat.le_trans low first) }

theorem Inv.complete (inv : Inv s) (some : s.completed < s.idNext) :
    Inv { s with inFlight := Function.update s.inFlight (s.completed % s.ringBuffSize) false
                 completed := s.completed + 1 } := by
  obtain ⟨oldest, issued, window, slots, log, queues⟩ := inv
  refine ⟨by simp only; omega, some, window, fun id first last => ?_, log, fun other => ?_⟩
  · simp only at first last
    rcases Nat.lt_trichotomy id s.completed with before | rfl | after
    · have other := mod_ne before (show s.completed < id + s.ringBuffSize by omega)
      simp only [Function.update_of_ne other, slots id first last]
      omega
    · simp
    · have other := mod_ne after (show id < s.completed + s.ringBuffSize by omega)
      simp only [Function.update_of_ne other.symm, slots id first last]
      omega
  · obtain ⟨popped, kept, split, groups, total, finished⟩ := (queues other).kept
    refine { queues other with kept := ⟨popped, kept, split, groups, total, fun group member => ?_⟩ }
    have early := finished group member
    simp only [Unfinished, List.any_eq_false, decide_eq_true_eq] at early ⊢
    exact fun id inside reached => early id inside (by omega)

theorem Inv.next (inv : Inv s) (room : s.idNext - s.completed < s.ringBuffSize) (next : s.next queueId = some s') :
    Inv s' := by
  simp only [State.next, inv.oldest_eq, if_neg (by omega : ¬ s.idNext - s.completed = s.ringBuffSize)] at next
  obtain ⟨oldest, issued, window, slots, log, queues⟩ := inv
  simp only [State.updateQueue, Option.ite_none_right_eq_some, Option.map_some, Option.some.injEq] at next
  obtain ⟨-, rfl⟩ := next
  refine ⟨Nat.le_refl _, by simp only; omega, by simp only; omega, fun id first last => ?_, by simp [log], fun other => ?_⟩
  · simp only at first last
    rcases Nat.lt_or_ge id s.idNext with before | new
    · have other := mod_ne before (show s.idNext < id + s.ringBuffSize by omega)
      simp only [Function.update_of_ne other, slots id (by omega) before]
    · rw [show id = s.idNext by omega]
      simp [issued]
  · by_cases same : other = queueId
    · subst same
      simpa [log] using (queues other).issue
    · simpa [same] using { queues other with ids := by simp [positions, Ne.symm same, (queues other).ids] }

theorem Inv.poll (inv : Inv s) {d' : QueueDescriptor}
    (next : (s.queueDescriptors queueId).poll ((s.queueIds.take (s.idNext - s.oldest)).count queueId) = some d') :
    Follows s.queueIds s.completed queueId d' ∧
      d'.groups.length = (s.queueDescriptors queueId).closed.countP (Unfinished s.completed) := by
  rw [inv.oldest_eq, ← inv.log] at next
  exact (inv.queues queueId).poll (by rw [inv.log]; exact inv.issued) next

theorem Inv.step (inv : Inv s) {call : Call} (room : ∀ queueId, call = .next queueId → s.idNext - s.completed < s.ringBuffSize)
    (next : s.step call = some s') : Inv s' := by
  cases call with
  | next queueId => exact inv.next (room queueId rfl) next
  | startGroup queueId =>
    refine inv.update (fun d' made => ?_) next
    have follows := inv.queues queueId
    simp only [QueueDescriptor.startGroup, Option.ite_none_left_eq_some, Bool.not_eq_true, Option.some.injEq] at made
    obtain ⟨ended, rfl⟩ := made
    exact { follows with pending := by simp [follows.started ended], started := nofun }
  | endGroup queueId => exact inv.update (fun d' made => (inv.queues queueId).endGroup made) next
  | inFlight queueId =>
    rw [State.step, State.pollQueue] at next
    exact inv.forget.update (fun d' made => (inv.poll made).1) next
  | complete =>
    simp only [State.step, Option.ite_none_right_eq_some, Option.some.injEq] at next
    obtain ⟨some, rfl⟩ := next
    exact inv.complete some

end

theorem Reachable.inv {ringBuffSize maxQueues : Nat} {s : State} (reached : Reachable ringBuffSize maxQueues s) :
    Inv s := by
  induction reached with
  | init =>
    exact ⟨Nat.le_refl _, Nat.le_refl _, by simp [QueuedRingBuffer.init],
      fun id _ low => by simp [QueuedRingBuffer.init] at low, rfl,
      fun _ => ⟨rfl, by simp [QueuedRingBuffer.init], rfl, fun _ => rfl, [], [], rfl, rfl, rfl, by simp⟩⟩
  | step reached room next ih => exact ih.step room next

theorem inFlight_exact {ringBuffSize maxQueues queueId : Nat} {s : State} (reached : Reachable ringBuffSize maxQueues s)
    (inside : queueId < s.maxQueues) (ended : (s.queueDescriptors queueId).groupStarted = false) :
    ∃ s', s.pollQueue queueId = some s' ∧ (s'.queueDescriptors queueId).groups.length =
      (s.queueDescriptors queueId).closed.countP (Unfinished s.completed) := by
  refine ⟨_, by simp [State.pollQueue, State.updateQueue, inside, QueueDescriptor.poll, ended]; rfl, ?_⟩
  simpa using (reached.inv.poll (if_neg (by simp [ended]))).2

def State.stepInRing (s : State) (call : Call) : Option State :=
  if s.idNext - s.completed < s.ringBuffSize then s.step call else none

theorem Reachable.run {ringBuffSize maxQueues : Nat} {s s' : State} {calls : List Call}
    (reached : Reachable ringBuffSize maxQueues s) (run : calls.foldlM State.stepInRing s = some s') :
    Reachable ringBuffSize maxQueues s' := by
  induction calls generalizing s with
  | nil =>
    cases run
    exact reached
  | cons call calls ih =>
    obtain ⟨next, first, rest⟩ := Option.bind_eq_some_iff.mp run
    rw [State.stepInRing, Option.ite_none_right_eq_some] at first
    exact ih (reached.step (fun _ _ => first.1) first.2) rest

-- Two of five descriptors are finished; one of them is the first of a group of two.
theorem inFlight_exact_grouped : ∃ s s' : State, (s.queueDescriptors 1).closed = [[1, 2], [3]] ∧
    s.completed = 2 ∧ s.pollQueue 1 = some s' ∧
    (s'.queueDescriptors 1).groups.length = (s.queueDescriptors 1).closed.countP (Unfinished s.completed) := by
  obtain ⟨s, run⟩ : ∃ s, [.next 0, .startGroup 1, .next 1, .next 1, .endGroup 1, .next 1, .next 0, .complete,
      .complete].foldlM State.stepInRing (init 6 2) = some s := ⟨_, rfl⟩
  have known : (some s).map (fun s => ((s.queueDescriptors 1).closed, s.completed, s.maxQueues,
      (s.queueDescriptors 1).groupStarted)) = some ([[1, 2], [3]], 2, 2, false) := by
    rw [← run]
    decide
  simp only [Option.map_some, Option.some.injEq, Prod.mk.injEq] at known
  obtain ⟨closed, completed, queues, ended⟩ := known
  obtain ⟨s', polled⟩ := inFlight_exact (Reachable.init.run run) (show 1 < s.maxQueues by omega) ended
  exact ⟨s, s', closed, completed, polled⟩

-- `Wait` polls until few enough groups are in flight. The engine goes on in between.
inductive State.Waits (queueId maxInFlight : Nat) : State → State → Prop where
  | done {s s'} (polled : s.pollQueue queueId = some s')
      (few : (s'.queueDescriptors queueId).groups.length ≤ maxInFlight) : Waits queueId maxInFlight s s'
  | again {s s₁ s₂ s'} (completions : Nat) (polled : s.pollQueue queueId = some s₁)
      (many : maxInFlight < (s₁.queueDescriptors queueId).groups.length)
      (engine : (List.replicate completions .complete).foldlM State.step s₁ = some s₂)
      (rest : Waits queueId maxInFlight s₂ s') : Waits queueId maxInFlight s s'

theorem Inv.completions {s s' : State} (inv : Inv s) {completions : Nat}
    (engine : (List.replicate completions .complete).foldlM State.step s = some s') : Inv s' := by
  induction completions generalizing s with
  | zero =>
    cases engine
    exact inv
  | succ completions ih =>
    rw [List.replicate_succ, List.foldlM_cons] at engine
    obtain ⟨next, done, rest⟩ := Option.bind_eq_some_iff.mp engine
    exact ih (inv.step (by simp) done) rest

theorem wait_bounds_unfinished {ringBuffSize maxQueues queueId maxInFlight : Nat} {s s' : State}
    (reached : Reachable ringBuffSize maxQueues s) (waits : s.Waits queueId maxInFlight s') :
    (s'.queueDescriptors queueId).closed.countP (Unfinished s'.completed) ≤ maxInFlight := by
  have inv := reached.inv
  clear reached
  induction waits with
  | done polled few =>
    simp only [State.pollQueue, State.updateQueue, Option.ite_none_right_eq_some, Option.map_eq_some_iff] at polled
    obtain ⟨-, d, made, rfl⟩ := polled
    have exact := (inv.poll made).2
    simp only [QueueDescriptor.poll, Option.ite_none_left_eq_some, Option.some.injEq] at made
    obtain ⟨-, rfl⟩ := made
    simp only [Function.update_self] at few exact ⊢
    omega
  | again completions polled many engine rest ih =>
    have polledInv := inv.step (by simp) (show State.step _ (.inFlight queueId) = _ from polled)
    exact ih (polledInv.completions engine)

-- The second `Next` fails, but its queue is logged in the place of the descriptor of the first.
theorem retry_hides_group :
    ((([.next 0, .next 1] : List Call).foldlM State.step (init 1 2)).bind (State.pollQueue · 0)).map (fun s =>
      ((s.queueDescriptors 0).groups.length, (s.queueDescriptors 0).closed.countP (Unfinished s.completed))) =
      some (0, 1) := by
  decide

end Tlm.Hexagon.QueuedRingBuffer
