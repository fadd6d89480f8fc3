import Mathlib.Algebra.GroupWithZero.Nat
import Mathlib.Tactic.Common

set_option autoImplicit false

namespace Tlm.MetaSchedule.TaskScheduler

inductive BuilderResult where
  | artifact (path : String)
  | error (msg : String)

def BuilderResult.isError : BuilderResult → Bool
  | artifact _ => false
  | error _ => true

structure RunnerInput (α : Type) where
  artifactPath : String
  candidate : α

structure RunnerResult (ρ : Type) where
  runSecs : Option ρ
  errorMsg : Option String

-- What the runner answers to the input at a position.
abbrev Run (α ρ : Type) := Nat → RunnerInput α → RunnerResult ρ

variable {α ρ : Type}

def runnerInputs : List α → List BuilderResult → List (RunnerInput α)
  | candidate :: candidates, .artifact path :: rest => ⟨path, candidate⟩ :: runnerInputs candidates rest
  | _ :: candidates, .error _ :: rest => runnerInputs candidates rest
  | _, _ => []

def insertErrors : List BuilderResult → List (RunnerResult ρ) → List (RunnerResult ρ)
  | .error msg :: rest, futures => ⟨none, some msg⟩ :: insertErrors rest futures
  | .artifact _ :: rest, future :: futures => future :: insertErrors rest futures
  | _, _ => []

def sendToRunner (candidates : List α) (builderResults : List BuilderResult) (run : Run α ρ) :
    Option (List (RunnerResult ρ)) :=
  if candidates.length = builderResults.length then
    let futures := (runnerInputs candidates builderResults).mapIdx run
    if builderResults.countP (·.isError) = 0 then some futures
    else some (insertErrors builderResults futures)
  else none

-- The calls of the search strategy of a task, with what was built and run, and its termination.
inductive Event (α ρ : Type) where
  | generate (candidates : List α) (builderResults : List BuilderResult) (run : Run α ρ)
  | exhausted
  | notify (candidates : List α) (results : List (RunnerResult ρ))
  | terminate

structure TaskRecord (α ρ : Type) where
  isTerminated : Bool
  latencyMs : Nat -- the size
  measureCandidates : Option (List α)
  builderResults : Option (List BuilderResult)
  runnerFutures : Option (List (RunnerResult ρ))
  history : List (Event α ρ) -- the latest first

namespace TaskRecord

-- `GenerateMeasureCandidates` returns a batch; the builder and the runner will answer as given.
def request (candidates : List α) (builderResults : List BuilderResult) (run : Run α ρ) (task : TaskRecord α ρ) :
    TaskRecord α ρ :=
  { task with measureCandidates := some candidates
              history := .generate candidates builderResults run :: task.history }

def send (builderResults : List BuilderResult) (run : Run α ρ) (task : TaskRecord α ρ) : Option (TaskRecord α ρ) :=
  task.measureCandidates.bind fun candidates => (sendToRunner candidates builderResults run).map fun futures =>
    { task with builderResults := some builderResults, runnerFutures := some futures }

def join (task : TaskRecord α ρ) : Option (TaskRecord α ρ) :=
  match task.runnerFutures, task.measureCandidates, task.builderResults with
  | some results, some candidates, some builderResults =>
    if results.length = candidates.length ∧ results.length = builderResults.length then
      some ⟨task.isTerminated, task.latencyMs + results.length, none, none, none,
        .notify candidates results :: task.history⟩
    else none
  | _, _, _ => none

def terminate (task : TaskRecord α ρ) : Option (TaskRecord α ρ) :=
  if task.isTerminated then none else some { task with isTerminated := true, history := .terminate :: task.history }

def exhaust (task : TaskRecord α ρ) : Option (TaskRecord α ρ) :=
  terminate { task with measureCandidates := none, history := .exhausted :: task.history }

end TaskRecord

structure Scheduler (α ρ : Type) where
  tasks : List (TaskRecord α ρ)
  remainingTasks : Int
  numTrialsAlready : Int
  builderInputs : List (List α) -- all that was sent, the latest first
  finishing : Option Nat -- the next task of the second loop

structure Limits where
  maxTrialsGlobal : Int
  maxTrialsPerTask : Int

inductive Choice (α ρ : Type) where
  | touch (id : Nat) (done : Bool)
  | join (id : Nat)
  | pick (id : Nat) (batch : Option (List α)) (builderResults : List BuilderResult) (run : Run α ρ)
  | stop
  | finish

namespace Scheduler

def updateTask (s : Scheduler α ρ) (id : Nat) (f : TaskRecord α ρ → Option (TaskRecord α ρ)) :
    Option (Scheduler α ρ) :=
  (s.tasks[id]?.bind f).map fun task => { s with tasks := s.tasks.set id task }

def joinRunningTask (s : Scheduler α ρ) (id : Nat) : Option (Scheduler α ρ) :=
  s.updateTask id TaskRecord.join

def touchTask (s : Scheduler α ρ) (id : Nat) (done : Bool) : Option (Scheduler α ρ) :=
  s.tasks[id]?.bind fun task =>
    if task.isTerminated = false ∧ task.runnerFutures.isSome ∧ done then s.joinRunningTask id else some s

-- The record is marked by `mark`, which is `terminate` or `exhaust`.
def terminateTask (s : Scheduler α ρ) (id : Nat) (mark : TaskRecord α ρ → Option (TaskRecord α ρ)) :
    Option (Scheduler α ρ) :=
  { s with remainingTasks := s.remainingTasks - 1 }.updateTask id mark

def pickTask (limits : Limits) (s : Scheduler α ρ) (id : Nat) (batch : Option (List α))
    (builderResults : List BuilderResult) (run : Run α ρ) : Option (Scheduler α ρ) :=
  s.tasks[id]?.bind fun task =>
    if task.isTerminated ∨ task.runnerFutures.isSome then none
    else if limits.maxTrialsPerTask ≤ task.latencyMs then s.terminateTask id TaskRecord.terminate
    else
      match batch with
      | some candidates =>
        { s with numTrialsAlready := s.numTrialsAlready + candidates.length
                 builderInputs := candidates :: s.builderInputs }.updateTask id fun task =>
          (task.request candidates builderResults run).send builderResults run
      | none => s.terminateTask id TaskRecord.exhaust

def finishTask (s : Scheduler α ρ) (id : Nat) : Option (Scheduler α ρ) :=
  s.tasks[id]?.bind fun task =>
    if task.isTerminated then some s
    else (if task.runnerFutures.isSome then s.joinRunningTask id else some s).bind fun s =>
      s.terminateTask id TaskRecord.terminate

def step (limits : Limits) (s : Scheduler α ρ) : Choice α ρ → Option (Scheduler α ρ)
  | .touch id done => s.touchTask id done
  | .join id => s.joinRunningTask id
  | .pick id batch builderResults run => s.pickTask limits id batch builderResults run
  | .stop => some { s with finishing := some 0 }
  | .finish => s.finishing.bind fun id => (s.finishTask id).map fun s => { s with finishing := some (id + 1) }

def start (n : Nat) : Scheduler α ρ :=
  ⟨List.replicate n ⟨false, 0, none, none, none, []⟩, n, 0, [], none⟩

def Tuning (limits : Limits) (s : Scheduler α ρ) : Prop :=
  s.finishing = none ∧ s.numTrialsAlready < limits.maxTrialsGlobal

-- The first loop stops without a trial left as well as without a task. The builder answers every input.
def Allowed (limits : Limits) (s : Scheduler α ρ) : Choice α ρ → Prop
  | .touch id _ => s.Tuning limits ∧ id < s.tasks.length
  | .join id => s.Tuning limits ∧ ∃ task, s.tasks[id]? = some task ∧ task.runnerFutures.isSome
  | .pick id batch builderResults _ => s.Tuning limits ∧ ∃ task, s.tasks[id]? = some task ∧
      task.isTerminated = false ∧ task.runnerFutures = none ∧
      ∀ candidates, batch = some candidates → candidates.length = builderResults.length
  | .stop => s.finishing = none
  | .finish => ∃ id, s.finishing = some id ∧ id < s.tasks.length

inductive Reachable (limits : Limits) (allowed : Scheduler α ρ → Choice α ρ → Prop) (n : Nat) :
    Scheduler α ρ → Prop where
  | start : Reachable limits allowed n (start n)
  | step {s s' choice} (reached : Reachable limits allowed n s) (enabled : allowed s choice)
      (next : s.step limits choice = some s') : Reachable limits allowed n s'

end Scheduler

def BuilderResult.answer (run : Run α ρ) (position : Nat) (candidate : α) : BuilderResult → RunnerResult ρ
  | artifact path => run position ⟨path, candidate⟩
  | error msg => ⟨none, some msg⟩

-- A result for each candidate: its build error, or what the runner answered to its own input.
def Belongs (candidates : List α) (builderResults : List BuilderResult) (run : Run α ρ)
    (results : List (RunnerResult ρ)) : Prop :=
  results.length = candidates.length ∧ results.length = builderResults.length ∧
    ∀ k candidate (built : BuilderResult), candidates[k]? = some candidate → builderResults[k]? = some built →
      results[k]? = some (built.answer run ((builderResults.take k).countP (!·.isError)) candidate)

variable {candidates : List α} {builderResults : List BuilderResult}

theorem belongs_insertErrors (same : candidates.length = builderResults.length) (run : Run α ρ) :
    Belongs candidates builderResults run
      (insertErrors builderResults ((runnerInputs candidates builderResults).mapIdx run)) := by
  induction candidates generalizing builderResults run with
  | nil => cases builderResults <;> simp_all [Belongs, insertErrors]
  | cons candidate candidates ih =>
    cases builderResults with
    | nil => cases same
    | cons result rest =>
      -- A build error leaves the positions of the later inputs, an artifact shifts them.
      cases result with
      | artifact path =>
        obtain ⟨size, size', belongs⟩ := ih (by simpa using same) fun j => run (j + 1)
        refine ⟨by simpa [runnerInputs, insertErrors] using size,
          by simpa [runnerInputs, insertErrors] using size', fun k other built => ?_⟩
        cases k with
        | zero => simp +contextual [runnerInputs, insertErrors, List.mapIdx_cons, BuilderResult.answer, eq_comm]
        | succ k =>
          have later := belongs k other built
          cases built <;>
            simpa [runnerInputs, insertErrors, BuilderResult.isError, BuilderResult.answer] using later
      | error msg =>
        obtain ⟨size, size', belongs⟩ := ih (by simpa using same) run
        refine ⟨by simpa [runnerInputs, insertErrors] using size, by simpa [runnerInputs, insertErrors] using size',
          fun k other built => ?_⟩
        cases k with
        | zero => simp +contextual [insertErrors, BuilderResult.answer, eq_comm]
        | succ k => simpa [runnerInputs, insertErrors, BuilderResult.isError] using belongs k other built

theorem insertErrors_of_built (built : builderResults.countP (·.isError) = 0) (candidates : List α)
    (run : Run α ρ) :
    insertErrors builderResults ((runnerInputs candidates builderResults).mapIdx run) =
      (runnerInputs candidates builderResults).mapIdx run := by
  induction candidates generalizing builderResults run with
  | nil => cases builderResults with
    | nil => simp [runnerInputs, insertErrors]
    | cons result rest => cases result <;> simp_all [runnerInputs, insertErrors, BuilderResult.isError]
  | cons candidate candidates ih =>
    cases builderResults with
    | nil => simp [runnerInputs, insertErrors]
    | cons result rest =>
      cases result <;> simp_all [runnerInputs, insertErrors, BuilderResult.isError]

theorem belongs_of_sendToRunner {run : Run α ρ} {results : List (RunnerResult ρ)}
    (sent : sendToRunner candidates builderResults run = some results) :
    Belongs candidates builderResults run results := by
  unfold sendToRunner at sent
  split_ifs at sent with same built
  · cases sent
    exact insertErrors_of_built built candidates run ▸ belongs_insertErrors same run
  · cases sent
    exact belongs_insertErrors same run

-- The batches of a task, the latest first.
def TaskRecord.batches (task : TaskRecord α ρ) : List (List α) :=
  task.history.filterMap fun
    | .generate candidates _ _ => some candidates
    | _ => none

-- Every batch was answered by one notification, before the next request.
inductive Delivered : List (Event α ρ) → Prop where
  | nil : Delivered []
  | batch {candidates builderResults run results history} (belongs : Belongs candidates builderResults run results)
      (earlier : Delivered history) :
      Delivered (.notify candidates results :: .generate candidates builderResults run :: history)

-- A task waits for its next batch, has one batch in flight or was terminated, once, with none in flight.
inductive TaskRecord.Ok : TaskRecord α ρ → Prop where
  | idle {size builderResults history} (earlier : Delivered history) :
      Ok ⟨false, size, none, builderResults, none, history⟩
  | pending {size candidates builderResults run futures history}
      (sent : sendToRunner candidates builderResults run = some futures) (earlier : Delivered history) :
      Ok ⟨false, size, some candidates, some builderResults, some futures,
        .generate candidates builderResults run :: history⟩
  | terminated {size builderResults last history} (shape : last = [] ∨ last = [.exhausted])
      (earlier : Delivered history) :
      Ok ⟨true, size, none, builderResults, none, .terminate :: (last ++ history)⟩

namespace TaskRecord

variable {task : TaskRecord α ρ}

theorem Ok.join (ok : task.Ok) (pending : task.runnerFutures.isSome) :
    ∃ joined, task.join = some joined ∧ joined.Ok ∧ joined.isTerminated = task.isTerminated ∧
      joined.runnerFutures = none ∧ joined.batches = task.batches := by
  cases ok with
  | idle earlier => cases pending
  | terminated shape earlier => cases pending
  | pending sent earlier =>
    have belongs := belongs_of_sendToRunner sent
    exact ⟨_, if_pos ⟨belongs.1, belongs.2.1⟩, .idle (.batch belongs earlier), rfl, rfl, rfl⟩

def Ends (task : TaskRecord α ρ) (mark : TaskRecord α ρ → Option (TaskRecord α ρ)) : Prop :=
  ∃ marked, mark task = some marked ∧ marked.Ok ∧ marked.isTerminated = true ∧ marked.batches = task.batches

theorem Ok.terminate (ok : task.Ok) (running : task.isTerminated = false) (idle : task.runnerFutures = none) :
    task.Ends TaskRecord.terminate ∧ task.Ends exhaust := by
  cases ok with
  | terminated shape earlier => cases running
  | pending sent earlier => cases idle
  | idle earlier =>
    exact ⟨⟨_, rfl, .terminated (.inl rfl) earlier, rfl, rfl⟩, ⟨_, rfl, .terminated (.inr rfl) earlier, rfl, rfl⟩⟩

theorem Ok.send (ok : task.Ok) (running : task.isTerminated = false) (idle : task.runnerFutures = none)
    {candidates : List α} {builderResults : List BuilderResult} (same : candidates.length = builderResults.length)
    (run : Run α ρ) :
    ∃ sent, (task.request candidates builderResults run).send builderResults run = some sent ∧ sent.Ok ∧
      sent.isTerminated = false ∧ sent.history = .generate candidates builderResults run :: task.history := by
  obtain ⟨futures, sent⟩ : ∃ futures, sendToRunner candidates builderResults run = some futures := by
    simp only [sendToRunner, if_pos same]
    split <;> simp
  cases ok with
  | terminated shape earlier => cases running
  | pending sent earlier => cases idle
  | idle earlier =>
    exact ⟨_, by simp only [TaskRecord.send, request, Option.bind_some, sent]; rfl, .pending sent earlier, rfl, rfl⟩

end TaskRecord

namespace Scheduler

variable {limits : Limits} {n id : Nat} {s s' : Scheduler α ρ} {task task' : TaskRecord α ρ} {choice : Choice α ρ}

structure Inv (n : Nat) (s : Scheduler α ρ) : Prop where
  ok : ∀ task ∈ s.tasks, task.Ok
  size : s.tasks.length = n
  remaining : s.remainingTasks = s.tasks.countP (!·.isTerminated)
  batches : (s.tasks.flatMap (·.batches)).Perm s.builderInputs
  finished : ∀ k, s.finishing = some k → ∀ id < k, ∀ task, s.tasks[id]? = some task → task.isTerminated = true

section

variable (inv : s.Inv n) (found : s.tasks[id]? = some task)

include inv found

theorem Inv.set (ok : task'.Ok)
    (later : task.isTerminated = true → task'.isTerminated = true) {remaining : Int}
    (count : remaining + task'.isTerminated.toNat = s.remainingTasks + task.isTerminated.toNat) (trials : Int)
    (new : List (List α)) (batches : task'.batches = new ++ task.batches) :
    Inv n ⟨s.tasks.set id task', remaining, trials, new ++ s.builderInputs, s.finishing⟩ := by
  obtain ⟨bound, rfl⟩ := List.getElem?_eq_some_iff.mp found
  refine ⟨fun other member => ?_, by simpa using inv.size, ?_, ?_, fun k finishing other low record at_ => ?_⟩
  · cases List.mem_or_eq_of_mem_set member with
    | inl earlier => exact inv.ok other earlier
    | inr new => exact new ▸ ok
  · have before := inv.remaining
    have positive : s.tasks[id].isTerminated = false → 0 < s.tasks.countP (!·.isTerminated) := fun running =>
      List.countP_pos_iff.mpr ⟨_, List.getElem_mem bound, by simp [running]⟩
    rw [List.countP_set bound]
    generalize s.tasks.countP (!·.isTerminated) = running at *
    cases old : s.tasks[id].isTerminated <;> cases new : task'.isTerminated <;> simp_all
    all_goals omega
  · have before := inv.batches
    rw [← List.take_append_drop id s.tasks, List.drop_eq_getElem_cons bound] at before
    rw [List.set_eq_take_append_cons_drop, if_pos bound]
    simp only [List.flatMap_append, List.flatMap_cons, batches, List.append_assoc] at before ⊢
    exact (List.perm_append_comm_assoc _ _ _).trans (before.append_left new)
  · by_cases same : id = other
    · subst same
      simp only [List.getElem?_set_self bound, Option.some.injEq] at at_
      exact at_ ▸ later (inv.finished k finishing id low _ found)
    · rw [List.getElem?_set_ne same] at at_
      exact inv.finished k finishing other low record at_

theorem Inv.join (pending : task.runnerFutures.isSome) :
    ∃ joined, s.joinRunningTask id = some { s with tasks := s.tasks.set id joined } ∧
      Inv n { s with tasks := s.tasks.set id joined } ∧ joined.isTerminated = task.isTerminated ∧
      joined.runnerFutures = none := by
  obtain ⟨joined, made, ok, same, idle, batches⟩ := (inv.ok task (List.mem_of_getElem? found)).join pending
  exact ⟨joined, by simp [joinRunningTask, updateTask, found, made],
    inv.set found ok (fun ended => same ▸ ended) (by rw [same]) _ [] batches, same, idle⟩

theorem Inv.terminate (running : task.isTerminated = false)
    {mark : TaskRecord α ρ → Option (TaskRecord α ρ)} (marks : task.Ends mark) :
    ∃ s', s.terminateTask id mark = some s' ∧ s'.Inv n ∧ s'.finishing = s.finishing ∧
      ∃ marked, s'.tasks[id]? = some marked ∧ marked.isTerminated = true := by
  obtain ⟨marked, made, ok, ended, batches⟩ := marks
  have bound := (List.getElem?_eq_some_iff.mp found).1
  exact ⟨_, by rw [terminateTask, updateTask, found, Option.bind_some, made]; rfl,
    inv.set found ok (fun _ => ended) (by simp [ended, running]) _ [] batches, rfl, marked, by simp [bound], ended⟩

theorem Inv.finish :
    ∃ s', s.finishTask id = some s' ∧ s'.Inv n ∧ s'.finishing = s.finishing ∧
      ∃ marked, s'.tasks[id]? = some marked ∧ marked.isTerminated = true := by
  have bound := (List.getElem?_eq_some_iff.mp found).1
  simp only [finishTask, found, Option.bind_some]
  cases running : task.isTerminated with
  | true => exact ⟨s, rfl, inv, rfl, task, found, running⟩
  | false =>
    cases pending : task.runnerFutures with
    | none => simpa using inv.terminate found running ((inv.ok task (List.mem_of_getElem? found)).terminate running pending).1
    | some futures =>
      obtain ⟨joined, made, inv', same, idle⟩ := inv.join found (by simp [pending])
      have found' : (s.tasks.set id joined)[id]? = some joined := by simp [bound]
      simpa [made] using inv'.terminate found' (same.trans running)
        ((inv'.ok joined (List.mem_of_getElem? found')).terminate (same.trans running) idle).1

end

theorem Inv.step (inv : s.Inv n) (allowed : s.Allowed limits choice) :
    ∃ s', s.step limits choice = some s' ∧ s'.Inv n := by
  cases choice with
  | touch id done =>
    simp only [Scheduler.step, touchTask, List.getElem?_eq_getElem allowed.2, Option.bind_some]
    split
    next waiting =>
      obtain ⟨joined, made, inv', -⟩ := inv.join (List.getElem?_eq_getElem allowed.2) waiting.2.1
      exact ⟨_, made, inv'⟩
    · exact ⟨s, rfl, inv⟩
  | join id =>
    obtain ⟨-, task, found, pending⟩ := allowed
    obtain ⟨joined, made, inv', -⟩ := inv.join found pending
    exact ⟨_, made, inv'⟩
  | pick id batch builderResults run =>
    obtain ⟨-, task, found, running, idle, answered⟩ := allowed
    have ok := inv.ok task (List.mem_of_getElem? found)
    have marks := ok.terminate running idle
    simp only [Scheduler.step, pickTask, found, Option.bind_some, running, idle, Option.isSome_none, Bool.false_eq_true,
      or_self, if_false]
    split
    · obtain ⟨s', made, inv', -⟩ := inv.terminate found running marks.1
      exact ⟨s', made, inv'⟩
    · cases batch with
      | none =>
        obtain ⟨s', made, inv', -⟩ := inv.terminate found running marks.2
        exact ⟨s', made, inv'⟩
      | some candidates =>
        obtain ⟨sent, made, ok', same, history⟩ := ok.send running idle (answered _ rfl) run
        exact ⟨_, by simp only [updateTask, found, Option.bind_some, made]; rfl,
          inv.set found ok' (by simp [running]) (by simp [running, same]) _ [candidates]
            (by simp [TaskRecord.batches, history])⟩
  | stop => exact ⟨_, rfl, inv.ok, inv.size, inv.remaining, inv.batches, by rintro _ ⟨⟩ _ ⟨⟩⟩
  | finish =>
    obtain ⟨id, finishing, bound⟩ := allowed
    obtain ⟨s', made, inv', same, marked, found, ended⟩ := inv.finish (List.getElem?_eq_getElem bound)
    refine ⟨{ s' with finishing := some (id + 1) }, by simp [Scheduler.step, finishing, made], inv'.ok, inv'.size,
      inv'.remaining, inv'.batches, ?_⟩
    rintro _ ⟨⟩ other low task at_
    by_cases new : other = id
    · cases found.symm.trans (new ▸ at_)
      exact ended
    · exact inv'.finished id (same.trans finishing) other (by omega) task at_

-- A batch that a task's search strategy returns is the next event of this task.
theorem pickTask_generates {batch : List α} {run : Run α ρ} (found : s.tasks[id]? = some task)
    (under : task.latencyMs < limits.maxTrialsPerTask)
    (next : s.step limits (.pick id (some batch) builderResults run) = some s') :
    ∃ task', s'.tasks[id]? = some task' ∧ task'.history = .generate batch builderResults run :: task.history := by
  have bound := (List.getElem?_eq_some_iff.mp found).1
  simp only [Scheduler.step, pickTask, found, Option.bind_some, Option.ite_none_left_eq_some,
    if_neg (show ¬limits.maxTrialsPerTask ≤ task.latencyMs by omega), updateTask, Option.map_eq_some_iff] at next
  obtain ⟨-, sent, made, rfl⟩ := next
  refine ⟨sent, by simp [bound], ?_⟩
  simp only [TaskRecord.send, TaskRecord.request, Option.bind_some, Option.map_eq_some_iff] at made
  obtain ⟨futures, -, rfl⟩ := made
  rfl

theorem tune_delivers (reached : Reachable limits (Allowed limits) n s) :
    (∀ task ∈ s.tasks, task.Ok) ∧ (s.tasks.flatMap (·.batches)).Perm s.builderInputs ∧
      (∀ id task batch builderResults run s', s.tasks[id]? = some task → task.latencyMs < limits.maxTrialsPerTask →
        s.step limits (.pick id (some batch) builderResults run) = some s' →
        ∃ task', s'.tasks[id]? = some task' ∧ task'.history = .generate batch builderResults run :: task.history) ∧
      s.tasks.length = n ∧ s.remainingTasks = s.tasks.countP (!·.isTerminated) ∧
      (∀ choice, s.Allowed limits choice → (s.step limits choice).isSome) ∧
      (s.finishing = some n → ∀ task ∈ s.tasks, task.isTerminated = true) := by
  have inv : s.Inv n := by
    induction reached with
    | start =>
      refine ⟨fun task member => ?_, by simp [start], by simp [start, List.countP_replicate], ?_, by rintro _ ⟨⟩⟩
      · rw [List.eq_of_mem_replicate member]
        exact .idle .nil
      · simp [start, TaskRecord.batches]
    | step reached enabled next ih =>
      obtain ⟨s', made, inv⟩ := ih.step enabled
      cases made.symm.trans next
      exact inv
  refine ⟨inv.ok, inv.batches, fun _ _ _ _ _ _ found under next => pickTask_generates found under next, inv.size,
    inv.remaining, fun choice allowed => ?_, fun finishing task member => ?_⟩
  · obtain ⟨s', made, -⟩ := inv.step allowed
    simp [made]
  · obtain ⟨id, bound, rfl⟩ := List.getElem_of_mem member
    exact inv.finished n finishing id (inv.size ▸ bound) _ (List.getElem?_eq_getElem bound)

-- Two tasks with a batch in flight each; the first one is joined and gets an empty batch.
theorem tune_delivers_interleaved : ∃ s : Scheduler Nat Nat, s.builderInputs = [[], [7], [5, 6]] ∧
    s.tasks.map (·.batches) = [[[], [5, 6]], [[7]]] ∧ ∀ task ∈ s.tasks, task.Ok := by
  have first : Reachable ⟨9, 9⟩ (Allowed ⟨9, 9⟩) 2 _ := .step .start
    (show Allowed _ (start 2) (.pick 0 (some [5, 6]) [.artifact "a", .error "e"] fun k _ => ⟨some k, none⟩) from
      ⟨⟨rfl, by decide⟩, _, rfl, rfl, rfl, by simp⟩) rfl
  have second := first.step (show Allowed _ _ (.pick 1 (some [7]) [.artifact "b"] fun k _ => ⟨some k, none⟩) from
    ⟨⟨rfl, by decide⟩, _, rfl, rfl, rfl, by simp⟩) rfl
  have joined := second.step (show Allowed _ _ (.join 0) from ⟨⟨rfl, by decide⟩, _, rfl, rfl⟩) rfl
  have again := joined.step (show Allowed _ _ (.pick 0 (some []) [] fun k _ => ⟨some k, none⟩) from
    ⟨⟨rfl, by decide⟩, _, rfl, rfl, rfl, by simp⟩) rfl
  exact ⟨_, rfl, rfl, (tune_delivers again).1⟩

def total (s : Scheduler α ρ) : Int :=
  (s.builderInputs.map List.length).sum

def Fits (limits : Limits) (s : Scheduler α ρ) : Choice α ρ → Prop
  | .pick id (some candidates) _ _ => ∀ task, s.tasks[id]? = some task → task.latencyMs < limits.maxTrialsPerTask →
      s.numTrialsAlready + candidates.length ≤ limits.maxTrialsGlobal
  | _ => True

def sent (s : Scheduler α ρ) : Int × List (List α) :=
  (s.numTrialsAlready, s.builderInputs)

theorem sent_updateTask {f : TaskRecord α ρ → Option (TaskRecord α ρ)} (next : s.updateTask id f = some s') :
    s'.sent = s.sent := by
  obtain ⟨task, -, rfl⟩ := Option.map_eq_some_iff.mp next
  rfl

theorem sent_finishTask (next : s.finishTask id = some s') : s'.sent = s.sent := by
  obtain ⟨task, -, next⟩ := Option.bind_eq_some_iff.mp next
  split at next
  · cases next; rfl
  · obtain ⟨middle, joined, next⟩ := Option.bind_eq_some_iff.mp next
    have ended := sent_updateTask next
    have same : middle.sent = s.sent := by
      split at joined
      · exact sent_updateTask joined
      · cases joined; rfl
    exact Eq.trans ended same

theorem sent_step (next : s.step limits choice = some s') :
    s'.sent = s.sent ∧ s.Fits limits choice ∨
      ∃ id candidates builderResults run task, choice = .pick id (some candidates) builderResults run ∧
        s.tasks[id]? = some task ∧ task.latencyMs < limits.maxTrialsPerTask ∧
        s'.sent = (s.numTrialsAlready + candidates.length, candidates :: s.builderInputs) := by
  cases choice with
  | touch id done =>
    obtain ⟨task, -, next⟩ := Option.bind_eq_some_iff.mp next
    split at next
    · exact .inl ⟨sent_updateTask next, trivial⟩
    · cases next; exact .inl ⟨rfl, trivial⟩
  | join id => exact .inl ⟨sent_updateTask next, trivial⟩
  | pick id batch builderResults run =>
    obtain ⟨task, found, next⟩ := Option.bind_eq_some_iff.mp next
    split_ifs at next with busy spent
    · have same := sent_updateTask next
      refine .inl ⟨same, ?_⟩
      cases batch with
      | none => trivial
      | some candidates =>
        intro other found' under
        cases found.symm.trans found'
        omega
    · cases batch with
      | none =>
        have same := sent_updateTask (f := TaskRecord.exhaust) next
        exact .inl ⟨same, trivial⟩
      | some candidates =>
        have same := sent_updateTask next
        exact .inr ⟨id, candidates, builderResults, run, task, rfl, found, by omega, same⟩
  | stop => cases next; exact .inl ⟨rfl, trivial⟩
  | finish =>
    obtain ⟨id, -, next⟩ := Option.bind_eq_some_iff.mp next
    obtain ⟨finished, made, rfl⟩ := Option.map_eq_some_iff.mp next
    have same := sent_finishTask made
    exact .inl ⟨same, trivial⟩

theorem total_step (counted : s.numTrialsAlready = s.total) (within : s.total ≤ limits.maxTrialsGlobal)
    (next : s.step limits choice = some s') :
    s'.numTrialsAlready = s'.total ∧ (s'.total ≤ limits.maxTrialsGlobal ↔ s.Fits limits choice) := by
  cases sent_step next with
  | inl same =>
    obtain ⟨same, fits⟩ := same
    simp only [sent, Prod.mk.injEq] at same
    simp only [total, same.1, same.2] at *
    exact ⟨counted, iff_of_true within fits⟩
  | inr sends =>
    obtain ⟨id, candidates, builderResults, run, task, rfl, found, under, same⟩ := sends
    simp only [sent, Prod.mk.injEq] at same
    simp only [total, same.2, List.map_cons, List.sum_cons, Fits, found] at *
    refine ⟨by omega, fun fits other _ _ => by omega, fun fits => ?_⟩
    have := fits task rfl under
    omega

theorem tune_budget (nonneg : 0 ≤ limits.maxTrialsGlobal)
    (reached : Reachable limits (fun s choice => s.Allowed limits choice ∧ s.Fits limits choice) n s) :
    s.total ≤ limits.maxTrialsGlobal ∧ ∀ choice s', s.step limits choice = some s' →
      (s'.total ≤ limits.maxTrialsGlobal ↔ s.Fits limits choice) := by
  have kept : s.numTrialsAlready = s.total ∧ s.total ≤ limits.maxTrialsGlobal := by
    induction reached with
    | start => exact ⟨rfl, nonneg⟩
    | step reached enabled next ih =>
      have after := total_step ih.1 ih.2 next
      exact ⟨after.1, after.2.mpr enabled.2⟩
  exact ⟨kept.2, fun choice s' next => (total_step kept.1 kept.2 next).2⟩

theorem tune_budget_spent : ∃ s : Scheduler Nat Nat, s.builderInputs = [[7], [5, 6]] ∧ s.total ≤ 3 := by
  have first : Reachable ⟨3, 3⟩ (fun s choice => s.Allowed ⟨3, 3⟩ choice ∧ s.Fits ⟨3, 3⟩ choice) 2 _ := .step .start
    (show Allowed _ (start 2) (.pick 0 (some [5, 6]) [.artifact "a", .error "e"] fun k _ => ⟨some k, none⟩) ∧ Fits _ _ _
      from ⟨⟨⟨rfl, by decide⟩, _, rfl, rfl, rfl, by simp⟩, by simp [Fits, start]⟩) rfl
  have second := first.step (show Allowed _ _ (.pick 1 (some [7]) [.artifact "b"] fun k _ => ⟨some k, none⟩) ∧ Fits _ _ _
    from ⟨⟨⟨rfl, by decide⟩, _, rfl, rfl, rfl, by simp⟩, by simp [Fits, start]⟩) rfl
  exact ⟨_, rfl, (tune_budget (by decide) second).1⟩

-- The second of two tasks still finds a trial, and sends two.
theorem second_batch_over : ∃ s : Scheduler Nat Nat, Reachable ⟨3, 3⟩ (Allowed ⟨3, 3⟩) 2 s ∧ 3 < s.total :=
  ⟨_, .step (.step .start
    (show Allowed _ (start 2) (.pick 0 (some [5, 6]) [.error "e", .error "e"] fun _ _ => ⟨none, none⟩) from
      ⟨⟨rfl, by decide⟩, _, rfl, rfl, rfl, by simp⟩) rfl)
    (show Allowed _ _ (.pick 1 (some [7, 8]) [.error "e", .error "e"] fun _ _ => ⟨none, none⟩) from
      ⟨⟨rfl, by decide⟩, _, rfl, rfl, rfl, by simp⟩) rfl, by decide⟩

end Scheduler

end Tlm.MetaSchedule.TaskScheduler
