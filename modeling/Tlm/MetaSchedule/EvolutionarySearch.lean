import Tlm.MetaSchedule.Database
import Tlm.Shared.Machine

set_option autoImplicit false

namespace Tlm.MetaSchedule.EvolutionarySearch

open Cpp

structure Schedule (M : Type) where
  id : Nat
  mod : M

structure Settings (M : Type) where
  equality : ModuleEquality M
  initMinUnmeasured : Int
  numEmptyItersBeforeEarlyStop : Int

structure State (M : Type) where
  maxTrials : Int
  numTrialsPerIter : Int
  st : Int
  ed : Int
  numEmptyIters : Int
  measuredWorkloads : List (Workload M)

structure Round (M : Type) where
  pickBestFromDatabase : List (Schedule M)
  sampleInitPopulation : List (Schedule M)
  evolveWithCostModel : List (Schedule M) → Int → List (Schedule M)
  -- `num * eps_greedy`.
  numRands : Int → Int
  -- The order of `SampleWithoutReplacement`.
  rands : List (Schedule M) → List (Schedule M)

variable {M : Type}

def State.create (maxTrials numTrialsPerIter : Int) : State M :=
  ⟨maxTrials, numTrialsPerIter, 0, numTrialsPerIter, 0, []⟩

def has (equality : ModuleEquality M) (measured : List (Workload M)) (workload : Workload M) :
    Bool :=
  measured.any (workloadEqual equality workload)

def pickNext (preferBest : Bool) :
    List (Schedule M) → List (Schedule M) →
      Option (Schedule M × List (Schedule M) × List (Schedule M))
  | [], [] => none
  | best :: bests, [] => some (best, bests, [])
  | [], rand :: rands => some (rand, [], rands)
  | best :: bests, rand :: rands =>
    if preferBest then some (best, bests, rand :: rands) else some (rand, best :: bests, rands)

def pickLoop (equality : ModuleEquality M) (numBests : Int) :
    (left : Nat) → (i : Int) → (bests rands : List (Schedule M)) → (measured : List (Workload M)) →
      List (Schedule M) × List (Workload M)
  | 0, _, _, _, measured => ([], measured)
  | left + 1, i, bests, rands, measured =>
    match pickNext (i < numBests) bests rands with
    | none => ([], measured)
    | some (sch, bests, rands) =>
      let workload : Workload M := ⟨sch.mod, equality.hash sch.mod⟩
      if has equality measured workload then
        pickLoop equality numBests left (i + 1) bests rands measured
      else
        let (results, measured) :=
          pickLoop equality numBests left (i + 1) bests rands (measured ++ [workload])
        (sch :: results, measured)

def pickWithEpsGreedy (equality : ModuleEquality M) (round : Round M)
    (unmeasured bests : List (Schedule M)) (num : Int) (measured : List (Workload M)) :
    List (Schedule M) × List (Workload M) :=
  pickLoop equality (num - round.numRands num) num.toNat 0 bests (round.rands unmeasured) measured

def State.window (state : State M) : Int × State M :=
  if state.maxTrials < state.ed then
    (state.maxTrials - state.st, { state with ed := state.maxTrials })
  else (state.numTrialsPerIter, state)

def State.send (settings : Settings M) (picks : List (Schedule M)) (state : State M) :
    Option (List (Schedule M)) × State M :=
  if picks = [] then
    let state := { state with numEmptyIters := state.numEmptyIters + 1 }
    if settings.numEmptyItersBeforeEarlyStop ≤ state.numEmptyIters then (none, state)
    else (some picks, state)
  else (some picks, state)

def State.generateMeasureCandidates (settings : Settings M) (round : Round M) (state : State M) :
    Except Fault (Option (List (Schedule M)) × State M) :=
  if state.maxTrials ≤ state.st then .ok (none, state)
  else do
    let (sampleNum, state) := state.window
    ensure .check (state.st < state.ed)
    let unmeasured := round.sampleInitPopulation
    if unmeasured.length < settings.initMinUnmeasured then return (none, state)
    else
      ensure .check (0 < sampleNum)
      let bests := round.evolveWithCostModel (round.pickBestFromDatabase ++ unmeasured) sampleNum
      let (picks, measured) := pickWithEpsGreedy settings.equality round unmeasured bests sampleNum
        state.measuredWorkloads
      return State.send settings picks { state with measuredWorkloads := measured }

def State.notifyRunnerResults (results : Nat) (state : State M) : State M :=
  { state with
    st := (state.st + results).bmod (2 ^ 32)
    ed := (state.ed + results).bmod (2 ^ 32) }

structure Search (M : Type) where
  state : State M
  -- The number of candidates returned so far.
  total : Nat
  finished : Bool

def Search.start (maxTrials numTrialsPerIter : Int) : Search M :=
  ⟨.create maxTrials numTrialsPerIter, 0, false⟩

-- Every batch is measured and reported before the next call.
def Search.next (settings : Settings M) (search : Search M) (round : Round M) :
    Except Fault (Search M) :=
  if search.finished then .ok search
  else do
    match ← search.state.generateMeasureCandidates settings round with
    | (none, state) => return { search with state, finished := true }
    | (some batch, state) =>
      return { search with
        state := state.notifyRunnerResults batch.length
        total := search.total + batch.length }

def run (settings : Settings M) (maxTrials numTrialsPerIter : Int) (rounds : List (Round M)) :
    Except Fault (Search M) :=
  rounds.foldlM (Search.next settings) (.start maxTrials numTrialsPerIter)

theorem pickLoop_length_le (equality : ModuleEquality M) (numBests : Int) (left : Nat) :
    ∀ i bests rands measured, (pickLoop equality numBests left i bests rands measured).1.length ≤ left := by
  induction left with
  | zero => simp [pickLoop]
  | succ left ih =>
    intro i bests rands measured
    unfold pickLoop
    split
    · simp
    next sch bests rands _ =>
      dsimp only
      split
      · exact (ih _ _ _ _).trans (Nat.le_succ left)
      · simpa using ih _ _ _ _

theorem pickWithEpsGreedy_length_le (equality : ModuleEquality M) (round : Round M)
    (unmeasured bests : List (Schedule M)) {num : Int} (positive : 0 < num) (measured : List (Workload M)) :
    ((pickWithEpsGreedy equality round unmeasured bests num measured).1.length : Int) ≤ num := by
  have := pickLoop_length_le equality (num - round.numRands num) num.toNat 0 bests
    (round.rands unmeasured) measured
  rw [pickWithEpsGreedy]
  omega

-- Before a call the window starts at the candidates returned so far; a window that ends in the budget
-- has its full length.
structure Search.Within (search : Search M) (maxTrials numTrialsPerIter : Int) : Prop where
  max : search.state.maxTrials = maxTrials
  perIter : search.state.numTrialsPerIter = numTrialsPerIter
  budget : search.total ≤ maxTrials
  st : search.finished = false → search.state.st = search.total
  ed : search.finished = false → search.state.ed ≤ search.total + numTrialsPerIter
  full : search.finished = false → search.state.ed ≤ maxTrials →
    search.state.ed = search.total + numTrialsPerIter

-- The schedules that are looked at, in their order, whether they were measured or not.
def drawn (numBests : Int) : (left : Nat) → (i : Int) → (bests rands : List (Schedule M)) → List (Schedule M)
  | 0, _, _, _ => []
  | left + 1, i, bests, rands =>
    match pickNext (i < numBests) bests rands with
    | none => []
    | some (sch, bests, rands) => sch :: drawn numBests left (i + 1) bests rands

def Round.draws (round : Round M) (num : Int) : List (Schedule M) :=
  drawn (num - round.numRands num) num.toNat 0
    (round.evolveWithCostModel (round.pickBestFromDatabase ++ round.sampleInitPopulation) num)
    (round.rands round.sampleInitPopulation)

-- Where the window is clipped and the search is not about to stop, the round has a new schedule.
def Search.Refills (settings : Settings M) (search : Search M) (round : Round M) : Prop :=
  search.state.st < search.state.maxTrials → search.state.maxTrials < search.state.ed →
    settings.initMinUnmeasured ≤ round.sampleInitPopulation.length →
    search.state.numEmptyIters + 1 < settings.numEmptyItersBeforeEarlyStop →
    ∃ sch ∈ round.draws (search.state.maxTrials - search.state.st),
      has settings.equality search.state.measuredWorkloads ⟨sch.mod, settings.equality.hash sch.mod⟩ = false

theorem pickLoop_eq_nil {equality : ModuleEquality M} {numBests : Int} {left : Nat} {i : Int}
    {bests rands : List (Schedule M)} {measured : List (Workload M)}
    (none : (pickLoop equality numBests left i bests rands measured).1 = []) :
    ∀ sch ∈ drawn numBests left i bests rands, has equality measured ⟨sch.mod, equality.hash sch.mod⟩ = true := by
  induction left generalizing i bests rands with
  | zero => simp [drawn]
  | succ left ih =>
    rw [drawn]
    rw [pickLoop] at none
    split at none
    · simp
    next sch bests rands next =>
      dsimp only at none
      split at none
      next old => simpa [next, old] using ih none
      · cases none

theorem State.send_spec (settings : Settings M) (picks : List (Schedule M)) (state : State M) :
    ∃ answer empties, state.send settings picks =
        (answer, { state with numEmptyIters := empties }) ∧ ∀ batch, answer = some batch → batch = picks := by
  unfold State.send
  split
  next none =>
    dsimp only
    split
    · exact ⟨_, _, rfl, by simp⟩
    · exact ⟨_, _, rfl, by simp⟩
  · exact ⟨some picks, state.numEmptyIters, rfl, by simp⟩

theorem State.window_eq (state : State M) :
    state.window = (if state.maxTrials < state.ed then state.maxTrials - state.st
      else state.numTrialsPerIter, { state with ed := min state.ed state.maxTrials }) := by
  unfold State.window
  split
  next clip => rw [min_eq_right clip.le]
  next whole => rw [min_eq_left (not_lt.1 whole)]

theorem State.generate_spec (settings : Settings M) (round : Round M) {state clipped : State M}
    {num : Int} (more : state.st < state.maxTrials) (window : state.window = (num, clipped))
    (ahead : clipped.st < clipped.ed) (positive : 0 < num) :
    ∃ answer empties measured, state.generateMeasureCandidates settings round =
        .ok (answer, { clipped with numEmptyIters := empties, measuredWorkloads := measured }) ∧
      ∀ batch, answer = some batch → batch.length ≤ num := by
  simp only [State.generateMeasureCandidates, not_le.2 more, if_false, window, ahead, positive]
  split
  · exact ⟨none, clipped.numEmptyIters, clipped.measuredWorkloads, rfl, by simp⟩
  · generalize round.evolveWithCostModel _ num = bests
    have size := pickWithEpsGreedy_length_le settings.equality round round.sampleInitPopulation
      bests positive clipped.measuredWorkloads
    generalize pickWithEpsGreedy settings.equality round round.sampleInitPopulation bests num
      clipped.measuredWorkloads = picked at *
    obtain ⟨picks, measured⟩ := picked
    obtain ⟨answer, empties, sent, only⟩ := State.send_spec settings picks
      { clipped with measuredWorkloads := measured }
    exact ⟨answer, empties, measured, congrArg Except.ok sent, fun batch same => only batch same ▸ size⟩

section

variable {settings : Settings M} {search : Search M} {round : Round M} {state : State M}

theorem Search.Refills.whole_of_empty (refills : search.Refills settings round)
    (called : search.state.generateMeasureCandidates settings round = .ok (some [], state)) :
    search.state.ed ≤ search.state.maxTrials := by
  by_contra clip
  rw [not_le] at clip
  simp only [State.generateMeasureCandidates, State.window, if_pos clip] at called
  split_ifs at called with done few
  · cases called
  · simp at called
  · simp only [bind_ok, ensure_ok, pure_ok, exists_const, State.send] at called
    obtain ⟨-, -, sent⟩ := called
    split_ifs at sent with none stop
    · cases sent
    · obtain ⟨sch, drawn, new⟩ := refills (not_le.1 done) clip (not_lt.1 few) (not_le.1 stop)
      exact Bool.false_ne_true (new.symm.trans (pickLoop_eq_nil none sch drawn))
    · exact none (Option.some.inj (congrArg Prod.fst sent))

theorem Search.next_none (running : search.finished = false)
    (called : search.state.generateMeasureCandidates settings round = .ok (none, state)) :
    search.next settings round = .ok { search with state, finished := true } := by
  simp [Search.next, running, called]

theorem Search.next_some (running : search.finished = false) {batch : List (Schedule M)}
    (called : search.state.generateMeasureCandidates settings round = .ok (some batch, state)) :
    search.next settings round = .ok { search with
      state := state.notifyRunnerResults batch.length, total := search.total + batch.length } := by
  simp [Search.next, running, called]

end

theorem Search.Within.next {search : Search M} {maxTrials numTrialsPerIter : Int}
    (within : search.Within maxTrials numTrialsPerIter) (positive : 0 < maxTrials → 0 < numTrialsPerIter)
    (fits : maxTrials + numTrialsPerIter < 2 ^ 31) {settings : Settings M} {round : Round M}
    (refills : search.Refills settings round) :
    ∃ after, search.next settings round = .ok after ∧ after.Within maxTrials numTrialsPerIter := by
  by_cases done : search.finished
  · exact ⟨search, by simp [Search.next, done], within⟩
  · rw [Bool.not_eq_true] at done
    obtain ⟨max, perIter, budget, st, ed, full⟩ := within
    replace st := st done
    replace ed := ed done
    replace full := full done
    by_cases more : search.state.st < search.state.maxTrials
    · have window := search.state.window_eq
      generalize sample : (if search.state.maxTrials < search.state.ed then
        search.state.maxTrials - search.state.st else search.state.numTrialsPerIter) = num at window
      have size : 0 < num ∧ search.total + num ≤ maxTrials := by split at sample <;> omega
      have ahead : search.state.st < min search.state.ed search.state.maxTrials := by omega
      obtain ⟨answer, empties, measured, called, short⟩ :=
        State.generate_spec settings round more window ahead size.1
      cases answer with
      | none =>
        exact ⟨_, Search.next_none done called, max, perIter, budget, by simp, by simp, by simp⟩
      | some batch =>
        replace short := short batch rfl
        have clipped : batch.length = 0 → search.state.ed ≤ search.state.maxTrials := by
          intro empty
          rw [List.length_eq_zero_iff.1 empty] at called
          exact refills.whole_of_empty called
        have first : (search.state.st + batch.length).bmod (2 ^ 32) =
            search.state.st + batch.length := bmod32_of_fits (by omega) (by omega)
        have last : (min search.state.ed search.state.maxTrials + batch.length).bmod (2 ^ 32) =
            min search.state.ed search.state.maxTrials + batch.length :=
          bmod32_of_fits (by omega) (by omega)
        refine ⟨_, Search.next_some done called, max, perIter, ?_, fun _ => ?_, fun _ => ?_,
          fun _ => ?_⟩ <;> simp only [State.notifyRunnerResults, first, last] <;> push_cast <;> omega
    · have stopped : search.state.maxTrials ≤ search.state.st := not_lt.1 more
      exact ⟨{ search with finished := true },
        by simp [Search.next, done, State.generateMeasureCandidates, stopped],
        max, perIter, budget, by simp, by simp, by simp⟩

theorem run_within_budget (settings : Settings M) {maxTrials numTrialsPerIter : Int}
    (nonneg : 0 ≤ maxTrials) (positive : 0 < maxTrials → 0 < numTrialsPerIter)
    (fits : maxTrials + numTrialsPerIter < 2 ^ 31) (rounds : List (Round M))
    (refills : Along (Search.Refills settings) (Search.next settings) rounds
      (.start maxTrials numTrialsPerIter)) :
    ∃ search, run settings maxTrials numTrialsPerIter rounds = .ok search ∧
      search.total ≤ maxTrials := by
  have start : (Search.start maxTrials numTrialsPerIter : Search M).Within maxTrials
      numTrialsPerIter :=
    ⟨rfl, rfl, nonneg, fun _ => rfl, fun _ => by simp [Search.start, State.create],
      fun _ _ => by simp [Search.start, State.create]⟩
  have step : ∀ {search : Search M} {round : Round M}, search.Within maxTrials numTrialsPerIter →
      search.Refills settings round → ∃ after, search.next settings round = .ok after ∧
        after.Within maxTrials numTrialsPerIter :=
    fun within refills => within.next positive fits refills
  obtain ⟨search, done, within⟩ := foldlM_along step start refills
  exact ⟨search, done, within.budget⟩

def sampleSettings : Settings Nat :=
  ⟨⟨fun a b => a = b, fun _ => 0, fun _ => rfl⟩, 1, 5⟩

def sampleRound (ids : List Nat) : Round Nat where
  pickBestFromDatabase := []
  sampleInitPopulation := ids.map fun id => ⟨id, id⟩
  evolveWithCostModel := fun _ _ => []
  numRands := fun _ => 0
  rands := id

theorem run_within_budget_clipped :
    ∃ search, run sampleSettings 3 2 [sampleRound [0, 1], sampleRound [2, 3]] = .ok search ∧
      (search.total : Int) ≤ 3 := by
  refine run_within_budget sampleSettings (by decide) (by decide) (by decide) _ ⟨?_, ?_⟩
  · exact fun _ clip => absurd clip (by decide)
  · intro search called
    cases called
    refine ⟨fun _ _ _ _ => ?_, fun _ _ => trivial⟩
    exact ⟨⟨2, 2⟩, .head _, by decide⟩

-- A window that was clipped and gave an empty batch is not clipped again.
theorem budget_exceeded :
    ((run sampleSettings 3 2 [sampleRound [0, 1], sampleRound [0], sampleRound [2, 3]]).toOption.map
      Search.total) = some 4 := by
  decide

end Tlm.MetaSchedule.EvolutionarySearch
