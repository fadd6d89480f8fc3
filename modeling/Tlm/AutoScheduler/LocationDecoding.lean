import Tlm.AutoScheduler.ComputeLocation

set_option autoImplicit false

namespace Tlm.AutoScheduler

open Cpp

section

variable {policy : SketchPolicy} {s s' : State} {rand rand' : RandGen} {stageId : Nat}
  {stage : Stage}

theorem changeLocation_cases (run : changeLocation policy (s, rand) stageId = .ok (s', rand')) :
    ∃ stage, s.stages[stageId]? = some stage ∧
      (skipsLocation policy s stage = .ok true ∧ s' = s ∨
        skipsLocation policy s stage = .ok false ∧
          ∃ candidates, getComputeLocationCandidates policy.searchTask s stage = .ok candidates ∧
            applyChoice candidates stageId stage s ((draw rand).1 % (candidates.length + 2)) = .ok s') := by
  simp only [changeLocation, bind_ok, found_ok] at run
  obtain ⟨stage, present, skips, asked, run⟩ := run
  refine ⟨stage, present, ?_⟩
  cases skips with
  | true =>
    simp only [if_true, pure_ok, Prod.mk.injEq] at run
    exact .inl ⟨asked, run.1.symm⟩
  | false =>
    simp only [Bool.false_eq_true, if_false, bind_ok] at run
    obtain ⟨candidates, listed, _, chosen, rfl, -⟩ := run
    exact .inr ⟨asked, candidates, listed, chosen⟩

theorem decodeLocation_skip (present : s.stages[stageId]? = some stage)
    (skips : skipsLocation policy s stage = .ok true) (tokens : List String) :
    decodeLocation policy (s, tokens) stageId = .ok (s, tokens) := by
  simp [decodeLocation, present, skips]

variable {tokens : List String}

theorem decodeLocation_read (present : s.stages[stageId]? = some stage)
    (eligible : skipsLocation policy s stage = .ok false) {id : Int32} (same : id.toInt = stageId)
    {stepname : String} {rest : List String}
    (read : decodeChange policy stepname stageId stage s tokens = .ok (s', rest)) :
    decodeLocation policy (s, stepname :: id.toInt.repr :: tokens) stageId = .ok (s', rest) := by
  simp only [decodeLocation, bind_ok, outside_ok, found_ok]
  refine ⟨stage, present, false, eligible, ?_⟩
  simp only [Bool.false_eq_true, if_false, bind_ok, raise_ok]
  refine ⟨id, ⟨_, rfl, stoi_repr id⟩, (), by simp [same], ?_⟩
  rw [if_neg (by omega)]
  exact bind_ok.mpr ⟨(stepname, id.toInt.repr :: tokens), rfl, read⟩

theorem inlineAttached_ok (run : inlineAttached stageId stage s = .ok s') :
    (s.computeInline stageId = .ok s' ∧
        hasReduceIter stage = false ∧ (s.attachMap.stageToAttachIter stageId).isSome) ∨
      s' = s ∧ ¬(hasReduceIter stage = false ∧ (s.attachMap.stageToAttachIter stageId).isSome) := by
  unfold inlineAttached at run
  split at run
  · rename_i allowed
    exact .inl ⟨run, by simpa using allowed⟩
  · rename_i refused
    cases run
    exact .inr ⟨rfl, by simpa using refused⟩

variable {candidates : List (Nat × Nat)}

theorem findCandidate_of_mem {target iter : Nat} (member : (target, iter) ∈ candidates)
    {first second : Int32} (sameTarget : first.toInt = target) (sameIter : second.toInt = iter) :
    findCandidate candidates first second = some (target, iter) := by
  cases search : findCandidate candidates first second with
  | none =>
    have missed := List.find?_eq_none.mp search (target, iter) member
    exact absurd missed (by simp [sameTarget, sameIter])
  | some other =>
    have hit := List.find?_some search
    simp only [decide_eq_true_eq] at hit
    exact congrArg some (Prod.ext (by omega) (by omega))

theorem decodeChange_moveTo {candidate : Nat × Nat}
    (listed : getComputeLocationCandidates policy.searchTask s stage = .ok candidates)
    (member : candidate ∈ candidates) (run : moveTo stageId candidate s = .ok s') :
    ∃ id targetId iterId : Int32, id.toInt = stageId ∧
      s'.transformSteps = s.transformSteps ++ [.computeAt id targetId iterId] ∧
      s'.stages.length = s.stages.length ∧
      ∀ rest, decodeChange policy "CA" stageId stage s
        (targetId.toInt.repr :: iterId.toInt.repr :: rest) = .ok (s', rest) := by
  simp only [moveTo, bind_ok, found_ok] at run
  obtain ⟨target, present, iter, inside, run⟩ := run
  obtain ⟨_, index, id, targetId, iterId, present', located, same, sameTarget, sameIter, steps, size⟩ :=
    computeAt_ok run
  obtain rfl : target = _ := by simpa [present] using present'
  have first := getComputeLocationCandidates_firsts listed member present inside located
  have again : target.iters[index]? = some iter := (getIndex_ok.mp located).1
  have picked := findCandidate_of_mem first sameTarget sameIter
  refine ⟨id, targetId, iterId, same, steps, size, fun rest => ?_⟩
  simp [decodeChange, listed, picked, moveTo, present, again, run]

theorem applyChoice_read {choice : Nat}
    (listed : getComputeLocationCandidates policy.searchTask s stage = .ok candidates)
    (chosen : applyChoice candidates stageId stage s choice = .ok s') :
    (s' = s ∧ choice = 0 ∧
      ¬(hasReduceIter stage = false ∧ (s.attachMap.stageToAttachIter stageId).isSome)) ∨
    ∃ (step : Step) (stepname : String) (id : Int32) (args : List String),
      s'.transformSteps = s.transformSteps ++ [step] ∧ s'.stages.length = s.stages.length ∧
      step.tokens = stepname :: id.toInt.repr :: args ∧ id.toInt = stageId ∧
      (choice = 0 → hasReduceIter stage = false ∧ (s.attachMap.stageToAttachIter stageId).isSome) ∧
      ∀ rest, decodeChange policy stepname stageId stage s (args ++ rest) = .ok (s', rest) := by
  rcases choice with _ | _ | choice
  · obtain ⟨inlined, allowed⟩ | ⟨rfl, refused⟩ := inlineAttached_ok chosen
    · obtain ⟨id, same, steps, size⟩ := computeInline_ok inlined
      refine .inr ⟨_, _, id, [], steps, size, Step.tokens_computeInline id, same, fun _ => allowed, ?_⟩
      intro rest
      simpa [decodeChange, applyChoice] using chosen
    · exact .inl ⟨rfl, rfl, refused⟩
  · obtain ⟨id, same, steps, size⟩ := computeRoot_ok chosen
    refine .inr ⟨_, _, id, [], steps, size, Step.tokens_computeRoot id, same, by simp, ?_⟩
    intro rest
    simpa [decodeChange, applyChoice] using chosen
  · simp only [applyChoice, bind_ok, found_ok] at chosen
    obtain ⟨candidate, member, moved⟩ := chosen
    obtain ⟨id, targetId, iterId, same, steps, size, read⟩ :=
      decodeChange_moveTo listed (List.mem_of_getElem? member) moved
    exact .inr ⟨_, _, id, _, steps, size, Step.tokens_computeAt id targetId iterId, same, by simp, read⟩

def WritesStep (policy : SketchPolicy) (st : State × RandGen) (stageId : Nat) : Prop :=
  ∀ stage candidates, st.1.stages[stageId]? = some stage →
    skipsLocation policy st.1 stage = .ok false →
    getComputeLocationCandidates policy.searchTask st.1 stage = .ok candidates →
    (draw st.2).1 % (candidates.length + 2) = 0 →
    hasReduceIter stage = false ∧ (st.1.attachMap.stageToAttachIter stageId).isSome

def Below (stageId : Nat) (tokens : List String) : Prop :=
  tokens = [] ∨ ∃ (stepname : String) (id : Int32) (rest : List String),
    tokens = stepname :: id.toInt.repr :: rest ∧ id.toInt < stageId

theorem decodeLocation_left (present : s.stages[stageId]? = some stage)
    (eligible : skipsLocation policy s stage = .ok false) (below : Below stageId tokens) :
    ∃ stop, decodeLocation policy (s, tokens) stageId = .error stop ∧ stop.caught = true := by
  rcases below with rfl | ⟨stepname, id, rest, rfl, earlier⟩
  · refine ⟨.fault .outOfRange, ?_, rfl⟩
    simp [decodeLocation, present, eligible, found, bind, Except.bind]
  · refine ⟨.leave, ?_, rfl⟩
    have refused : ¬(stageId : Int) ≤ id.toInt := by omega
    simp [decodeLocation, present, eligible, found, bind, Except.bind, leaveUnless, refused]

theorem Below.append {a b c : Nat} {left right : List String} (first : Below a left)
    (second : Below b right) (lowA : a ≤ c) (lowB : b ≤ c) : Below c (left ++ right) := by
  rcases first with rfl | ⟨stepname, id, rest, rfl, earlier⟩
  · rcases second with rfl | ⟨stepname, id, rest, rfl, earlier⟩
    · exact .inl rfl
    · exact .inr ⟨stepname, id, rest, rfl, by omega⟩
  · exact .inr ⟨stepname, id, rest ++ right, rfl, by omega⟩

theorem changeLocation_round (run : changeLocation policy (s, rand) stageId = .ok (s', rand')) :
    s'.stages.length = s.stages.length ∧ ∃ out, Appends s s' out ∧ Below (stageId + 1) out ∧
      (WritesStep policy (s, rand) stageId →
        ∀ rest, decodeLocation policy (s, out ++ rest) stageId = .ok (s', rest)) ∧
      (¬WritesStep policy (s, rand) stageId → s' = s ∧ ∀ tokens, Below stageId tokens →
        ∃ stop, decodeLocation policy (s, tokens) stageId = .error stop ∧ stop.caught = true) := by
  obtain ⟨stage, present, ⟨skips, rfl⟩ | ⟨eligible, candidates, listed, chosen⟩⟩ :=
    changeLocation_cases run
  · have writes : WritesStep policy (s', rand) stageId := by
      intro other _ present' eligible
      obtain rfl : stage = other := by simpa [present] using present'
      simp [skips] at eligible
    exact ⟨rfl, [], .still s', .inl rfl, fun _ => decodeLocation_skip present skips,
      fun gap => absurd writes gap⟩
  · have asked : WritesStep policy (s, rand) stageId ↔ ((draw rand).1 % (candidates.length + 2) = 0 →
          hasReduceIter stage = false ∧ (s.attachMap.stageToAttachIter stageId).isSome) := by
      constructor
      · intro writes
        exact writes stage candidates present eligible listed
      · intro allowed other candidates' present' _ listed'
        obtain rfl : stage = other := by simpa [present] using present'
        obtain rfl : candidates = candidates' := by simpa [listed] using listed'
        exact allowed
    obtain ⟨rfl, zero, refused⟩ |
      ⟨step, stepname, id, args, steps, size, tokens, same, allowed, read⟩ :=
        applyChoice_read listed chosen
    · have gap : ¬WritesStep policy (s', rand) stageId := fun writes =>
        refused (asked.mp writes zero)
      exact ⟨rfl, [], .still s', .inl rfl, fun writes => absurd writes gap,
        fun _ => ⟨rfl, fun _ below => decodeLocation_left present eligible below⟩⟩
    · have written : recordTokens [step] = stepname :: id.toInt.repr :: args := by
        simp [tokens]
      refine ⟨size, _, ⟨[step], steps, rfl⟩, ?_, fun _ rest => ?_, fun gap => ?_⟩
      · exact .inr ⟨stepname, id, args, written, by omega⟩
      · rw [written]
        exact decodeLocation_read present eligible same (read rest)
      · exact absurd (asked.mpr allowed) gap

end

section

variable {policy : SketchPolicy}

variable {is : List Nat}

theorem changeLocations_appends {s s' : State} {rand rand' : RandGen} (run : is.foldlM
    (changeLocation policy) (s, rand) = .ok (s', rand')) :
    s'.stages.length = s.stages.length ∧
      ∃ out, Appends s s' out ∧ ∀ bound, (∀ i ∈ is, i < bound) → Below bound out := by
  induction is generalizing s s' rand rand' with
  | nil =>
    cases run
    exact ⟨rfl, [], .still s, fun _ _ => .inl rfl⟩
  | cons i is ih =>
    simp only [List.foldlM_cons, bind_ok, Prod.exists] at run
    obtain ⟨middle, rand₁, first, later⟩ := run
    obtain ⟨size, out, appends, below, -⟩ := changeLocation_round first
    obtain ⟨size', out', appends', below'⟩ := ih later
    refine ⟨size'.trans size, out ++ out', appends.chain appends', fun bound low => ?_⟩
    have head := low i (by simp)
    exact below.append (below' bound fun j member => low j (List.mem_cons_of_mem _ member)) head le_rfl

-- A stage left out stops the decoder: what follows is of earlier stages.
theorem changeLocations_left {s s' : State} {rand rand' : RandGen} (descending : is.Pairwise
    (· > ·)) (run : is.foldlM (changeLocation policy) (s, rand) = .ok (s', rand')) (gap : ¬Along
    (WritesStep policy) (changeLocation policy) is (s, rand)) :
    ∃ out stop, Appends s s' out ∧
        is.foldlM (decodeLocation policy) (s, out) = .error stop ∧ stop.caught = true := by
  induction is generalizing s s' rand rand' with
  | nil =>
    exact absurd trivial gap
  | cons i is ih =>
    rw [List.pairwise_cons] at descending
    simp only [List.foldlM_cons, bind_ok, Prod.exists] at run
    obtain ⟨middle, rand₁, first, later⟩ := run
    obtain ⟨-, out, appends, -, read, left⟩ := changeLocation_round first
    by_cases writes : WritesStep policy (s, rand) i
    · have rest : ¬Along (WritesStep policy) (changeLocation policy) is (middle, rand₁) := by
        intro along
        refine gap ⟨writes, fun next same => ?_⟩
        obtain rfl : (middle, rand₁) = next := by simpa [first] using same
        exact along
      obtain ⟨out', stop, appends', failed, caught⟩ := ih descending.2 later rest
      refine ⟨out ++ out', stop, appends.chain appends', ?_, caught⟩
      rw [List.foldlM_cons, read writes out']
      exact failed
    · obtain ⟨rfl, gives⟩ := left writes
      obtain ⟨-, out', appends', below⟩ := changeLocations_appends later
      obtain ⟨stop, failed, caught⟩ := gives out' (below i descending.1)
      refine ⟨out', stop, appends', ?_, caught⟩
      rw [List.foldlM_cons, failed]
      rfl

theorem changeLocations_read {s s' : State} {rand rand' : RandGen} (along : Along
    (WritesStep policy) (changeLocation policy) is (s, rand)) (run : is.foldlM
    (changeLocation policy) (s, rand) = .ok (s', rand')) :
    ∃ out, Appends s s' out ∧ ∀ rest, is.foldlM (decodeLocation policy) (s, out ++ rest) = .ok (s', rest) := by
  refine foldlM_lockstep Appends.still Appends.chain ?_ along run
  intro i s rand s' rand' writes round
  obtain ⟨-, out, appends, -, read, -⟩ := changeLocation_round round
  exact ⟨out, appends, read writes⟩

end

theorem stagesDescending_pairwise (s : State) : (stagesDescending s).Pairwise (· > ·) :=
  List.pairwise_reverse.mpr List.pairwise_lt_range

theorem inferBound_appended {te : Te} {policy : SketchPolicy} {start walked s' : State} {rand rand' : RandGen}
    (walk : (stagesDescending start).foldlM (changeLocation policy) (start, rand) = .ok (walked, rand'))
    (bounded : inferBound te policy.searchTask.computeDag walked = .ok s') :
    s'.transformSteps.drop start.transformSteps.length =
      walked.transformSteps.drop start.transformSteps.length := by
  by_cases staged : start.stages = []
  · have still : walked = start := by
      simp only [stagesDescending, staged, List.length_nil, List.range_zero, List.reverse_nil,
        List.foldlM_nil, pure_ok, Prod.mk.injEq] at walk
      exact walk.1.symm
    have size := inferBound_length bounded
    rw [List.drop_eq_nil_of_le (by rw [size, still]), List.drop_eq_nil_of_le (by rw [still])]
  · have staged' : walked.stages ≠ [] := by
      have size := (changeLocations_appends walk).1
      intro empty
      rw [empty, List.length_nil] at size
      exact staged (List.length_eq_zero_iff.mp size.symm)
    rw [inferBound_history staged' bounded]

theorem initChangeComputeLocation_decoded (te : Te) (policy : SketchPolicy) (s s' : State)
    (rand rand' : RandGen)
    (run : initChangeComputeLocation te policy s rand = .ok (some s', rand')) :
    (∃ t, initChangeComputeLocationTokens te policy [s]
        (fun _ _ => [recordTokens (s'.transformSteps.drop (s.transformSteps.length + 1))]) =
          .ok [t] ∧ t.transformSteps = s'.transformSteps) ↔
      policy.disableChangeComputeLocation ≠ 0 ∨
        ∃ start genLen, promptLocation policy s = .ok (start, genLen) ∧
          Along (WritesStep policy) (changeLocation policy) (stagesDescending start)
            (start, rand) := by
  by_cases disabled : policy.disableChangeComputeLocation ≠ 0
  · simp only [initChangeComputeLocation, if_pos disabled] at run
    obtain ⟨rfl, -⟩ := run
    exact iff_of_true ⟨s, by simp [initChangeComputeLocationTokens, disabled], rfl⟩ (.inl disabled)
  · simp only [initChangeComputeLocation, if_neg disabled, bind_ok, Prod.exists] at run
    obtain ⟨stageIds, listed, start, prepared, walked, _, walk, bounded?, bound, rfl, -⟩ := run
    have bounded : inferBound te policy.searchTask.computeDag walked = .ok s' := by
      simpa using bound
    have prompted : promptLocation policy s = .ok (start, 4 * stageIds.length) := by
      simp [promptLocation, listed, prepared]
    have size : start.transformSteps.length = s.transformSteps.length + 1 := by
      simp only [State.computeLocationStart, bind_ok, pure_ok] at prepared
      obtain ⟨_, _, rfl⟩ := prepared
      exact s.push_length _
    have tokens := congrArg recordTokens (inferBound_appended walk bounded)
    rw [size] at tokens
    rw [tokens, ← size, initChangeComputeLocationTokens, if_neg disabled, or_iff_right disabled]
    simp only [tokenRule_single, prompted, Except.ok.injEq, Prod.mk.injEq]
    constructor
    · rintro ⟨t, ⟨_, _, decoded, ⟨rfl, rfl⟩, read, kept⟩, -⟩
      refine ⟨start, _, ⟨rfl, rfl⟩, ?_⟩
      by_contra gap
      obtain ⟨out, stop, appends, failed, caught⟩ :=
        changeLocations_left (stagesDescending_pairwise start) walk gap
      rw [appends.tokens_eq, decodeLocations, failed, guarded_of_caught caught] at read
      cases read
      cases kept
    · rintro ⟨_, _, ⟨rfl, rfl⟩, along⟩
      obtain ⟨out, appends, read⟩ := changeLocations_read along walk
      have whole := read []
      rw [List.append_nil] at whole
      refine ⟨s', ⟨start, _, some s', ⟨rfl, rfl⟩, ?_, rfl⟩, rfl⟩
      rw [appends.tokens_eq, decodeLocations, whole]
      simp [guarded, bounded]

def chainOp (obj : Nat) : Operation :=
  ⟨obj, .compute [⟨"i", ⟨.imm 0, .imm 8⟩⟩] [], none⟩

def chainState : State :=
  ⟨(List.range 2).map fun n =>
      ⟨chainOp n, [⟨n, "i", some ⟨.imm 0, .imm 8⟩, .spatial, .none⟩], .compute, .root, 0, 0⟩,
    [], .empty, none, true⟩

def chainPolicy : SketchPolicy :=
  ⟨⟨⟨[chainOp 0, chainOp 1], fun op => if op = 0 then some [1] else some [], fun _ => some false⟩,
    .cpu⟩, 64, 16, 0⟩

def chainTe : Te :=
  ⟨fun dag _ => .ok dag, fun _ _ => .ok fun _ _ => some ⟨.imm 0, .imm 8⟩⟩

theorem initChangeComputeLocation_decoded_chain :
    ∃ s' rand', initChangeComputeLocation chainTe chainPolicy chainState (fun n => n + 1) =
      .ok (some s', rand') ∧
      ((∃ t, initChangeComputeLocationTokens chainTe chainPolicy [chainState]
          (fun _ _ => [recordTokens
            (s'.transformSteps.drop (chainState.transformSteps.length + 1))]) = .ok [t] ∧
          t.transformSteps = s'.transformSteps) ↔
        chainPolicy.disableChangeComputeLocation ≠ 0 ∨
          ∃ start genLen, promptLocation chainPolicy chainState = .ok (start, genLen) ∧
            Along (WritesStep chainPolicy) (changeLocation chainPolicy) (stagesDescending start)
              (start, fun n => n + 1)) :=
  ⟨_, _, rfl, initChangeComputeLocation_decoded _ _ _ _ _ _ rfl⟩

-- The second stage stays, the first is moved into it: its tokens come too early for the decoder.
theorem initChangeComputeLocation_gap_refused :
    ∃ s' rand', initChangeComputeLocation chainTe chainPolicy chainState (fun n => 2 * n) =
      .ok (some s', rand') ∧
      s'.transformSteps = [.computeLocationStart [1, 0], .computeAt 0 1 0] ∧
      initChangeComputeLocationTokens chainTe chainPolicy [chainState]
        (fun _ _ => [recordTokens
          (s'.transformSteps.drop (chainState.transformSteps.length + 1))]) = .ok [] :=
  ⟨_, _, rfl, rfl, rfl⟩

end Tlm.AutoScheduler
