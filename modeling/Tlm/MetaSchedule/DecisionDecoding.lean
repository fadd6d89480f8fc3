import Tlm.MetaSchedule.DecisionLayout

set_option autoImplicit false

namespace Tlm.MetaSchedule

open Cpp

def writeDecisions (decisions : Nat → Option Decision) : List Instruction → Trace → Trace
  | [], traceNew => traceNew
  | inst :: rest, traceNew =>
    match decisions inst.obj with
    | none => writeDecisions decisions rest traceNew
    | some decision => writeDecisions decisions rest (traceNew.withDecision inst decision true)

theorem nextLongs_tokens (values : List Int32) (rest : List String) :
    nextLongs values.length (values.map (fun value => toString value.toInt) ++ rest) = .ok (values, rest) := by
  induction values with
  | nil => rfl
  | cons value values ih =>
    simp only [List.length_cons, nextLongs, run_bind_ok, run_lift_ok, raise_ok, run_pure_ok, Prod.mk.injEq]
    exact ⟨_, _, rfl, _, _, ⟨_, stol_int32 value, rfl, rfl⟩, _, _, ih, by simp, rfl⟩

variable {recorded decision : Decision}

theorem nextDecision_tokens (shape : recorded.SameShape decision) (rest : List String) :
    nextDecision recorded (decision.tokens ++ rest) = .ok (decision, rest) := by
  match recorded, decision, shape with
  | .integer _, .integer value, _ =>
    simp [nextDecision, Decision.tokens]
  | .array recorded, .array values, shape =>
    have size : recorded.length = values.length := shape
    have read := nextLongs_tokens values rest
    simp only [nextDecision, run_bind_ok, run_pure_ok, Prod.mk.injEq, size]
    exact ⟨_, _, read, rfl, rfl⟩

variable {trace : Trace} {decisions : Nat → Option Decision} {insts : List Instruction}

theorem decodeDecisions_tokens
    (shapes : ∀ inst ∈ insts, Option.Rel Decision.SameShape (trace.getDecision inst) (decisions inst.obj))
    (i : Nat) (traceNew : Trace) (rest : List String) :
    decodeDecisions trace i insts traceNew (decisionTokens decisions i insts ++ rest) =
      .ok (writeDecisions decisions insts traceNew, rest) := by
  induction insts generalizing i traceNew with
  | nil => rfl
  | cons inst insts ih =>
    have later := ih fun inst member => shapes inst (List.mem_cons_of_mem _ member)
    have shape := shapes inst (by simp)
    unfold decodeDecisions decisionTokens writeDecisions
    cases recorded : trace.getDecision inst with
    | none =>
      rw [recorded] at shape
      cases decided : decisions inst.obj with
      | none => exact later (i + 1) traceNew
      | some => rw [decided] at shape; cases shape
    | some old =>
      rw [recorded] at shape
      cases decided : decisions inst.obj with
      | none => rw [decided] at shape; cases shape
      | some decision =>
        rw [decided] at shape
        obtain ⟨same⟩ := shape
        simp only [List.append_assoc, run_bind_ok, expectToken_ok]
        exact ⟨(), _, rfl, decision, _, nextDecision_tokens same _,
          later (i + 1) (traceNew.withDecision inst decision true)⟩

-- The first decision that is written cuts the postprocessing off.
def Trace.keptInsts (decisions : Nat → Option Decision) (trace : Trace) : List Instruction :=
  if trace.insts.any fun inst => (decisions inst.obj).isSome then trace.validInsts else trace.insts

theorem validInsts_idem (trace : Trace) (decisions : Nat → Option Decision) :
    Trace.validInsts ⟨trace.validInsts, decisions⟩ = trace.validInsts := by
  simp [Trace.validInsts, List.takeWhile_takeWhile]

theorem writeDecisions_insts (decisions : Nat → Option Decision) (insts : List Instruction) (traceNew : Trace) :
    (writeDecisions decisions insts traceNew).insts =
      if insts.any fun inst => (decisions inst.obj).isSome then traceNew.validInsts else traceNew.insts := by
  induction insts generalizing traceNew with
  | nil => rfl
  | cons inst rest ih =>
    unfold writeDecisions
    cases decided : decisions inst.obj with
    | none => simp [ih, decided]
    | some decision => simp [ih, decided, Trace.withDecision, validInsts_idem]

theorem writeDecisions_validInsts (decisions : Nat → Option Decision) (trace : Trace) :
    (writeDecisions decisions trace.insts trace).validInsts = trace.validInsts := by
  have kept := writeDecisions_insts decisions trace.insts trace
  unfold Trace.validInsts at kept ⊢
  rw [kept]
  split
  · simp [List.takeWhile_takeWhile]
  · rfl

variable {obj : Nat}

theorem writeDecisions_other (undecided : decisions obj = none) (insts : List Instruction) (traceNew : Trace) :
    (writeDecisions decisions insts traceNew).decisions obj = traceNew.decisions obj := by
  induction insts generalizing traceNew with
  | nil => rfl
  | cons inst rest ih =>
    unfold writeDecisions
    cases decided : decisions inst.obj with
    | none => exact ih traceNew
    | some decision =>
      have apart : obj ≠ inst.obj := by
        rintro rfl
        rw [decided] at undecided
        cases undecided
      exact (ih _).trans (Function.update_of_ne apart _ _)

theorem writeDecisions_kept (insts : List Instruction) (traceNew : Trace)
    (written : traceNew.decisions obj = decisions obj) :
    (writeDecisions decisions insts traceNew).decisions obj = decisions obj := by
  induction insts generalizing traceNew with
  | nil => exact written
  | cons inst rest ih =>
    unfold writeDecisions
    cases decided : decisions inst.obj with
    | none => exact ih traceNew written
    | some decision =>
      apply ih
      by_cases same : obj = inst.obj
      · rw [same, decided]
        exact Function.update_self ..
      · exact (Function.update_of_ne same _ _).trans written

variable {inst : Instruction}

theorem writeDecisions_decided (member : inst ∈ insts) (decided : (decisions inst.obj).isSome)
    (traceNew : Trace) : (writeDecisions decisions insts traceNew).decisions inst.obj = decisions inst.obj := by
  induction insts generalizing traceNew with
  | nil => cases member
  | cons head rest ih =>
    rcases List.mem_cons.mp member with rfl | later
    · obtain ⟨decision, here⟩ := Option.isSome_iff_exists.mp decided
      unfold writeDecisions
      simp only [here]
      rw [writeDecisions_kept, here]
      rw [here]
      exact Function.update_self ..
    · unfold writeDecisions
      split
      · exact ih later traceNew
      · exact ih later _

theorem writeDecisions_decisions (shapes : SameShapes trace decisions) (member : inst ∈ trace.insts) :
    (writeDecisions decisions trace.insts trace).decisions inst.obj = decisions inst.obj := by
  cases decided : decisions inst.obj with
  | none =>
    have shape := shapes inst member
    rw [decided] at shape
    rw [writeDecisions_other decided]
    cases recorded : trace.getDecision inst with
    | none => exact recorded
    | some => rw [recorded] at shape; cases shape
  | some decision =>
    rw [writeDecisions_decided member (by simp [decided]), decided]

theorem writeDecisions_schedulable (shapes : SameShapes trace decisions) :
    (writeDecisions decisions trace.insts trace).schedulable = Trace.schedulable ⟨trace.insts, decisions⟩ := by
  rw [Trace.schedulable, writeDecisions_validInsts]
  apply List.map_congr_left
  intro inst valid
  have member : inst ∈ trace.insts := (List.takeWhile_sublist _).subset valid
  rw [Trace.getDecision, writeDecisions_decisions shapes member]
  rfl

variable {tokens : List String}

theorem assembleExtents_some (candidates : List Candidate) (tokenIdx : Nat) (tmpTrace : Trace) :
    (∃ result, assembleExtents decisions tokens candidates tokenIdx tmpTrace = some result) ↔
      ∀ k < candidates.length, ReadsNumber tokens (tokenIdx + 4 * k) := by
  induction candidates generalizing tokenIdx tmpTrace with
  | nil => simp [assembleExtents]
  | cons candidate rest ih =>
    rw [List.length_cons, Nat.forall_lt_succ_left]
    have shift : ∀ k, tokenIdx + 4 * (k + 1) = tokenIdx + 4 + 4 * k := fun k => by omega
    simp only [shift, Nat.mul_zero, Nat.add_zero]
    unfold assembleExtents
    cases read : found Fault.outOfRange tokens[tokenIdx]? >>= stol with
    | error => simp [ReadsNumber, read]
    | ok limit =>
      have here : ReadsNumber tokens tokenIdx := ⟨limit, read⟩
      simp only [here, true_and]
      exact ih (tokenIdx + 4) _

-- Every parallel annotation has an integer value and is on a block that a `GetBlock` gives.
def ParallelOnBlocks (insts : List Instruction) : Prop :=
  ∀ inst ∈ insts, ∀ blockOrLoop annVal, inst.parallel? = some (blockOrLoop, annVal) →
    blockOrLoop.kind = .block ∧ (getBlockInst insts blockOrLoop.obj).isSome ∧
      ∃ extent, annVal = .int extent

theorem parallelCandidate_ok {blockOrLoop : RV} {annVal : Input} :
    (∃ candidate, parallelCandidate insts inst blockOrLoop annVal = .ok candidate) ↔
      blockOrLoop.kind = .block ∧ (getBlockInst insts blockOrLoop.obj).isSome ∧
        ∃ extent, annVal = .int extent := by
  constructor
  · rintro ⟨candidate, run⟩
    simp only [parallelCandidate, bind_ok, ensure_ok, decide_eq_true_eq, found_ok, Prod.exists] at run
    obtain ⟨-, onBlock, blockName, funcName, known, run⟩ := run
    refine ⟨onBlock, by simp [known], ?_⟩
    cases annVal with
    | int value => exact ⟨value, rfl⟩
    | _ => exact absurd run throw_ok
  · rintro ⟨onBlock, known, extent, rfl⟩
    obtain ⟨⟨blockName, funcName⟩, known⟩ := Option.isSome_iff_exists.mp known
    simp [parallelCandidate, onBlock, known]

theorem instCandidates_ok :
    (∃ candidates, instCandidates insts inst = .ok candidates) ↔
      ∀ blockOrLoop annVal, inst.parallel? = some (blockOrLoop, annVal) →
        blockOrLoop.kind = .block ∧ (getBlockInst insts blockOrLoop.obj).isSome ∧
          ∃ extent, annVal = .int extent := by
  unfold instCandidates
  cases inst.parallel? with
  | none => simp
  | some parts =>
    obtain ⟨blockOrLoop, annVal⟩ := parts
    have single := @parallelCandidate_ok insts inst blockOrLoop annVal
    simp only [bind_ok, pure_ok, Option.some.injEq, Prod.mk.injEq]
    constructor
    · rintro ⟨_, candidate, run, rfl⟩ _ _ ⟨rfl, rfl⟩
      exact single.mp ⟨candidate, run⟩
    · intro onBlock
      obtain ⟨candidate, run⟩ := single.mpr (onBlock _ _ ⟨rfl, rfl⟩)
      exact ⟨_, candidate, run, rfl⟩

theorem findAllParallelDecision_ok :
    (∃ candidates, findAllParallelDecision trace = .ok candidates) ↔ ParallelOnBlocks trace.insts := by
  rw [findAllParallelDecision, concatM_total]
  exact forall₂_congr fun inst _ => instCandidates_ok

variable {candidates : List Candidate}

theorem instCandidates_length (run : instCandidates insts inst = .ok candidates) :
    candidates.length = if inst.isAnnotateWithParallel then 1 else 0 := by
  unfold instCandidates at run
  unfold Instruction.isAnnotateWithParallel
  cases mark : inst.parallel? with
  | none =>
    rw [mark] at run
    cases run
    rfl
  | some parts =>
    simp only [mark, bind_ok, pure_ok] at run
    obtain ⟨candidate, -, rfl⟩ := run
    rfl

theorem findAllParallelDecision_length (run : findAllParallelDecision trace = .ok candidates) :
    candidates.length = (annotated trace.insts).length := by
  -- the blocks are looked up in the whole trace
  have scan : ∀ (insts : List Instruction) (candidates : List Candidate),
      concatM (instCandidates trace.insts) insts = .ok candidates →
      candidates.length = (annotated insts).length := by
    intro insts
    induction insts with
    | nil =>
      intro candidates run
      cases run
      rfl
    | cons inst rest ih =>
      intro candidates run
      simp only [concatM, bind_ok, pure_ok] at run
      obtain ⟨here, first, there, later, rfl⟩ := run
      rw [List.length_append, instCandidates_length first, ih there later, annotated, annotated,
        List.filter_cons]
      split
      · rw [List.length_cons, Nat.add_comm]
      · rw [Nat.zero_add]
  exact scan trace.insts candidates run

variable {replay : List (Instruction × Option Decision) → Except Fault Unit}

theorem applyDecision_of_candidates (listed : findAllParallelDecision trace = .ok candidates) :
    (∃ result, applyDecision replay trace tokens = .ok (some result)) ↔
      candidates = [] ∨ replay trace.schedulable = .ok () ∧
        ∀ k < candidates.length, ReadsNumber tokens (2 + 4 * k) := by
  rw [← @assembleExtents_some trace.decisions tokens candidates 2 trace]
  simp only [applyDecision, listed, bind_ok, Except.ok.injEq, exists_eq_left']
  cases candidates with
  | nil =>
    simp only [true_or, iff_true]
    exact ⟨trace, rfl⟩
  | cons candidate rest =>
    simp only [List.isEmpty_cons, if_false, bind_ok, pure_ok, reduceCtorEq, false_or]
    constructor
    · rintro ⟨result, ⟨⟩, replayed, assembled⟩
      exact ⟨replayed, result, assembled⟩
    · rintro ⟨replayed, result, assembled⟩
      exact ⟨result, (), replayed, assembled⟩

theorem parallelOnBlocks_of_annotated_nil (none : annotated insts = []) : ParallelOnBlocks insts := by
  intro inst member blockOrLoop annVal mark
  have listed : inst ∈ annotated insts :=
    List.mem_filter.mpr ⟨member, by simp [Instruction.isAnnotateWithParallel, mark]⟩
  rw [none] at listed
  cases listed

theorem applyDecision_some :
    (∃ result, applyDecision replay trace tokens = .ok (some result)) ↔
      annotated trace.insts = [] ∨
        ParallelOnBlocks trace.insts ∧ replay trace.schedulable = .ok () ∧
          ∀ k < (annotated trace.insts).length, ReadsNumber tokens (2 + 4 * k) := by
  by_cases onBlocks : ParallelOnBlocks trace.insts
  · obtain ⟨candidates, listed⟩ := findAllParallelDecision_ok.mpr onBlocks
    have count := findAllParallelDecision_length listed
    rw [applyDecision_of_candidates listed, ← List.length_eq_zero_iff, ← List.length_eq_zero_iff, count]
    simp only [onBlocks, true_and]
  · have refused : ¬∃ candidates, findAllParallelDecision trace = .ok candidates :=
      fun listed => onBlocks (findAllParallelDecision_ok.mp listed)
    constructor
    · rintro ⟨result, run⟩
      simp only [applyDecision, bind_ok] at run
      obtain ⟨candidates, listed, -⟩ := run
      exact absurd ⟨candidates, listed⟩ refused
    · rintro (none | ⟨found, -⟩)
      · exact absurd (parallelOnBlocks_of_annotated_nil none) onBlocks
      · exact absurd found onBlocks

-- The places where the extents are read, four apart from the third token of the whole list on, hold
-- numbers: decisions, or extents of labels that start at a multiple of four.
def ReadablePlaces (annotations decisionCount labels : Nat) : Prop :=
  ∀ k < annotations, 2 + 4 * k < decisionCount ∨
    4 ∣ decisionCount ∧ 2 + 4 * k < decisionCount + 4 * labels

theorem readsNumber_iff_readable {front : List String} {labels : List Label}
    (numbers : ∀ token ∈ front, IsNumber token) (shape : tokens = front ++ labels.flatMap Label.tokens)
    (annotations : Nat) :
    (∀ k < annotations, ReadsNumber tokens (2 + 4 * k)) ↔
      ReadablePlaces annotations front.length labels.length := by
  refine forall₂_congr fun k _ => ?_
  rw [shape, readsNumber_laid numbers]
  omega

def Accepted (replay : List (Instruction × Option Decision) → Except Fault Unit) (trace : Trace)
    (decisions : Nat → Option Decision) : Prop :=
  let kept := trace.keptInsts decisions
  annotated kept = [] ∨
    ParallelOnBlocks kept ∧ replay (Trace.schedulable ⟨trace.insts, decisions⟩) = .ok () ∧
      ReadablePlaces (annotated kept).length (decisionTokens decisions 0 trace.insts).length
        (annotated trace.validInsts).length

theorem passedTrace_ok {passed : Trace} {extents : Nat → Int32} (shapes : SameShapes trace decisions)
    (laid : layout (trace.assign decisions extents) = .ok tokens) :
    passedTrace replay trace tokens = .ok (some passed) ↔
      passed = writeDecisions decisions trace.insts trace ∧ Accepted replay trace decisions := by
  obtain ⟨labels, text, count, numbers⟩ := layout_tokens laid
  have decoded := decodeDecisions_tokens shapes 0 trace (labels.flatMap Label.tokens)
  rw [← text] at decoded
  have kept : (writeDecisions decisions trace.insts trace).insts = trace.keptInsts decisions :=
    writeDecisions_insts decisions trace.insts trace
  have applied := @applyDecision_some (writeDecisions decisions trace.insts trace) tokens replay
  rw [kept, writeDecisions_schedulable shapes, readsNumber_iff_readable numbers text, count] at applied
  rw [Accepted, ← applied, passedTrace, guarded_ok_some]
  simp only [decoded, bind_ok, Except.ok.injEq, Prod.exists, Prod.mk.injEq, raise_ok]
  constructor
  · rintro ⟨_, _, ⟨rfl, rfl⟩, result, run, rest⟩
    cases result with
    | none => exact absurd rest throw_ok
    | some result => exact ⟨(pure_ok.mp rest).symm, result, run⟩
  · rintro ⟨rfl, result, run⟩
    exact ⟨_, _, ⟨rfl, rfl⟩, some result, run, rfl⟩

theorem passedTrace_carries (replay : List (Instruction × Option Decision) → Except Fault Unit)
    (trace : Trace) (decisions : Nat → Option Decision) (extents : Nat → Int32)
    (tokens : List String) (shapes : SameShapes trace decisions)
    (laid : layout (trace.assign decisions extents) = .ok tokens) :
    (∃ passed, passedTrace replay trace tokens = .ok (some passed) ∧
        passed.Carries (trace.assign decisions extents)) ↔
      trace.parallelValues = (trace.assign decisions extents).parallelValues ∧
        Accepted replay trace decisions := by
  have values : (writeDecisions decisions trace.insts trace).parallelValues =
      trace.parallelValues := by
    rw [Trace.parallelValues, writeDecisions_validInsts]
    rfl
  have written : ∀ inst ∈ (trace.assign decisions extents).insts,
      (writeDecisions decisions trace.insts trace).getDecision inst =
        (trace.assign decisions extents).getDecision inst := by
    simp only [Trace.assign, List.forall_mem_map, Trace.getDecision, setExtent_obj]
    intro inst member
    exact writeDecisions_decisions shapes member
  simp only [passedTrace_ok shapes laid]
  constructor
  · rintro ⟨_, ⟨rfl, accepted⟩, -, same⟩
    exact ⟨values.symm.trans same, accepted⟩
  · rintro ⟨same, accepted⟩
    exact ⟨_, ⟨rfl, accepted⟩, written, values.trans same⟩

def parallelTrace (decision : Decision) : Trace :=
  ⟨[⟨0, .getBlock "root" "main" 0⟩,
      ⟨1, .other "SamplePerfectTile" [] [.num 3, .num 64] [] (by decide)⟩,
      ⟨2, .annotate ⟨.block, 0⟩ (.int 160) parallelKey⟩, ⟨3, .enterPostproc⟩],
    fun obj => if obj = 1 then some decision else none⟩

def decideOne (decision : Decision) : Nat → Option Decision :=
  fun obj => if obj = 1 then some decision else none

theorem parallelTrace_shapes (shape : recorded.SameShape decision) :
    SameShapes (parallelTrace recorded) (decideOne decision) := by
  intro inst member
  simp only [parallelTrace, List.mem_cons, List.not_mem_nil, or_false] at member
  rcases member with rfl | rfl | rfl | rfl
  · exact .none
  · exact .some shape
  · exact .none
  · exact .none

theorem passedTrace_carries_recorded :
    let recorded := parallelTrace (.array [1, 1, 8])
    let assigned := recorded.assign (decideOne (.array [4, 2, 1])) (fun _ => 160)
    ∃ tokens, layout assigned = .ok tokens ∧
      ∃ passed, passedTrace (fun _ => .ok ()) recorded tokens = .ok (some passed) ∧
        passed.Carries assigned := by
  intro recorded assigned
  have shapes : SameShapes recorded (decideOne (.array [4, 2, 1])) := parallelTrace_shapes rfl
  have laid : layout assigned =
      .ok ["1", "4", "2", "1", "Annotate", "b0", "160", "meta_schedule.parallel"] := rfl
  refine ⟨_, laid, (passedTrace_carries _ recorded _ _ _ shapes laid).mpr ⟨rfl, .inr ⟨?_, rfl, ?_⟩⟩⟩
  · intro inst member blockOrLoop annVal mark
    change inst ∈ [_, _, _] at member
    simp only [List.mem_cons, List.not_mem_nil, or_false] at member
    rcases member with rfl | rfl | rfl
    · cases mark
    · cases mark
    · cases mark
      exact ⟨rfl, rfl, 160, rfl⟩
  · intro k bound
    have first : k = 0 := Nat.lt_one_iff.mp bound
    subst first
    exact .inl (by decide)

-- The decisions arrive, the extent 32 does not. With one decision token less in front, the place
-- of the extent holds a word and no trace is applied at all.
theorem passedTrace_stale_extent :
    let recorded := parallelTrace (.array [1, 1, 8])
    let assigned := recorded.assign (decideOne (.array [4, 2, 1])) (fun _ => 32)
    let tokens := ["1", "4", "2", "1", "Annotate", "b0", "32", "meta_schedule.parallel"]
    layout assigned = .ok tokens ∧
      (∃ passed, passedTrace (fun _ => .ok ()) recorded tokens = .ok (some passed) ∧
        passed.decisions 1 = some (.array [4, 2, 1]) ∧
        passed.parallelValues = [.int 160] ∧ assigned.parallelValues = [.int 32] ∧
        ¬passed.Carries assigned) ∧
      layout ((parallelTrace (.integer 0)).assign (decideOne (.integer 4)) (fun _ => 160)) =
        .ok ["1", "4", "Annotate", "b0", "160", "meta_schedule.parallel"] ∧
      passedTrace (fun _ => .ok ()) (parallelTrace (.integer 0))
        ["1", "4", "Annotate", "b0", "160", "meta_schedule.parallel"] = .ok none := by
  intro recorded assigned tokens
  refine ⟨rfl, ⟨_, rfl, rfl, rfl, rfl, ?_⟩, rfl, rfl⟩
  rintro ⟨-, same⟩
  have stale : [Input.int 160] = [Input.int 32] := same
  simp at stale

end Tlm.MetaSchedule
