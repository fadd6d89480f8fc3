import Tlm.AutoScheduler.PrimitiveSpec
import Tlm.AutoScheduler.Unroll

set_option autoImplicit false

namespace Tlm.AutoScheduler

open Cpp

def UnrollsAt (s : State) (stageId : Nat) : Prop :=
  ∃ stage, s.stages[stageId]? = some stage ∧ skipsUnroll stage = false ∧ innerTargets stage ≠ []

def LimitsAt (s : State) (stageId : Nat) : Prop :=
  ∃ stage, s.stages[stageId]? = some stage ∧ skipsUnroll stage = false ∧ hasReduceIter stage = true

theorem unrollInner_appends {stageId : Nat} {stage : Stage} {s s' : State}
    (run : unrollInner stageId stage s = .ok s') :
    ChangesOnly stageId s s' ∧ ∃ out, Appends s s' out ∧
      (innerTargets stage ≠ [] → ∃ rest, out = "AN" :: rest) := by
  simp only [unrollInner, unroll_noLimit] at run
  generalize innerTargets stage = targets at run ⊢
  induction targets generalizing s with
  | nil =>
    simp only [List.foldlM_nil, pure_ok] at run
    subst run
    exact ⟨.refl stageId s, [], .still s, by simp⟩
  | cons iter targets ih =>
    simp only [List.foldlM_cons, bind_ok, map_ok, Prod.exists] at run
    obtain ⟨_, ⟨middle, newIter, first, rfl⟩, later⟩ := run
    obtain ⟨stage, index, id, iterId, -, -, -, -, -, -, shape⟩ := annotateIter_ok first
    have frame : ChangesOnly stageId s middle := by
      rw [shape]
      exact changesOnly_setStage stageId (s.push _) _
    have appends : Appends s middle (recordTokens [.annotate id iterId .unroll]) :=
      ⟨_, by rw [shape]; rfl, rfl⟩
    obtain ⟨frame', out, appends', -⟩ := ih later
    refine ⟨frame.trans frame', _, appends.chain appends', fun _ => ?_⟩
    exact ⟨_, by rw [recordTokens_cons, Step.tokens_annotate]; rfl⟩

theorem unrollInner_nil {stageId : Nat} {stage : Stage} {s : State}
    (none : innerTargets stage = []) : unrollInner stageId stage s = .ok s := by
  rw [unrollInner, none]
  rfl

section

variable {policy : SketchPolicy} {s s' : State} {rand rand' : RandGen} {stageId : Nat}

theorem unrollStage_cases (run : unrollStage policy (s, rand) stageId = .ok (s', rand')) :
    ∃ stage, s.stages[stageId]? = some stage ∧
      (skipsUnroll stage = true ∧ s' = s ∨
        skipsUnroll stage = false ∧ ∃ unrolled, unrollInner stageId stage s = .ok unrolled ∧
          (hasReduceIter stage = false ∧ s' = unrolled ∨
            hasReduceIter stage = true ∧ drawLimit policy stageId unrolled rand = .ok (s', rand'))) := by
  simp only [unrollStage, bind_ok, found_ok] at run
  obtain ⟨stage, present, run⟩ := run
  refine ⟨stage, present, ?_⟩
  by_cases skips : skipsUnroll stage = true
  · rw [if_pos skips, pure_ok, Prod.mk.injEq] at run
    exact .inl ⟨skips, run.1.symm⟩
  · rw [if_neg skips, bind_ok] at run
    obtain ⟨unrolled, inner, run⟩ := run
    refine .inr ⟨by simpa using skips, unrolled, inner, ?_⟩
    by_cases reduces : hasReduceIter stage = true
    · rw [if_pos reduces] at run
      exact .inr ⟨reduces, run⟩
    · rw [if_neg reduces, pure_ok, Prod.mk.injEq] at run
      exact .inl ⟨by simpa using reduces, run.1.symm⟩

theorem drawLimit_ok (run : drawLimit policy stageId s rand = .ok (s', rand')) :
    ∃ limit iter, limit ∈ autoUnrollConfigs policy.searchTask ∧
      outermostIter stageId s = .ok iter ∧ s.pragma stageId iter (unrollPragma limit) = .ok s' := by
  simp only [drawLimit, bind_ok, found_ok] at run
  obtain ⟨limit, listed, iter, outermost, _, written, rfl, -⟩ := run
  exact ⟨limit, iter, List.mem_of_getElem? listed, outermost, written⟩

theorem limitText_append (text : String) :
    limitText ("auto_unroll_max_step" ++ "$" ++ text) = .ok text := by
  have shape : ("auto_unroll_max_step" ++ "$" ++ text).toList =
      "auto_unroll_max_step$".toList ++ text.toList := by
    simp
  have size : "auto_unroll_max_step$".length ≤ ("auto_unroll_max_step" ++ "$" ++ text).length := by
    rw [← String.length_toList, ← String.length_toList, shape, List.length_append]
    exact Nat.le_add_right _ _
  have rest : ("auto_unroll_max_step" ++ "$" ++ text).toList.drop "auto_unroll_max_step$".length =
      text.toList := by
    rw [shape, ← String.length_toList, List.drop_left]
  simp only [limitText, bind_ok, ensure_ok, pure_ok, decide_eq_true_eq]
  exact ⟨(), size, by rw [rest, String.ofList_toList]⟩

theorem decodeLimit_read {id iterId limit : Int32} (same : id.toInt = stageId)
    (configured : limit ∈ autoUnrollConfigs policy.searchTask) {iter : Iterator}
    (outermost : outermostIter stageId s = .ok iter)
    (written : s.pragma stageId iter (unrollPragma limit) = .ok s') (rest : List String) :
    decodeLimit policy stageId iterId s
      ("PR" :: id.toInt.repr :: iterId.toInt.repr :: unrollPragma limit :: rest) =
        .ok (s', rest) := by
  have text : limitText (unrollPragma limit) = .ok limit.toInt.repr := by
    exact limitText_append _
  simp [decodeLimit, stoul_repr same, text, configured, outermost, written]

section

variable (run : unrollStage policy (s, rand) stageId = .ok (s', rand'))

include run

theorem unrollStage_appends :
    ChangesOnly stageId s s' ∧ ∃ out, Appends s s' out ∧
      (UnrollsAt s stageId → ∃ rest, out = "AN" :: rest) := by
  obtain ⟨stage, present, ⟨skips, rfl⟩ | ⟨active, unrolled, inner, finish⟩⟩ := unrollStage_cases run
  · refine ⟨.refl stageId s', [], .still s', ?_⟩
    rintro ⟨other, present', active, -⟩
    obtain rfl : stage = other := by simpa [present] using present'
    simp [skips] at active
  · obtain ⟨frame, out, appends, unrolls⟩ := unrollInner_appends inner
    have first : UnrollsAt s stageId → ∃ rest, out = "AN" :: rest := by
      rintro ⟨other, present', -, targets⟩
      obtain rfl : stage = other := by simpa [present] using present'
      exact unrolls targets
    obtain ⟨-, rfl⟩ | ⟨-, limited⟩ := finish
    · exact ⟨frame, out, appends, first⟩
    · obtain ⟨limit, iter, -, -, written⟩ := drawLimit_ok limited
      obtain ⟨_, _, id, iterId, -, -, -, -, steps, frame'⟩ := pragma_ok written
      refine ⟨frame.trans frame', _, appends.chain ⟨_, steps, rfl⟩, fun unrolls => ?_⟩
      obtain ⟨rest, rfl⟩ := first unrolls
      exact ⟨_, rfl⟩

theorem decodeUnroll_read
    (plain : ¬UnrollsAt s stageId) :
    ∃ out, Appends s s' out ∧ ∀ rest, decodeUnroll policy (s, out ++ rest) stageId = .ok (s', rest) := by
  obtain ⟨stage, present, ⟨skips, rfl⟩ | ⟨active, unrolled, inner, finish⟩⟩ := unrollStage_cases run
  · exact ⟨[], .still s', fun rest => by simp [decodeUnroll, present, skips]⟩
  · have targets : innerTargets stage = [] := by
      by_contra targets
      exact plain ⟨stage, present, active, targets⟩
    have still : unrollInner stageId stage s = .ok s := unrollInner_nil targets
    obtain rfl : unrolled = s := by simpa [still] using inner.symm
    obtain ⟨reduces, rfl⟩ | ⟨reduces, limited⟩ := finish
    · exact ⟨[], .still s', fun rest => by simp [decodeUnroll, present, still, reduces]⟩
    · obtain ⟨limit, iter, configured, outermost, written⟩ := drawLimit_ok limited
      obtain ⟨_, index, id, iterId, present', located, same, sameIter, steps, -⟩ := pragma_ok written
      obtain rfl : stage = _ := by simpa [present] using present'
      refine ⟨_, ⟨_, steps, rfl⟩, fun rest => ?_⟩
      have read : ∃ iterId' : Int32, iterId'.toInt = index ∧ decodeLimit policy stageId iterId' unrolled
          ("PR" :: id.toInt.repr :: iterId.toInt.repr :: unrollPragma limit :: rest) =
            .ok (s', rest) :=
        ⟨iterId, sameIter, decodeLimit_read same configured outermost written rest⟩
      simp only [recordTokens_cons, Step.tokens_pragma]
      simpa [decodeUnroll, present, active, still, reduces, outermost, located] using read

theorem decodeUnroll_silent
    (plain : ¬LimitsAt s stageId) (tokens : List String) :
    decodeUnroll policy (s, tokens) stageId = .ok (s', tokens) := by
  obtain ⟨stage, present, ⟨skips, rfl⟩ | ⟨active, unrolled, inner, finish⟩⟩ := unrollStage_cases run
  · simp [decodeUnroll, present, skips]
  · obtain ⟨reduces, rfl⟩ | ⟨reduces, -⟩ := finish
    · simp [decodeUnroll, present, active, inner, reduces]
    · exact absurd ⟨stage, present, active, reduces⟩ plain

end

theorem decodeUnroll_stuck (limits : LimitsAt s stageId) (tokens : List String) {st : State × List String} :
    decodeUnroll policy (s, "AN" :: tokens) stageId ≠ .ok st := by
  obtain ⟨stage, present, active, reduces⟩ := limits
  intro run
  simp [decodeUnroll, present, active, reduces, decodeLimit] at run

end

theorem UnrollsAt.frame {i j : Nat} {s s' : State} (frame : ChangesOnly i s s') (other : j ≠ i) :
    UnrollsAt s' j ↔ UnrollsAt s j := by
  simp only [UnrollsAt, frame j other]

theorem LimitsAt.frame {i j : Nat} {s s' : State} (frame : ChangesOnly i s s') (other : j ≠ i) :
    LimitsAt s' j ↔ LimitsAt s j := by
  simp only [LimitsAt, frame j other]

section

variable {policy : SketchPolicy}

theorem unrollStages_appends {is : List Nat} {s s' : State} {rand rand' : RandGen}
    (run : is.foldlM (unrollStage policy) (s, rand) = .ok (s', rand')) : ∃ out, Appends s s' out := by
  induction is generalizing s s' rand rand' with
  | nil =>
    cases run
    exact ⟨[], .still s⟩
  | cons i is ih =>
    simp only [List.foldlM_cons, bind_ok, Prod.exists] at run
    obtain ⟨middle, rand₁, first, later⟩ := run
    obtain ⟨-, out, appends, -⟩ := unrollStage_appends first
    obtain ⟨out', appends'⟩ := ih later
    exact ⟨out ++ out', appends.chain appends'⟩

theorem decodeUnrolls_silent :
    ∀ {is : List Nat} {s s' : State} {rand rand' : RandGen}, is.Nodup →
      (∀ j ∈ is, ¬LimitsAt s j) → is.foldlM (unrollStage policy) (s, rand) = .ok (s', rand') →
      ∀ tokens, is.foldlM (decodeUnroll policy) (s, tokens) = .ok (s', tokens) := by
  intro is
  induction is with
  | nil =>
    intro s s' rand rand' _ _ run tokens
    cases run
    rfl
  | cons i is ih =>
    intro s s' rand rand' distinct silent run tokens
    rw [List.nodup_cons] at distinct
    simp only [List.foldlM_cons, bind_ok, Prod.exists] at run ⊢
    obtain ⟨middle, rand₁, first, later⟩ := run
    obtain ⟨frame, -⟩ := unrollStage_appends first
    refine ⟨middle, tokens, decodeUnroll_silent first (silent i (by simp)) tokens, ?_⟩
    apply ih distinct.2 _ later
    intro j member
    rw [LimitsAt.frame frame (ne_of_mem_of_not_mem member distinct.1)]
    exact silent j (List.mem_cons_of_mem _ member)

theorem decodeUnrolls_stuck :
    ∀ {is : List Nat} {s s' : State} {rand rand' : RandGen}, is.Nodup →
      (∃ j ∈ is, LimitsAt s j) → is.foldlM (unrollStage policy) (s, rand) = .ok (s', rand') →
      ∀ tokens st, is.foldlM (decodeUnroll policy) (s, "AN" :: tokens) ≠ .ok st := by
  intro is
  induction is with
  | nil =>
    rintro s s' rand rand' _ ⟨_, member, _⟩
    cases member
  | cons i is ih =>
    rintro s s' rand rand' distinct ⟨j, member, limits⟩ run tokens st decoded
    rw [List.nodup_cons] at distinct
    simp only [List.foldlM_cons, bind_ok, Prod.exists] at run decoded
    obtain ⟨middle, rand₁, first, later⟩ := run
    obtain ⟨read, left, head, tail⟩ := decoded
    by_cases here : LimitsAt s i
    · exact decodeUnroll_stuck here tokens head
    · rw [decodeUnroll_silent first here] at head
      cases head
      have apart : j ≠ i := by
        rintro rfl
        exact here limits
      obtain ⟨frame, -⟩ := unrollStage_appends first
      refine ih distinct.2 ⟨j, ?_, (LimitsAt.frame frame apart).mpr limits⟩ later tokens st tail
      exact (List.mem_cons.mp member).resolve_left apart

theorem decodeUnrolls_read {is : List Nat} {s s' : State} {rand rand' : RandGen}
    (ascending : is.Pairwise (· < ·)) (last : (∀ i ∈ is, ∀ j ∈ is, i ≤ j → UnrollsAt s i → ¬LimitsAt s j))
    (run : is.foldlM (unrollStage policy) (s, rand) = .ok (s', rand')) :
    ∃ out left, Appends s s' out ∧ is.foldlM (decodeUnroll policy) (s, out) = .ok (s', left) := by
  induction is generalizing s s' rand rand' with
  | nil =>
    cases run
    exact ⟨[], [], .still s, rfl⟩
  | cons i is ih =>
    by_cases unrolls : UnrollsAt s i
    · have silent : ∀ j ∈ i :: is, ¬LimitsAt s j := by
        intro j member
        refine last i (by simp) j member ?_ unrolls
        rcases List.mem_cons.mp member with rfl | later
        · exact le_rfl
        · exact (List.rel_of_pairwise_cons ascending later).le
      obtain ⟨out, appends⟩ := unrollStages_appends run
      exact ⟨out, out, appends, decodeUnrolls_silent (ascending.imp Nat.ne_of_lt) silent run out⟩
    · rw [List.pairwise_cons] at ascending
      simp only [List.foldlM_cons, bind_ok, Prod.exists] at run ⊢
      obtain ⟨middle, rand₁, first, later⟩ := run
      obtain ⟨frame, -⟩ := unrollStage_appends first
      obtain ⟨out, appends, read⟩ := decodeUnroll_read first unrolls
      have last' : ∀ k ∈ is, ∀ j ∈ is, k ≤ j → UnrollsAt middle k → ¬LimitsAt middle j := by
        intro k memberK j memberJ order
        rw [UnrollsAt.frame frame (ascending.1 k memberK).ne', LimitsAt.frame frame (ascending.1 j memberJ).ne']
        exact last k (List.mem_cons_of_mem _ memberK) j (List.mem_cons_of_mem _ memberJ) order
      obtain ⟨out', left, appends', read'⟩ := ih ascending.2 last' later
      exact ⟨out ++ out', left, appends.chain appends', middle, out', read out', read'⟩

theorem decodeUnrolls_refused :
    ∀ {is : List Nat} {s s' : State} {rand rand' : RandGen}, is.Pairwise (· < ·) →
      (∃ i ∈ is, ∃ j ∈ is, i ≤ j ∧ UnrollsAt s i ∧ LimitsAt s j) →
      is.foldlM (unrollStage policy) (s, rand) = .ok (s', rand') →
      ∃ out, Appends s s' out ∧ ∀ st, is.foldlM (decodeUnroll policy) (s, out) ≠ .ok st := by
  intro is
  induction is with
  | nil =>
    rintro s s' rand rand' _ ⟨_, member, _⟩
    cases member
  | cons i is ih =>
    rintro s s' rand rand' ascending ⟨k, memberK, j, memberJ, order, unrollsK, limits⟩ run
    have distinct : (i :: is).Nodup := ascending.imp Nat.ne_of_lt
    have whole := run
    rw [List.pairwise_cons] at ascending
    simp only [List.foldlM_cons, bind_ok, Prod.exists] at run
    obtain ⟨middle, rand₁, first, later⟩ := run
    obtain ⟨frame, out, appends, annotated⟩ := unrollStage_appends first
    by_cases unrolls : UnrollsAt s i
    · obtain ⟨rest, rfl⟩ := annotated unrolls
      obtain ⟨out', appends'⟩ := unrollStages_appends later
      refine ⟨_, appends.chain appends', ?_⟩
      exact decodeUnrolls_stuck distinct ⟨j, memberJ, limits⟩ whole (rest ++ out')
    · have apartK : k ≠ i := by
        rintro rfl
        exact unrolls unrollsK
      have behindK := (List.mem_cons.mp memberK).resolve_left apartK
      have apartJ : j ≠ i := by
        have := ascending.1 k behindK
        omega
      have behindJ := (List.mem_cons.mp memberJ).resolve_left apartJ
      obtain ⟨out₁, appends₁, read⟩ := decodeUnroll_read first unrolls
      obtain ⟨out', appends', refused⟩ := ih ascending.2
        ⟨k, behindK, j, behindJ, order, (UnrollsAt.frame frame apartK).mpr unrollsK,
          (LimitsAt.frame frame apartJ).mpr limits⟩ later
      refine ⟨out₁ ++ out', appends₁.chain appends', fun st decoded => ?_⟩
      rw [List.foldlM_cons, read out'] at decoded
      exact refused st decoded

end

theorem initUnroll_decoded (policy : SketchPolicy) (s s' : State) (rand rand' : RandGen)
    (run : initUnroll policy s rand = .ok (s', rand')) :
    (∃ t, initUnrollTokens policy [s]
        (fun _ _ => [recordTokens (s'.transformSteps.drop (s.transformSteps.length + 1))]) =
          .ok [t] ∧ t.transformSteps = s'.transformSteps) ↔
      ∀ i j, i ≤ j → UnrollsAt s i → ¬LimitsAt s j := by
  simp only [initUnroll, State.unrollStart, bind_ok, pure_ok] at run
  obtain ⟨_, ⟨stageIds, narrowed, rfl⟩, walk⟩ := run
  have prompted : promptUnroll s =
      .ok (s.push (.unrollStart stageIds), 4 * (unrollStageIds s).length) := by
    simp [promptUnroll, State.unrollStart, narrowed]
  have inside : ∀ {j}, LimitsAt s j → j ∈ List.range s.stages.length := by
    rintro j ⟨stage, present, -⟩
    exact List.mem_range.mpr (List.getElem?_eq_some_iff.mp present).1
  simp only [initUnrollTokens, tokenRule_single, prompted, Except.ok.injEq, Prod.mk.injEq]
  rw [← s.push_length (.unrollStart stageIds)]
  constructor
  · rintro ⟨t, ⟨_, _, decoded, ⟨rfl, rfl⟩, read, kept⟩, -⟩ i j order unrolls limits
    have memberJ := inside limits
    have memberI : i ∈ List.range s.stages.length :=
      List.mem_range.mpr (order.trans_lt (List.mem_range.mp memberJ))
    have unrolls' : UnrollsAt (s.push (.unrollStart stageIds)) i := unrolls
    have limits' : LimitsAt (s.push (.unrollStart stageIds)) j := limits
    obtain ⟨out, appends, refused⟩ := decodeUnrolls_refused List.pairwise_lt_range
      ⟨i, memberI, j, memberJ, order, unrolls', limits'⟩ walk
    simp only [appends.tokens_eq, decodeUnrolls, bind_ok, pure_ok] at read
    obtain ⟨walked, guard, rfl⟩ := read
    cases walked with
    | none => cases kept
    | some st => exact refused st (guarded_ok_some.mp guard)
  · intro last
    have last' : ∀ i j, i ≤ j → UnrollsAt (s.push (.unrollStart stageIds)) i →
        ¬LimitsAt (s.push (.unrollStart stageIds)) j := last
    obtain ⟨out, left, appends, read⟩ := decodeUnrolls_read List.pairwise_lt_range
      (fun i _ j _ => last' i j) walk
    refine ⟨s', ⟨_, _, some s', ⟨rfl, rfl⟩, ?_, rfl⟩, rfl⟩
    rw [appends.tokens_eq]
    simp only [decodeUnrolls, bind_ok]
    exact ⟨some (s', left), guarded_ok_some.mpr read, rfl⟩

def reductionState (names : Option (List String)) (iters : List Iterator) : State :=
  ⟨[⟨⟨0, .compute [] [], names⟩, iters, .compute, .root, 0, 0⟩], [], .empty, none, true⟩

def spatialIter : Iterator := ⟨0, "i", some ⟨.imm 0, .imm 8⟩, .spatial, .none⟩

def reductionIter : Iterator := ⟨1, "k", some ⟨.imm 0, .imm 4⟩, .reduction, .none⟩

def unrollPolicy : SketchPolicy :=
  ⟨⟨⟨[], fun _ => none, fun _ => none⟩, .cpu⟩, 64, 16, 0⟩

theorem initUnroll_decoded_limit :
    let s := reductionState none [spatialIter, reductionIter]
    ∃ s' rand', initUnroll unrollPolicy s (fun _ => 1) = .ok (s', rand') ∧
      ((∃ t, initUnrollTokens unrollPolicy [s]
          (fun _ _ => [recordTokens (s'.transformSteps.drop (s.transformSteps.length + 1))]) =
            .ok [t] ∧ t.transformSteps = s'.transformSteps) ↔
        ∀ i j, i ≤ j → UnrollsAt s i → ¬LimitsAt s j) :=
  ⟨_, _, rfl, initUnroll_decoded _ _ _ (fun _ => 1) _ rfl⟩

-- Where the reduction is unrolled its own tokens are refused; where it is the outermost loop the
-- lookup of the pragma's iterator fails outside of any handler.
theorem initUnroll_inner_refused :
    (∃ s' rand', initUnroll unrollPolicy (reductionState (some ["k"]) [spatialIter, reductionIter])
        (fun _ => 1) = .ok (s', rand') ∧
      s'.transformSteps = [.unrollStart [0], .annotate 0 1 .unroll,
        .pragma 0 0 "auto_unroll_max_step$16"] ∧
      initUnrollTokens unrollPolicy [reductionState (some ["k"]) [spatialIter, reductionIter]]
        (fun _ _ => [recordTokens (s'.transformSteps.drop 1)]) = .ok []) ∧
    (∃ s' rand', initUnroll unrollPolicy (reductionState (some ["k"]) [reductionIter])
        (fun _ => 1) = .ok (s', rand') ∧
      s'.transformSteps = [.unrollStart [0], .annotate 0 0 .unroll,
        .pragma 0 0 "auto_unroll_max_step$16"] ∧
      initUnrollTokens unrollPolicy [reductionState (some ["k"]) [reductionIter]]
        (fun _ _ => [recordTokens (s'.transformSteps.drop 1)]) = .error .check) :=
  ⟨⟨_, _, rfl, rfl, rfl⟩, ⟨_, _, rfl, rfl, rfl⟩⟩

end Tlm.AutoScheduler
