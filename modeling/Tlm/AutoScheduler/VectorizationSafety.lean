import Tlm.AutoScheduler.VectorizationDecoding
import Mathlib.Data.List.TakeDrop

set_option autoImplicit false

namespace Tlm.AutoScheduler

open Cpp

-- The vectorized iterators of a history, each with the positions it was made of. A fused iterator
-- stands at the first of its positions.
def vectorGroups : List Step → List (Int32 × List Int32)
  | [] => []
  | .annotate stageId iterId .vectorize :: rest => (stageId, [iterId]) :: vectorGroups rest
  | .fuse stageId fusedIds :: .annotate stageId' iterId .vectorize :: rest =>
    (if stageId = stageId' ∧ fusedIds.head? = some iterId then (stageId, fusedIds)
      else (stageId', [iterId])) :: vectorGroups rest
  | _ :: rest => vectorGroups rest

def coveredIters (stage : Stage) (ids : List Int32) : List Iterator :=
  ids.filterMap fun id => stage.iters[id.toInt.toNat]?

-- The group is made of the innermost iterators, of no more than were counted, and all of them are
-- spatial, not annotated and no attach point.
def FusibleTail (policy : SketchPolicy) (s : State) (group : Int32 × List Int32) : Prop :=
  ∃ (stageId : Nat) (stage : Stage) (count size : Nat), group.1.toInt = stageId ∧
    s.stages[stageId]? = some stage ∧ numFusible policy s stageId stage = .ok count ∧
    size ≤ count ∧ size ≤ stage.iters.length ∧
    coveredIters stage group.2 = stage.iters.drop (stage.iters.length - size) ∧
    ∀ position iter, stage.iters.length - size ≤ position → stage.iters[position]? = some iter →
      iter.iterKind = .spatial ∧ iter.annotationKind = .none ∧
        s.attachMap.iterToAttachedStages (stageId, position) = none

def groupSpan : List String → Option (Nat × List String)
  | [] => none
  | stepname :: tokens =>
    if stepname = "AN" then some (1, tokens.drop 3)
    else match fuseVec (tokens.drop 1) with
      | .ok (first :: second :: more, rest) =>
        let last := (second :: more).getLast (List.cons_ne_nil second more)
        some ((last.toInt - first.toInt + 1).toNat, rest.drop 3)
      | _ => none

def tokenSpans : Nat → List String → List Nat
  | 0, _ => []
  | n + 1, tokens =>
    match groupSpan tokens with
    | none => []
    | some (span, rest) => span :: tokenSpans n rest

variable {policy : SketchPolicy} {t : State}

theorem fusibleFrom_congr {s : State} {stageId : Nat} {stage : Stage}
    (same : ∀ k : Nat, t.attachMap.iterToAttachedStages (stageId, k) =
      s.attachMap.iterToAttachedStages (stageId, k)) (iters : List Iterator) :
    ∀ (count : Nat) (cumLengthProd : Int64),
      fusibleFrom policy t stageId stage count cumLengthProd iters =
        fusibleFrom policy s stageId stage count cumLengthProd iters := by
  induction iters with
  | nil =>
    intro count cumLengthProd
    rfl
  | cons iter outer ih =>
    intro count cumLengthProd
    simp only [fusibleFrom, same, ih]

theorem fusibleFrom_sound {s : State} {stageId : Nat} {stage : Stage} {iters : List Iterator}
    {start count : Nat} {cumLengthProd : Int64}
    (run : fusibleFrom policy s stageId stage start cumLengthProd iters = .ok count) :
    start ≤ count ∧ count ≤ start + iters.length ∧
        ∀ m iter, m < count - start → iters[m]? = some iter → iter.annotationKind = .none ∧
          s.attachMap.iterToAttachedStages (stageId, (iters.length - 1 - m : Nat)) = none := by
  induction iters generalizing start count cumLengthProd with
  | nil =>
    cases run
    simp
  | cons iter outer ih =>
    -- a scan that stops here counts nothing more
    have stopped : start = count → start ≤ count ∧ count ≤ start + (iter :: outer).length ∧
        ∀ m other, m < count - start → (iter :: outer)[m]? = some other →
          other.annotationKind = .none ∧ s.attachMap.iterToAttachedStages
            (stageId, ((iter :: outer).length - 1 - m : Nat)) = none := by
      rintro rfl
      exact ⟨le_rfl, by omega, by omega⟩
    rw [fusibleFrom] at run
    split at run
    · exact stopped (pure_ok.mp run)
    rename_i free
    split at run
    · exact stopped (pure_ok.mp run)
    rename_i plain
    simp only [bind_ok] at run
    obtain ⟨tiled, _, run⟩ := run
    split at run
    · exact stopped (pure_ok.mp run)
    split at run
    · exact stopped (pure_ok.mp run)
    obtain ⟨low, high, inside⟩ := ih run
    refine ⟨by omega, by rw [List.length_cons]; omega, fun m other counted listed => ?_⟩
    cases m with
    | zero =>
      obtain rfl : iter = other := by simpa using listed
      have bare : iter.iterKind ≠ .reduction ∧ iter.annotationKind = .none := by
        simpa using plain
      simpa using And.intro bare.2 free
    | succ m =>
      have later := inside m other (by omega) (by simpa using listed)
      rwa [show (iter :: outer).length - 1 - (m + 1) = outer.length - 1 - m by simp; omega]

theorem numFusible_congr {s : State} {stageId : Nat}
    (same : ∀ k : Nat, t.attachMap.iterToAttachedStages (stageId, k) =
      s.attachMap.iterToAttachedStages (stageId, k)) (stage : Stage) :
    numFusible policy t stageId stage = numFusible policy s stageId stage := by
  unfold numFusible
  rw [fusibleFrom_congr same]

theorem numFusible_sound {s : State} {stageId count : Nat} {stage : Stage}
    (counted : numFusible policy s stageId stage = .ok count) :
    count ≤ stage.iters.length ∧
      ∀ position iter, stage.iters.length - count ≤ position →
        stage.iters[position]? = some iter → iter.annotationKind = .none ∧
          s.attachMap.iterToAttachedStages (stageId, position) = none := by
  unfold numFusible at counted
  split at counted
  · cases counted
    refine ⟨by omega, fun position iter behind listed => ?_⟩
    have inside := (List.getElem?_eq_some_iff.mp listed).1
    omega
  · obtain ⟨-, high, sound⟩ := fusibleFrom_sound counted
    rw [List.length_reverse] at high sound
    refine ⟨by omega, fun position iter behind listed => ?_⟩
    have inside := (List.getElem?_eq_some_iff.mp listed).1
    have mirrored : stage.iters.length - 1 - (stage.iters.length - 1 - position) = position := by
      omega
    have found := sound (stage.iters.length - 1 - position) iter (by omega) (by
      rw [List.getElem?_reverse (by omega), mirrored, listed])
    rwa [mirrored] at found

theorem coveredIters_cons {stage : Stage} {id : Int32} {ids : List Int32} {index : Nat}
    {iter : Iterator} (same : id.toInt = index) (listed : stage.iters[index]? = some iter) :
    coveredIters stage (id :: ids) = iter :: coveredIters stage ids := by
  apply List.filterMap_cons_some
  rw [same, Int.toNat_natCast, listed]

theorem getIndices_covered {stage : Stage} {located : List Iterator} {ids : List Int32}
    (run : getIndices stage.iters located = .ok ids) : coveredIters stage ids = located := by
  induction located generalizing ids with
  | nil =>
    cases run
    rfl
  | cons iter located ih =>
    simp only [getIndices, bind_ok, narrow_ok, pure_ok] at run
    obtain ⟨index, first, id, same, rest, later, rfl⟩ := run
    rw [coveredIters_cons same (getIndex_ok.mp first).1, ih later]

section

variable {s s' : State} {stageId : Nat} {stage : Stage} {tokens left : List String}

structure Covers (s s' : State) (stageId : Nat) (stage : Stage) (span : Nat) (appended : List Step)
    (group : Int32 × List Int32) : Prop where
  steps : s'.transformSteps = s.transformSteps ++ appended
  grouped : ∀ rest, vectorGroups (appended ++ rest) = group :: vectorGroups rest
  ofStage : group.1.toInt = stageId
  fits : span ≤ stage.iters.length
  innermost : coveredIters stage group.2 = stage.iters.drop (stage.iters.length - span)
  stages : ChangesOnly stageId s s'
  attaches : AttachesOnly stageId s s'

theorem decodeVectorize_covers (present : s.stages[stageId]? = some stage)
    (run : decodeVectorize stageId stage s tokens = .ok (s', left)) :
    left = tokens.drop 3 ∧ ∃ appended group, Covers s s' stageId stage 1 appended group := by
  simp only [decodeVectorize, run_bind_ok, expectUnsigned_ok, expectInt_ok, run_lift_ok, raise_ok,
    found_ok, bind_ok, vectorizeLast, pure_ok, Prod.exists] at run
  obtain ⟨_, _, ⟨_, rfl, _⟩, _, _, ⟨_, -, rfl, rfl⟩, _, _, ⟨_, _, rfl, rfl⟩, _, _, ⟨_, rfl, _⟩, _, _,
    ⟨_, rfl, _⟩, _, ⟨iter, last, vectorized, newIter, annotated, rfl⟩, rfl, rfl⟩ := run
  refine ⟨rfl, ?_⟩
  obtain ⟨_, index, id, iterId, present', located, same, sameIter, -, -, shape⟩ :=
    annotateIter_ok annotated
  obtain rfl : stage = _ := by simpa [present] using present'
  have filled : stage.iters ≠ [] := by
    rintro empty
    simp [empty] at last
  refine ⟨[.annotate id iterId .vectorize], (id, [iterId]), ?_, fun rest => rfl, same, ?_, ?_, ?_, ?_⟩
  · rw [shape]
    rfl
  · exact List.length_pos_iff.mpr filled
  · rw [coveredIters_cons sameIter (getIndex_ok.mp located).1, List.drop_length_sub_one filled]
    rw [List.getLast?_eq_some_getLast filled, Option.some.injEq] at last
    rw [last]
    rfl
  · rw [shape]
    exact changesOnly_setStage stageId (s.push _) _
  · rw [shape]
    exact fun _ _ => rfl

-- The fused iterator is a new object, so it is found where it was put.
theorem getIndex_fused {iters after : List Iterator} {newIter : Iterator} {start index : Nat}
    (fresh : ∀ iter ∈ iters, iter.obj < newIter.obj) (inside : start ≤ iters.length)
    (located : getIndex (iters.take start ++ newIter :: after) newIter = .ok index) : index = start := by
  obtain ⟨here, before⟩ := getIndex_ok.mp located
  have size : (iters.take start).length = start := List.length_take_of_le inside
  have placed : (iters.take start ++ newIter :: after)[start]? = some newIter := by
    rw [List.getElem?_append_right size.le, size]
    simp
  rcases Nat.lt_trichotomy index start with earlier | same | later
  · rw [List.getElem?_append_left (by omega)] at here
    have old := fresh newIter (List.mem_of_mem_take (List.mem_of_getElem? here))
    omega
  · exact same
  · exact absurd placed (before start later)

theorem decodeFuse_ok (run : decodeFuse stageId stage s tokens = .ok (s', left)) :
    ∃ span toFuse fused iter newIter, groupSpan ("FU" :: tokens) = some (span, left) ∧ 2 ≤ span ∧
      innermost stage span = .ok toFuse ∧ s.fuse stageId toFuse = .ok (fused, iter) ∧
      fused.vectorize stageId iter = .ok (s', newIter) := by
  simp only [decodeFuse, run_bind_ok, expectUnsigned_ok] at run
  obtain ⟨_, numbers, ⟨word, rfl, _⟩, values, behind, vec, run⟩ := run
  split at run
  · simp only [run_bind_ok, require_ok, expectUnsigned_ok, expectInt_ok, run_lift_ok, raise_ok, bind_ok, map_ok, Prod.mk.injEq, Prod.exists, decide_eq_true_eq] at run
    -- The equations are used only when the run is taken apart.
    obtain ⟨_, _, ⟨order, sameNumbers⟩, _, _, ⟨_, fuse, _⟩, _, _,
      ⟨toFuse, ⟨span, spanned, inner⟩, sameIters, sameFuse⟩, _, _, _,
      ⟨fused, iter, fusing, ⟨sameState, sameIter⟩, sameFused⟩, _, _, ⟨_, _, sameStage, sameStaged⟩,
      _, _, ⟨_, ⟨_, -, -⟩, sameIndex, sameIndexed⟩, _, _, ⟨_, annotate, _⟩, _, rest,
      ⟨_, vectorize, _⟩, _, ⟨vectorized, newIter, annotated, sameResult⟩, sameAfter, sameLeft⟩ := run
    subst sameNumbers fuse sameIters sameFuse sameState sameIter sameFused sameStage sameStaged
    subst sameIndex sameIndexed annotate vectorize sameResult sameAfter sameLeft
    simp only [fuseSpan, bind_ok, pure_ok] at spanned
    obtain ⟨_, -, rfl⟩ := spanned
    rw [Int32.lt_iff_toInt_lt] at order
    exact ⟨_, toFuse, fused, iter, newIter, by simp [groupSpan, vec], by omega, inner, fusing,
      annotated⟩
  · exact absurd run run_throw_ok

theorem decodeFuse_covers (present : s.stages[stageId]? = some stage)
    (run : decodeFuse stageId stage s tokens = .ok (s', left)) :
    ∃ span appended group, groupSpan ("FU" :: tokens) = some (span, left) ∧
      Covers s s' stageId stage span appended group := by
  obtain ⟨span, toFuse, fused, iter, newIter, read, several, inner, fusing, annotated⟩ :=
    decodeFuse_ok run
  have filled : toFuse ≠ [] := by
    rintro rfl
    have size := innermost_length inner
    rw [List.length_nil] at size
    omega
  obtain ⟨fits, rfl⟩ := innermost_ok.mp inner
  obtain ⟨_, first, rest, id, start, after, present', located, same, begins, -, steps, fresh, inside,
    stages, attaches⟩ := fuse_ok fusing filled
  obtain rfl : stage = _ := by simpa [present] using present'
  obtain ⟨fusedStage, index, id', iterId, staged, placed, same', sameIter, -, -, shape⟩ :=
    annotateIter_ok annotated
  have inRange := (List.getElem?_eq_some_iff.mp present).1
  obtain rfl : fusedStage = { stage with iters := stage.iters.take start ++ iter :: after } := by
    rw [stages, List.getElem?_set_self inRange, Option.some.injEq] at staged
    exact staged.symm
  have newest : ∀ old ∈ stage.iters, old.obj < iter.obj := by
    intro old member
    rw [fresh]
    exact State.obj_lt_freshObj (List.mem_of_getElem? present) member
  obtain rfl : index = start := getIndex_fused newest inside placed
  obtain rfl : id' = id := Int32.toInt_inj.mp (same'.trans same.symm)
  obtain rfl : iterId = first := Int32.toInt_inj.mp (sameIter.trans begins.symm)
  refine ⟨span, [.fuse id' (iterId :: rest), .annotate id' iterId .vectorize],
    (id', iterId :: rest), read, ?_, fun later => ?_, same, fits, getIndices_covered located, ?_, ?_⟩
  · rw [shape, State.setStage_transformSteps, State.push_transformSteps, steps, List.append_assoc]
    rfl
  · simp [vectorGroups]
  · have first : ChangesOnly stageId s fused := by
      intro j other
      rw [stages, List.getElem?_set_ne other.symm]
    rw [shape]
    exact first.trans (changesOnly_setStage stageId (fused.push _) _)
  · rw [shape]
    exact attaches

theorem decodeGroup_covers (present : s.stages[stageId]? = some stage)
    (run : decodeGroup stageId stage s tokens = .ok (s', left)) :
    ∃ span appended group, groupSpan tokens = some (span, left) ∧
      Covers s s' stageId stage span appended group := by
  simp only [decodeGroup, run_bind_ok, nextToken_ok] at run
  obtain ⟨stepname, rest, rfl, run⟩ := run
  by_cases annotates : stepname = "AN"
  · rw [if_pos annotates] at run
    obtain ⟨rfl, appended, group, covers⟩ := decodeVectorize_covers present run
    exact ⟨1, appended, group, by simp [groupSpan, annotates], covers⟩
  · rw [if_neg annotates] at run
    by_cases fuses : stepname = "FU"
    · rw [if_pos fuses] at run
      obtain ⟨span, appended, group, read, covers⟩ := decodeFuse_covers present run
      exact ⟨span, appended, group, fuses ▸ read, covers⟩
    · rw [if_neg fuses] at run
      exact absurd run run_throw_ok

end

def SpanAllowed (s : State) (entry : (Nat × Nat) × Nat) : Prop :=
  entry.2 ≤ entry.1.2 ∧ ∀ stage, s.stages[entry.1.1]? = some stage →
    ∀ iter ∈ stage.iters.drop (stage.iters.length - entry.2), iter.iterKind = .spatial

theorem fusibleTail_iff {s t' : State} {stageId count span : Nat} {stage : Stage}
    {appended : List Step} {group : Int32 × List Int32} (covers : Covers t t' stageId stage span appended group)
    (present : s.stages[stageId]? = some stage) (counted : numFusible policy s stageId stage = .ok count) :
    FusibleTail policy s group ↔ SpanAllowed s ((stageId, count), span) := by
  have fits := covers.fits
  constructor
  · rintro ⟨stageId', stage', count', size, same, present', counted', most, inside, tail, plain⟩
    obtain rfl : stageId' = stageId := by
      have := covers.ofStage
      omega
    obtain rfl : stage = stage' := by simpa [present] using present'
    obtain rfl : count = count' := by simpa [counted] using counted'
    obtain rfl : size = span := by
      have lengths := congrArg List.length (tail.symm.trans covers.innermost)
      rw [List.length_drop, List.length_drop] at lengths
      omega
    refine ⟨most, fun other present' iter member => ?_⟩
    obtain rfl : stage = other := by simpa [present] using present'
    obtain ⟨k, listed⟩ := List.getElem?_of_mem member
    rw [List.getElem?_drop] at listed
    exact (plain _ iter (by omega) listed).1
  · rintro ⟨most, spatial⟩
    obtain ⟨-, sound⟩ := numFusible_sound counted
    refine ⟨stageId, stage, count, span, covers.ofStage, present, counted, most, fits,
      covers.innermost, fun position iter behind listed => ⟨?_, ?_⟩⟩
    · apply spatial stage present
      apply List.mem_of_getElem? (i := position - (stage.iters.length - span))
      rw [List.getElem?_drop, Nat.add_sub_cancel' behind, listed]
    · simp only at most
      exact sound position iter (by omega) listed

def SameAt (s t : State) (stageId : Nat) : Prop :=
  t.stages[stageId]? = s.stages[stageId]? ∧ ∀ k : Nat,
    t.attachMap.iterToAttachedStages (stageId, k) = s.attachMap.iterToAttachedStages (stageId, k)

theorem decodeVectorizations_groups {s : State} {is : List Nat} {t t' : State} {tokens left : List String}
    {stages : List (Nat × Nat)} (distinct : is.Nodup) (same : (∀ j ∈ is, SameAt s t j))
    (listed : concatM (fusibleAt policy s) is = .ok stages)
    (run : is.foldlM (decodeVectorization policy) (t, tokens) = .ok (t', left)) :
    ∃ appended, t'.transformSteps = t.transformSteps ++ appended ∧
        List.Forall₂ (fun entry group => FusibleTail policy s group ↔ SpanAllowed s entry)
          (stages.zip (tokenSpans stages.length tokens)) (vectorGroups appended) := by
  induction is generalizing t t' tokens left stages with
  | nil =>
    cases listed
    cases run
    exact ⟨[], by simp, .nil⟩
  | cons i is ih =>
    rw [List.nodup_cons] at distinct
    obtain ⟨sameStage, sameAttach⟩ := same i (by simp)
    simp only [concatM, fusibleAt, bind_ok, found_ok, pure_ok] at listed
    obtain ⟨_, ⟨stage, present, count, counted, rfl⟩, later, listed, rfl⟩ := listed
    simp only [List.foldlM_cons, bind_ok, Prod.exists] at run
    obtain ⟨middle, behind, first, run⟩ := run
    simp only [decodeVectorization, bind_ok, outside_ok, found_ok, sameStage, present,
      Option.some.injEq, exists_eq_left', numFusible_congr sameAttach, counted, Except.ok.injEq] at first
    by_cases none : count = 0
    · rw [if_pos none, pure_ok, Prod.mk.injEq] at first
      obtain ⟨rfl, rfl⟩ := first
      have same' : ∀ j ∈ is, SameAt s t j := fun j member => same j (List.mem_cons_of_mem _ member)
      simpa [none] using ih distinct.2 same' listed run
    · rw [if_neg none] at first
      obtain ⟨span, appended, group, read, covers⟩ :=
        decodeGroup_covers (sameStage.trans present) first
      have same' : ∀ j ∈ is, SameAt s middle j := by
        intro j member
        obtain ⟨stageJ, attachJ⟩ := same j (List.mem_cons_of_mem _ member)
        have other : j ≠ i := ne_of_mem_of_not_mem member distinct.1
        refine ⟨(covers.stages j other).trans stageJ, fun k => ?_⟩
        rw [covers.attaches (j, k) (show ((j : Nat) : Int) ≠ i by omega), attachJ]
      obtain ⟨appended', steps, groups⟩ := ih distinct.2 same' listed run
      refine ⟨appended ++ appended', ?_, ?_⟩
      · rw [steps, covers.steps, List.append_assoc]
      · rw [covers.grouped, if_neg none]
        simp only [List.singleton_append, List.length_cons, tokenSpans, read]
        exact .cons (fusibleTail_iff covers present counted) groups

theorem forall_iff_of_forall₂ {α β : Type} {P : α → Prop} {Q : β → Prop} {as : List α} {bs : List β}
    (matched : List.Forall₂ (fun a b => Q b ↔ P a) as bs) : (∀ b ∈ bs, Q b) ↔ ∀ a ∈ as, P a := by
  induction matched with
  | nil => simp
  | cons same _ ih => simp [same, ih]

theorem initVectorizationTokens_safe (policy : SketchPolicy) (s s' : State) (tokens : List String)
    (accepted : initVectorizationTokens policy [s] (fun _ _ => [tokens]) = .ok [s']) :
    ∃ stages, fusibleStages policy s = .ok stages ∧
      ((∀ group ∈ vectorGroups (s'.transformSteps.drop (s.transformSteps.length + 1)),
          FusibleTail policy s group) ↔
        ∀ entry ∈ stages.zip (tokenSpans stages.length tokens), SpanAllowed s entry) := by
  rw [initVectorizationTokens, tokenRule_single] at accepted
  obtain ⟨start, _, decoded, prompted, read, kept⟩ := accepted
  obtain rfl : decoded = some s' := by
    cases decoded <;> simp_all
  simp only [promptVectorization, State.vectorizationStart, bind_ok, pure_ok] at prompted
  obtain ⟨stages, counted, _, ⟨stageIds, _, rfl⟩, rfl, -⟩ := prompted
  simp only [decodeVectorizations, bind_ok, pure_ok, Option.map_eq_some_iff, Prod.exists] at read
  obtain ⟨_, walked, walkedState, left, rfl, rfl⟩ := read
  have prompt : ∀ j ∈ List.range s.stages.length, SameAt s (s.push (.vectorizationStart stageIds)) j :=
    fun _ _ => ⟨rfl, fun _ => rfl⟩
  obtain ⟨appended, steps, groups⟩ :=
    decodeVectorizations_groups List.nodup_range prompt counted (guarded_ok_some.mp walked)
  refine ⟨stages, counted, ?_⟩
  rw [steps, ← s.push_length (.vectorizationStart stageIds), List.drop_left]
  exact forall_iff_of_forall₂ groups

def wideNest : State := nestState [nestIter 0 64, nestIter 1 4]

def mixedNest : State := nestState [{ nestIter 0 4 with iterKind := .mixed }]

theorem initVectorizationTokens_safe_last :
    ∃ s', initVectorizationTokens vectorPolicy [wideNest] (fun _ _ => [["AN", "0", "1", "2"]]) =
      .ok [s'] ∧
      ∃ stages, fusibleStages vectorPolicy wideNest = .ok stages ∧
        ((∀ group ∈ vectorGroups (s'.transformSteps.drop (wideNest.transformSteps.length + 1)),
            FusibleTail vectorPolicy wideNest group) ↔
          ∀ entry ∈ stages.zip (tokenSpans stages.length ["AN", "0", "1", "2"]),
            SpanAllowed wideNest entry) :=
  ⟨_, rfl, initVectorizationTokens_safe _ _ _ _ rfl⟩

-- One of the two loops is counted as fusible, and both are fused. A loop of mixed kind counts too.
theorem initVectorizationTokens_overreach :
    ((∃ s', initVectorizationTokens vectorPolicy [wideNest]
          (fun _ _ => [["FU", "0", "0", "1", "AN", "0", "0", "2"]]) = .ok [s'] ∧
        vectorGroups (s'.transformSteps.drop 1) = [(0, [0, 1])]) ∧
      ¬FusibleTail vectorPolicy wideNest (0, [0, 1])) ∧
    ((∃ s', initVectorizationTokens vectorPolicy [mixedNest]
          (fun _ _ => [["AN", "0", "0", "2"]]) = .ok [s'] ∧
        vectorGroups (s'.transformSteps.drop 1) = [(0, [0])]) ∧
      ¬FusibleTail vectorPolicy mixedNest (0, [0])) := by
  refine ⟨⟨⟨_, rfl, rfl⟩, ?_⟩, ⟨⟨_, rfl, rfl⟩, ?_⟩⟩
  · rintro ⟨stageId, stage, count, size, same, present, counted, most, fits, tail, -⟩
    obtain rfl : stageId = 0 := Int.ofNat.inj same.symm
    cases present
    obtain rfl : count = 1 := Except.ok.inj (counted.symm.trans rfl)
    have lengths : 2 = _ := congrArg List.length tail
    rw [List.length_drop] at lengths
    omega
  · rintro ⟨stageId, stage, count, size, same, present, -, -, fits, tail, plain⟩
    obtain rfl : stageId = 0 := Int.ofNat.inj same.symm
    cases present
    have lengths : 1 = _ := congrArg List.length tail
    rw [List.length_drop] at lengths
    have spatial := (plain 0 _ (show 1 - size ≤ 0 by omega) rfl).1
    cases spatial

end Tlm.AutoScheduler
