import Tlm.AutoScheduler.PrimitiveSpec
import Tlm.AutoScheduler.Vectorization

set_option autoImplicit false

namespace Tlm.AutoScheduler

open Cpp

theorem repr_ne_an (value : Int32) : value.toInt.repr ≠ "AN" := by
  intro same
  have parsed := stoi_repr value
  rw [same] at parsed
  cases parsed

theorem fuseVec_read (ids : List Int32) (rest : List String) :
    fuseVec (ids.map (·.toInt.repr) ++ "AN" :: rest) = .ok (ids, rest) := by
  induction ids with
  | nil => simp [fuseVec]
  | cons id ids ih => simp [fuseVec, repr_ne_an, ih]

section

variable {policy : SketchPolicy} {s s' : State} {rand rand' : RandGen} {stageId : Nat}
  {stage : Stage}

theorem vectorizeLast_read (present : s.stages[stageId]? = some stage)
    (run : vectorizeLast stageId stage s = .ok s') :
    ∃ out, Appends s s' out ∧ ∀ rest, decodeGroup stageId stage s (out ++ rest) = .ok (s', rest) := by
  have again := run
  simp only [vectorizeLast, bind_ok, pure_ok] at run
  obtain ⟨iter, last, ⟨_, newIter⟩, annotated, rfl⟩ := run
  obtain ⟨_, index, id, iterId, present', located, same, sameIter, -, -, shape⟩ :=
    annotateIter_ok annotated
  obtain rfl : stage = _ := by simpa [present] using present'
  refine ⟨_, ⟨[.annotate id iterId .vectorize], by rw [shape]; rfl, rfl⟩, fun rest => ?_⟩
  rw [recordTokens_cons, Step.tokens_annotate]
  simpa [decodeGroup, decodeVectorize, stoul_repr same, last, located, again] using sameIter

variable {count : Nat} {toFuse : List Iterator}

theorem innermost_ok :
    innermost stage count = .ok toFuse ↔
      count ≤ stage.iters.length ∧ stage.iters.drop (stage.iters.length - count) = toFuse := by
  simp [innermost]

theorem innermost_length (inner : innermost stage count = .ok toFuse) : toFuse.length = count := by
  obtain ⟨enough, rfl⟩ := innermost_ok.mp inner
  rw [List.length_drop]
  omega

theorem fuseSpan_ok {first last : Int32} (span : last.toInt - first.toInt + 1 = count)
    (bound : count ≤ 2 ^ 31) : fuseSpan first last = .ok count := by
  simp only [fuseSpan, span, bind_ok, ensure_ok, pure_ok, decide_eq_true_eq]
  exact ⟨(), by omega, Int.toNat_natCast count⟩

theorem fuseSpan_consecutive {first : Int32} {ids : List Int32} {start : Nat} (filled : ids ≠ [])
    (begins : first.toInt = start)
    (consecutive : ∀ (k : Nat) (id : Int32), (first :: ids)[k]? = some id → id.toInt = start + k) :
    first < ids.getLast filled ∧ fuseSpan first (ids.getLast filled) = .ok (ids.length + 1) := by
  have some := List.length_pos_iff.mpr filled
  have ends : (ids.getLast filled).toInt = start + ids.length := by
    apply consecutive
    rw [← List.getLast_cons (a := first) filled, List.getLast_eq_getElem]
    simp
  have bound := (ids.getLast filled).toInt_lt
  refine ⟨?_, fuseSpan_ok (by omega) (by omega)⟩
  rw [Int32.lt_iff_toInt_lt]
  omega

theorem fuseAndVectorize_read (several : 2 ≤ count) (inner : innermost stage count = .ok toFuse)
    (run : fuseAndVectorize stageId toFuse s = .ok s') :
    ∃ out, Appends s s' out ∧ ∀ rest, decodeGroup stageId stage s (out ++ rest) = .ok (s', rest) := by
  have size := innermost_length inner
  simp only [fuseAndVectorize, bind_ok, pure_ok, Prod.exists] at run
  obtain ⟨fused, iter, fusing, vectorized, newIter, annotated, rfl⟩ := run
  obtain ⟨_, first, ids, id, start, after, present', located, same, begins, consecutive, steps, -, -,
    -, -⟩ := fuse_ok fusing (by rintro rfl; simp at size; omega)
  obtain ⟨fusedStage, index, id', iterId, staged, located', same', sameIter, -, -, shape⟩ :=
    annotateIter_ok annotated
  have length : ids.length + 1 = count := by
    rw [← size, ← getIndices_length located, List.length_cons]
  obtain ⟨second, more, rfl⟩ : ∃ second more, ids = second :: more := by
    cases ids with
    | nil => simp at length; omega
    | cons second more => exact ⟨second, more, rfl⟩
  obtain ⟨order, span⟩ := fuseSpan_consecutive (List.cons_ne_nil second more) begins consecutive
  rw [length] at span
  have rejoined : id' = id := Int32.toInt_inj.mp (same'.trans same.symm)
  have appends : Appends s vectorized (recordTokens
      ([.fuse id (first :: second :: more)] ++ [.annotate id iterId .vectorize])) := by
    refine ⟨_, ?_, rfl⟩
    rw [shape, State.setStage_transformSteps, State.push_transformSteps, steps, rejoined, List.append_assoc]
  refine ⟨_, appends, fun rest => ?_⟩
  have values : fuseVec (first.toInt.repr :: second.toInt.repr ::
      (more.map (·.toInt.repr) ++ "AN" :: id.toInt.repr :: iterId.toInt.repr ::
        IteratorAnnotation.vectorize.code.toInt.repr :: rest)) =
      .ok (first :: second :: more, id.toInt.repr :: iterId.toInt.repr ::
        IteratorAnnotation.vectorize.code.toInt.repr :: rest) := by
    simpa using fuseVec_read (first :: second :: more) (id.toInt.repr :: iterId.toInt.repr ::
      IteratorAnnotation.vectorize.code.toInt.repr :: rest)
  have ready : iterId.toInt = index ∧
      ∃ newIter, fused.annotateIter stageId iter .vectorize = .ok (vectorized, newIter) :=
    ⟨sameIter, newIter, annotated⟩
  simp only [recordTokens_append, recordTokens_cons, Step.tokens_fuse,
    Step.tokens_annotate]
  simpa [decodeGroup, decodeFuse, stoul_repr same, values, order, span, inner, fusing, staged,
    located', State.vectorize] using ready

theorem drawCount_eq_zero : (drawCount count rand).1 = 0 ↔ count = 0 := by
  unfold drawCount
  split
  · simp
    omega
  · rfl

theorem applyCount_read (present : s.stages[stageId]? = some stage) (some : count ≠ 0)
    (run : applyCount stageId stage s count = .ok s') :
    ∃ out, Appends s s' out ∧ ∀ rest, decodeGroup stageId stage s (out ++ rest) = .ok (s', rest) := by
  match count, some, run with
  | 1, _, run => exact vectorizeLast_read present run
  | count + 2, _, run =>
    simp only [applyCount, bind_ok] at run
    obtain ⟨toFuse, inner, run⟩ := run
    exact fuseAndVectorize_read (by omega) inner run

theorem decodeVectorization_read (run : vectorizeStage policy (s, rand) stageId = .ok (s', rand')) :
    ∃ out, Appends s s' out ∧ ∀ rest, decodeVectorization policy (s, out ++ rest) stageId = .ok (s', rest) := by
  simp only [vectorizeStage, bind_ok, found_ok] at run
  obtain ⟨stage, present, count, counted, _, applied, rfl, -⟩ := run
  by_cases none : count = 0
  · rw [drawCount_eq_zero.mpr none] at applied
    cases applied
    exact ⟨[], .still _, fun rest => by simp [decodeVectorization, present, counted, none]⟩
  · obtain ⟨out, appends, read⟩ := applyCount_read present (mt drawCount_eq_zero.mp none) applied
    refine ⟨out, appends, fun rest => ?_⟩
    simp [decodeVectorization, present, counted, none, read]

end

theorem initVectorization_decoded (policy : SketchPolicy) (s s' : State) (rand rand' : RandGen)
    (run : initVectorization policy s rand = .ok (s', rand')) :
    initVectorizationTokens policy [s]
      (fun _ _ => [recordTokens (s'.transformSteps.drop (s.transformSteps.length + 1))]) =
        .ok [s'] := by
  simp only [initVectorization, State.vectorizationStart, bind_ok, pure_ok] at run
  obtain ⟨stages, counted, _, ⟨stageIds, narrowed, rfl⟩, walk⟩ := run
  obtain ⟨out, appends, read⟩ := foldlM_lockstep Appends.still Appends.chain
    (fun _ round => decodeVectorization_read round)
    (along_of_forall (P := fun _ _ => True) fun _ _ => trivial) walk
  have whole := read []
  rw [List.append_nil] at whole
  rw [initVectorizationTokens, tokenRule_single, ← s.push_length (.vectorizationStart stageIds),
    appends.tokens_eq]
  obtain ⟨most, prompted⟩ : ∃ most, promptVectorization policy s =
      .ok (s.push (.vectorizationStart stageIds), most) := by
    simp [promptVectorization, State.vectorizationStart, counted, narrowed]
  refine ⟨s.push (.vectorizationStart stageIds), most, some s', prompted, ?_, rfl⟩
  simp only [decodeVectorizations, bind_ok]
  exact ⟨some (s', []), guarded_ok_some.mpr whole, rfl⟩

def nestState (iters : List Iterator) : State :=
  ⟨[⟨⟨0, .compute (iters.map fun iter => ⟨iter.name, ⟨.imm 0, .imm 1⟩⟩) [], none⟩, iters, .compute,
    .root, 0, 0⟩], [], .empty, none, true⟩

def nestIter (obj : Nat) (extent : Int32) : Iterator :=
  ⟨obj, "i", some ⟨.imm 0, .imm extent⟩, .spatial, .none⟩

def vectorPolicy : SketchPolicy :=
  ⟨⟨⟨[], fun _ => none, fun _ => none⟩, .cpu⟩, 64, 16, 0⟩

theorem initVectorization_decoded_fused :
    let s := nestState [nestIter 0 2, nestIter 1 2, nestIter 2 2]
    ∃ s' rand', initVectorization vectorPolicy s (fun _ => 1) = .ok (s', rand') ∧
      s'.transformSteps = [.vectorizationStart [0], .fuse 0 [1, 2], .annotate 0 1 .vectorize] ∧
      initVectorizationTokens vectorPolicy [s]
        (fun _ _ => [recordTokens (s'.transformSteps.drop (s.transformSteps.length + 1))]) =
          .ok [s'] :=
  ⟨_, _, rfl, rfl, initVectorization_decoded _ _ _ (fun _ => 1) _ rfl⟩

end Tlm.AutoScheduler
