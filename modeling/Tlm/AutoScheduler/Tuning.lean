import Tlm.AutoScheduler.MutateTileSize
import Tlm.AutoScheduler.Replay
import Mathlib.Logic.Relation

set_option autoImplicit false

namespace Tlm.AutoScheduler

open Cpp

-- `GenerateSketches` gives the lengths of the splits that feed an `RfactorStep` up again.
def resetRfactorSplits : List Step → Except Fault (List Step)
  | [] => .ok []
  | .split fields :: .rfactor stageId iterId factorIterId :: rest =>
    return .split { fields with lengths := [none] } :: .rfactor stageId iterId factorIterId ::
      (← resetRfactorSplits rest)
  | .rfactor .. :: _ => .error .check
  | step :: rest => return step :: (← resetRfactorSplits rest)

-- The states of a sketch: any steps, each recorded and applied, except for the split copies.
inductive Sketched (te : Te) (dag : ComputeDAG) : State → Prop
  | init {s : State} (start : State.ofOps dag.ops = .ok s) : Sketched te dag s
  | step {s s' : State} {step : Step} (before : Sketched te dag s)
      (plain : step.splitCopy? = none)
      (run : stepApplyToState te dag s.transformSteps.length step (s.push step) = .ok s') :
      Sketched te dag s'
  | reset {s : State} {steps : List Step} (before : Sketched te dag s)
      (run : resetRfactorSplits s.transformSteps = .ok steps) :
      Sketched te dag { s with transformSteps := steps }

-- A sketch filled at random, then mutated any number of times; the two conditions are on the state that
-- a rule is applied to.
inductive Tuned (te : Te) (dag : ComputeDAG) (policy : SketchPolicy)
    (fillable untouched : State → Prop) : State → Prop
  | filled {s s' : State} {rand rand' : RandGen} (sketch : Sketched te dag s)
      (condition : fillable s) (run : initFillTileSize policy s rand = .ok (s', rand')) :
      Tuned te dag policy fillable untouched s'
  | mutated {s : State} {result : Option State} {rand rand' : RandGen}
      (before : Tuned te dag policy fillable untouched s) (condition : untouched s)
      (run : applyMutateTileSize policy s rand = .ok (result, rand')) :
      Tuned te dag policy fillable untouched (result.getD s)

variable {steps : List Step}

theorem resetRfactorSplits_copies {steps' : List Step} (run : resetRfactorSplits steps = .ok steps') :
    copiesOf steps' = copiesOf steps := by
  induction steps using resetRfactorSplits.induct generalizing steps' with
  | case1 =>
    cases run
    rfl
  | case2 fields stageId iterId factorIterId rest ih =>
    simp only [resetRfactorSplits, bind_ok, pure_ok] at run
    obtain ⟨later, reset, rfl⟩ := run
    change copiesOf later = copiesOf rest
    exact ih reset
  | case3 => simp [resetRfactorSplits] at run
  | case4 step rest plain other ih =>
    rw [resetRfactorSplits.eq_4 _ _ plain other] at run
    simp only [bind_ok, pure_ok] at run
    obtain ⟨later, reset, rfl⟩ := run
    simp only [copiesOf, List.filterMap_cons] at ih ⊢
    rw [ih reset]

variable {s : State} {te : Te} {dag : ComputeDAG}

theorem Sketched.copies_nil (run : Sketched te dag s) : copiesOf s.transformSteps = [] := by
  induction run with
  | init start =>
    have empty := foldlM_inv (P := fun st : State => st.transformSteps = []) (fun {st op st'} before step => by
        simp only [bind_ok, pure_ok] at step
        obtain ⟨stage, _, rfl⟩ := step
        exact before) start rfl
    rw [empty]
    rfl
  | step before plain run ih =>
    rw [stepApplyToState_history run plain, State.push_transformSteps, copiesOf,
      List.filterMap_append, ← copiesOf, ih]
    simp [plain]
  | reset before run ih => exact (resetRfactorSplits_copies run).trans ih

variable {policy : SketchPolicy} {rand rand' : RandGen}

theorem filled_history {s' : State} (run : initFillTileSize policy s rand = .ok (s', rand')) :
    ∃ copies, List.Forall₂ CopyOf (splitsOf s.transformSteps) copies ∧
      s'.transformSteps = copyAll copies s.transformSteps ++ copies.map .splitCopy := by
  simp only [initFillTileSize, fillSplits_eq, bind_ok, Prod.exists] at run
  obtain ⟨_, _, ⟨copies, _, chosen, rfl, -⟩, rfl, -⟩ := run
  refine ⟨copies, chooseAll_copyOf chosen, ?_⟩
  rw [splitCopies_eq]
  rfl

variable {copies : List SplitFields}

theorem filled_recordable (bare : copiesOf steps = [])
    (made : List.Forall₂ CopyOf (splitsOf steps) copies) (fillable : Fillable [] (splitsOf steps)) :
    ∀ step ∈ copyAll copies steps ++ copies.map .splitCopy, step.Recordable := by
  have splits := recordable_splits made [] fillable
  simp only [List.not_mem_nil, not_false_eq_true, decide_true, List.filter_true] at splits
  rw [List.forall_mem_append, List.forall_mem_map]
  constructor
  · apply recordable_steps
    · rw [copyAll, splitsOf_foldl_copyLengths]
      exact splits
    · rw [copiesOf_copyAll, bare]
      simp
  · intro copy member fields holds
    obtain rfl : copy = fields := by simpa [Step.splitFields?] using holds
    exact recordable_copies made fillable copy member

theorem copyAll_absorb {copy : SplitFields} (covered : ∃ later ∈ copies, later.key = copy.key)
    (steps : List Step) : copyAll copies (copyLengths copy steps) = copyAll copies steps := by
  induction copies generalizing steps with
  | nil => simp at covered
  | cons first copies ih =>
    simp only [copyAll, List.foldl_cons] at ih ⊢
    by_cases same : first.key = copy.key
    · rw [copyLengths_overwrite same]
    · obtain ⟨later, member, key⟩ := covered
      have behind : later ∈ copies := by
        rcases List.mem_cons.mp member with rfl | behind
        · exact absurd key same
        · exact behind
      rw [copyLengths_comm same]
      exact ih ⟨later, behind, key⟩ _

def splitKeys (steps : List Step) : List (Int32 × Int32) :=
  (splitsOf steps).map SplitFields.key

theorem splitKeys_copyLengths (copy : SplitFields) (steps : List Step) :
    splitKeys (copyLengths copy steps) = splitKeys steps := by
  rw [splitKeys, splitKeys, splitsOf_copyLengths]
  generalize splitsOf steps = splits
  induction splits with
  | nil => rfl
  | cons fields splits ih =>
    unfold copyFields
    split
    · rfl
    · rw [List.map_cons, List.map_cons, ih]

theorem splitKeys_copyAll (copies : List SplitFields) (steps : List Step) :
    splitKeys (copyAll copies steps) = splitKeys steps := by
  induction copies generalizing steps with
  | nil => rfl
  | cons copy copies ih => exact (ih _).trans (splitKeys_copyLengths copy steps)

variable {stepId : Nat} {fields : SplitFields}

-- Where an iterator is split once, a mutation does what a copy would do, but leaves no copy.
theorem set_eq_copyLengths (once : (splitKeys steps).Nodup)
    (present : steps[stepId]? = some (.split fields)) (lengths : List Int32) :
    steps.set stepId (.split (fields.withLengths lengths)) =
      copyLengths (fields.withLengths lengths) steps := by
  induction steps generalizing stepId with
  | nil => simp at present
  | cons step steps ih =>
    cases stepId with
    | zero =>
      obtain rfl : step = .split fields := by simpa using present
      have same : fields.key = (fields.withLengths lengths).key := rfl
      rw [copyLengths, if_pos same]
      rfl
    | succ stepId =>
      cases step with
      | split target =>
        have inside : fields.key ∈ splitKeys steps :=
          List.mem_map_of_mem (List.mem_filterMap.mpr ⟨_, List.mem_of_getElem? present, rfl⟩)
        have once : target.key ∉ splitKeys steps ∧ (splitKeys steps).Nodup :=
          List.nodup_cons.mp once
        have apart : target.key ≠ (fields.withLengths lengths).key :=
          fun same => once.1 (same ▸ inside)
        rw [copyLengths, if_neg apart, List.set_cons_succ, ih once.2 present]
      | _ => simp [copyLengths, ih once present]

def Mutates (policy : SketchPolicy) (s s' : State) : Prop :=
  ∃ rand rand', applyMutateTileSize policy s rand = .ok (some s', rand')

structure LeadsBack (filled steps : List Step) : Prop where
  copies : copiesOf steps = copiesOf filled
  keys : splitKeys steps = splitKeys filled
  back : copyAll (copiesOf filled) steps = filled
  recordable : ∀ step ∈ steps, step.Recordable

theorem LeadsBack.mutated {filled : List Step} (once : (splitKeys filled).Nodup)
    (covered : ∀ key ∈ splitKeys filled, ∃ copy ∈ copiesOf filled, copy.key = key)
    (leads : LeadsBack filled steps) (present : steps[stepId]? = some (.split fields))
    (lengths : List Int32) : LeadsBack filled (steps.set stepId (.split (fields.withLengths lengths))) := by
  have member : Step.split fields ∈ steps := List.mem_of_getElem? present
  have listed : fields.key ∈ splitKeys filled :=
    leads.keys ▸ List.mem_map_of_mem (List.mem_filterMap.mpr ⟨_, member, rfl⟩)
  have step := set_eq_copyLengths (leads.keys ▸ once) present lengths
  constructor
  · rw [step, copiesOf_copyLengths, leads.copies]
  · rw [step, splitKeys_copyLengths, leads.keys]
  · rw [step, copyAll_absorb, leads.back]
    exact covered _ listed
  · intro other inside
    rcases List.mem_or_eq_of_mem_set inside with old | rfl
    · exact leads.recordable other old
    · have whole := leads.recordable _ member fields rfl
      rintro _ ⟨⟩
      exact ⟨whole.1, by simp [SplitFields.withLengths]⟩

variable {filled : State}

theorem LeadsBack.run (once : (splitKeys filled.transformSteps).Nodup)
    (covered : ∀ key ∈ splitKeys filled.transformSteps, ∃ copy ∈ copiesOf filled.transformSteps,
      copy.key = key) (start : LeadsBack filled.transformSteps filled.transformSteps)
    (mutations : Relation.ReflTransGen (Mutates policy) filled s) :
    LeadsBack filled.transformSteps s.transformSteps := by
  induction mutations with
  | refl => exact start
  | tail _ mutation before =>
    obtain ⟨_, _, run⟩ := mutation
    obtain ⟨stepId, fields, lengths, present, rewritten⟩ := applyMutateTileSize_rewrites run
    rw [rewritten]
    exact before.mutated once covered present lengths

theorem splitKeys_filled (copies : List SplitFields) (steps : List Step) :
    splitKeys (copyAll copies steps ++ copies.map .splitCopy) = splitKeys steps := by
  have noSplits : splitsOf (copies.map .splitCopy) = [] := by
    simp [splitsOf, Step.split?]
  rw [splitKeys, splitsOf, List.filterMap_append, ← splitsOf, ← splitsOf, noSplits, List.append_nil,
    ← splitKeys, splitKeys_copyAll]

theorem replay_undoes_mutations {sketch : State} (sketched : Sketched te dag sketch)
    (fillable : Fillable [] (splitsOf sketch.transformSteps)) (once : (splitKeys sketch.transformSteps).Nodup)
    (fill : initFillTileSize policy sketch rand = .ok (filled, rand'))
    (mutations : Relation.ReflTransGen (Mutates policy) filled s) :
    ∃ read, readState (writeState s) = .ok read ∧ read.transformSteps = s.transformSteps ∧
      ∀ replayed, inferBound te dag read = .ok replayed → replayed.transformSteps = filled.transformSteps := by
  obtain ⟨copies, made, history⟩ := filled_history fill
  have bare := sketched.copies_nil
  have all : copiesOf filled.transformSteps = copies := by rw [history, copiesOf_filled copies bare]
  have keys : splitKeys filled.transformSteps = splitKeys sketch.transformSteps := by
    rw [history, splitKeys_filled]
  have covered : ∀ key ∈ splitKeys filled.transformSteps,
      ∃ copy ∈ copiesOf filled.transformSteps, copy.key = key := by
    intro key listed
    rw [keys, splitKeys, ← copyOf_keys made, List.mem_map] at listed
    rw [all]
    exact listed
  have start : LeadsBack filled.transformSteps filled.transformSteps := by
    refine ⟨rfl, rfl, ?_, ?_⟩
    · rw [history]
      exact settled_of_copies copies bare
    · rw [history]
      exact filled_recordable bare made fillable
  have leads := start.run (keys ▸ once) covered mutations
  obtain ⟨read, reads, same, replays⟩ := @replayed_history te dag s leads.recordable
  refine ⟨read, reads, same, fun replayed run => ?_⟩
  rw [replays replayed run, leads.copies, leads.back]

theorem tuned_replays (te : Te) (dag : ComputeDAG) (policy : SketchPolicy) (s : State)
    (run : Tuned te dag policy (fun s => Fillable [] (splitsOf s.transformSteps))
      (NothingToMutate policy) s) : Replays te dag s := by
  induction run with
  | filled sketch fillable run =>
    obtain ⟨copies, made, history⟩ := filled_history run
    have bare := sketch.copies_nil
    apply replays_of_settled
    · rw [history]
      exact filled_recordable bare made fillable
    · rw [history]
      exact settled_of_copies copies bare
  | mutated before nothing run ih =>
    rw [applyMutateTileSize_invalid nothing run]
    exact ih

def loopDag (extent : Int32) : ComputeDAG :=
  ⟨[⟨0, .compute [⟨"i", ⟨.imm 0, .imm extent⟩⟩] [], none⟩], fun _ => some [], fun _ => some true⟩

def loopPolicy (extent : Int32) : SketchPolicy :=
  ⟨⟨loopDag extent, .cpu⟩, 64, 16, 0⟩

def loopTe : Te :=
  ⟨fun dag _ => .ok dag, fun _ _ => .ok fun _ _ => some ⟨.imm 0, .imm 1⟩⟩

def nestDag : ComputeDAG :=
  ⟨[⟨0, .compute [⟨"i", ⟨.imm 0, .imm 12⟩⟩, ⟨"j", ⟨.imm 0, .imm 10⟩⟩] [], none⟩], fun _ => some [], fun _ => some true⟩

def nestPolicy : SketchPolicy :=
  ⟨⟨nestDag, .cpu⟩, 64, 16, 0⟩

-- Two loops are tiled; a sketch that is filled and not mutated replays as it is.
theorem tuned_replays_nested :
    ∃ s, Tuned loopTe nestDag nestPolicy (fun s => Fillable [] (splitsOf s.transformSteps))
        (NothingToMutate nestPolicy) s ∧
      (splitsOf s.transformSteps).map (·.lengths) = [[some 1, some 3], [some 5]] ∧
      Replays loopTe nestDag s ∧
      ∃ read replayed, readState (writeState s) = .ok read ∧ inferBound loopTe nestDag read = .ok replayed := by
  have outer : Sketched loopTe nestDag _ :=
    @Sketched.step _ _ _ _ (.split ⟨0, 0, some 12, [none, none], true⟩) (.init rfl) rfl rfl
  have sketch : Sketched loopTe nestDag _ :=
    @Sketched.step _ _ _ _ (.split ⟨0, 3, some 10, [none], true⟩) outer rfl rfl
  have filled : Tuned loopTe nestDag nestPolicy (fun s => Fillable [] (splitsOf s.transformSteps))
      (NothingToMutate nestPolicy) _ :=
    @Tuned.filled _ _ _ _ _ _ _ (fun _ => 2) _ sketch (by decide) rfl
  exact ⟨_, filled, by decide, tuned_replays _ _ _ _ filled, _, _, rfl, rfl⟩
-- The mutation moves the factor out of the split, and the replayed copy puts it back.
theorem tuned_replays_undone :
    ∃ s, Tuned loopTe (loopDag 10) (loopPolicy 10)
        (fun s => Fillable [] (splitsOf s.transformSteps)) (fun _ => True) s ∧
      s.transformSteps = [.split ⟨0, 0, some 10, [some 1], true⟩,
        .splitCopy ⟨0, 0, some 10, [some 5], true⟩] ∧
      (∃ read replayed, readState (writeState s) = .ok read ∧
        inferBound loopTe (loopDag 10) read = .ok replayed ∧
        replayed.transformSteps = [.split ⟨0, 0, some 10, [some 5], true⟩,
          .splitCopy ⟨0, 0, some 10, [some 5], true⟩]) ∧
      ¬Replays loopTe (loopDag 10) s := by
  have sketch : Sketched loopTe (loopDag 10) _ :=
    @Sketched.step _ _ _ _ (.split ⟨0, 0, some 10, [none], true⟩) (.init rfl) rfl rfl
  have filled : Tuned loopTe (loopDag 10) (loopPolicy 10)
      (fun s => Fillable [] (splitsOf s.transformSteps)) (fun _ => True) _ :=
    @Tuned.filled _ _ _ _ _ _ _ (fun _ => 2) _ sketch (by decide) rfl
  have mutated := @Tuned.mutated _ _ _ _ _ _ _ (fun _ => 0) _ filled trivial rfl
  refine ⟨_, mutated, rfl, ⟨_, _, rfl, rfl, rfl⟩, ?_⟩
  rintro ⟨read, found, -, same⟩
  cases found
  have undone := same _ rfl
  revert undone
  decide

theorem replay_undoes_mutations_moved :
    ∃ filled s, Mutates (loopPolicy 10) filled s ∧ s.transformSteps ≠ filled.transformSteps ∧
      ∃ read, readState (writeState s) = .ok read ∧ read.transformSteps = s.transformSteps ∧
        ∀ replayed, inferBound loopTe (loopDag 10) read = .ok replayed →
          replayed.transformSteps = filled.transformSteps := by
  have sketch : Sketched loopTe (loopDag 10) _ :=
    @Sketched.step _ _ _ _ (.split ⟨0, 0, some 10, [none], true⟩) (.init rfl) rfl rfl
  refine ⟨_, _, ?_, ?_, @replay_undoes_mutations _ _ _ (loopPolicy 10) (fun _ => 2) _ _ _ sketch (by decide)
    (by decide) rfl (.single ⟨fun _ => 0, _, rfl⟩)⟩
  · exact ⟨fun _ => 0, _, rfl⟩
  · decide

end Tlm.AutoScheduler
