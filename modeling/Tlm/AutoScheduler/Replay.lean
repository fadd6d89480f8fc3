import Tlm.AutoScheduler.TransformStep
import Tlm.AutoScheduler.TileDecoding

set_option autoImplicit false

namespace Tlm.AutoScheduler

open Cpp

-- `Handler<StateNode>`: the stages are written as an empty array.
def writeState (s : State) : Json :=
  .arr [.arr [], .arr (s.transformSteps.map fun step => .arr step.writeToRecord)]

def readStep : Json → Except Fault Step
  | .arr items => do
      let (step, rest) ← stepReadFromRecord items
      ensure .check rest.isEmpty
      return step
  | _ => .error .check

def readSteps : List Json → Except Fault (List Step)
  | [] => .ok []
  | item :: rest => return (← readStep item) :: (← readSteps rest)

def recordedState (steps : List Step) : State :=
  ⟨[], steps, .empty, none, true⟩

def readState : Json → Except Fault State
  | .arr [.arr [], .arr steps] => return recordedState (← readSteps steps)
  | _ => .error .check

theorem readStep_writeToRecord (step : Step) : readStep (.arr step.writeToRecord) = .ok step.reread := by
  have read := stepReadFromRecord_writeToRecord step []
  rw [List.append_nil] at read
  simp [readStep, read, ensure]

theorem readState_writeState (s : State) :
    readState (writeState s) = .ok (recordedState (s.transformSteps.map Step.reread)) := by
  have steps : ∀ steps : List Step,
      readSteps (steps.map fun step => .arr step.writeToRecord) = .ok (steps.map Step.reread) := by
    intro steps
    induction steps with
    | nil => rfl
    | cons step steps ih =>
      simp [readSteps, readStep_writeToRecord, ih]
  simp [readState, writeState, steps]

def copiesOf (steps : List Step) : List SplitFields :=
  steps.filterMap Step.splitCopy?

def copyAll (copies : List SplitFields) (steps : List Step) : List Step :=
  copies.foldl (fun steps copy => copyLengths copy steps) steps

variable {te : Te} {dag : ComputeDAG} {steps : List Step} {s : State}

theorem replaySteps_history {s' : State} (run : replaySteps te dag steps s = .ok s') :
    s'.transformSteps = copyAll (copiesOf steps) s.transformSteps := by
  -- the position of a step only matters to the steps that add stages
  have from_position : ∀ (steps : List Step) (position : Nat) (s s' : State), (steps.zipIdx position).foldlM
        (fun s numbered => stepApplyToState te dag numbered.2 numbered.1 s) s = .ok s' →
      s'.transformSteps = copyAll (copiesOf steps) s.transformSteps := by
    intro steps
    induction steps with
    | nil =>
      intro position s s' run
      cases run
      rfl
    | cons step steps ih =>
      intro position s s' run
      rw [List.zipIdx_cons, List.foldlM_cons, bind_ok] at run
      obtain ⟨next, first, later⟩ := run
      rw [ih _ _ _ later]
      cases copied : step.splitCopy? with
      | none =>
        rw [stepApplyToState_history first copied, copiesOf, copiesOf, List.filterMap_cons_none copied]
      | some fields =>
        obtain rfl := Step.eq_splitCopy copied
        cases first
        rfl
  exact from_position steps 0 s s' run

def Settled (steps : List Step) : Prop :=
  copyAll (copiesOf steps) steps = steps

def Replays (te : Te) (dag : ComputeDAG) (s : State) : Prop :=
  ∃ read, readState (writeState s) = .ok read ∧ read.transformSteps = s.transformSteps ∧
    ∀ replayed, inferBound te dag read = .ok replayed →
      replayed.transformSteps = s.transformSteps

theorem replayed_history (recordable : ∀ step ∈ s.transformSteps, step.Recordable) :
    ∃ read, readState (writeState s) = .ok read ∧ read.transformSteps = s.transformSteps ∧
      ∀ replayed, inferBound te dag read = .ok replayed →
        replayed.transformSteps = copyAll (copiesOf s.transformSteps) s.transformSteps := by
  have exact : s.transformSteps.map Step.reread = s.transformSteps := by
    conv_rhs => rw [← List.map_id s.transformSteps]
    apply List.map_congr_left
    intro step member
    exact step.reread_eq_self.mpr (recordable step member)
  refine ⟨recordedState s.transformSteps, by rw [readState_writeState, exact], rfl, ?_⟩
  intro replayed run
  obtain ⟨completed, whole, same⟩ := inferBound_ok run
  rw [same]
  simp only [complete, recordedState, List.isEmpty_nil, if_true, rebuild, bind_ok] at whole
  obtain ⟨initState, -, replay⟩ := whole
  rw [replaySteps_history replay]

theorem replays_of_settled (recordable : ∀ step ∈ s.transformSteps, step.Recordable)
    (settled : Settled s.transformSteps) : Replays te dag s := by
  obtain ⟨read, reads, same, replays⟩ := @replayed_history te dag s recordable
  refine ⟨read, reads, same, fun replayed run => ?_⟩
  rw [replays replayed run]
  exact settled

variable {copy : SplitFields}

theorem copyLengths_overwrite {before : SplitFields} (same : copy.key = before.key) (steps : List Step) :
    copyLengths copy (copyLengths before steps) = copyLengths copy steps := by
  induction steps with
  | nil => rfl
  | cons step steps ih =>
    cases step with
    | split target =>
      have key : SplitFields.key { target with lengths := before.lengths } = target.key := rfl
      by_cases hit : target.key = before.key
      · simp [copyLengths, hit, key, same]
      · simp [copyLengths, hit, same, ih]
    | _ => simp [copyLengths, ih]

theorem copyLengths_comm {other : SplitFields} (apart : copy.key ≠ other.key) (steps : List Step) :
    copyLengths copy (copyLengths other steps) = copyLengths other (copyLengths copy steps) := by
  induction steps with
  | nil => rfl
  | cons step steps ih =>
    cases step with
    | split target =>
      have key : ∀ lengths, SplitFields.key { target with lengths } = target.key := fun _ => rfl
      by_cases first : target.key = copy.key
      · simp [copyLengths, first, key, apart]
      · by_cases second : target.key = other.key
        · have back : other.key ≠ copy.key := apart.symm
          simp [copyLengths, second, key, back]
        · simp [copyLengths, first, second, ih]
    | _ => simp [copyLengths, ih]

-- Copies made in between either overwrite an earlier copy or have nothing to do with it.
theorem copyLengths_copyAll (copy : SplitFields) (copies : List SplitFields) (steps : List Step) :
    copyLengths copy (copyAll copies (copyLengths copy steps)) = copyLengths copy (copyAll copies steps) := by
  induction copies generalizing steps with
  | nil => exact copyLengths_overwrite rfl steps
  | cons between copies ih =>
    simp only [copyAll, List.foldl_cons] at ih ⊢
    by_cases same : between.key = copy.key
    · rw [copyLengths_overwrite same]
    · rw [copyLengths_comm same, ih]

theorem copyAll_copyAll (copies : List SplitFields) (steps : List Step) :
    copyAll copies (copyAll copies steps) = copyAll copies steps := by
  induction copies using List.reverseRecOn generalizing steps with
  | nil => rfl
  | append_singleton copies last ih =>
    have final : ∀ steps, copyAll (copies ++ [last]) steps =
        copyLengths last (copyAll copies steps) := fun steps => by simp [copyAll]
    rw [final, final, copyLengths_copyAll, ih]

theorem copiesOf_copyLengths (copy : SplitFields) (steps : List Step) :
    copiesOf (copyLengths copy steps) = copiesOf steps := by
  induction steps with
  | nil => rfl
  | cons step steps ih =>
    cases step with
    | split target =>
      simp only [copyLengths]
      split
      · rfl
      · exact ih
    | splitCopy fields => simpa [copyLengths, copiesOf, Step.splitCopy?] using ih
    | _ => exact ih

theorem copiesOf_copyAll (copies : List SplitFields) (steps : List Step) :
    copiesOf (copyAll copies steps) = copiesOf steps := by
  induction copies generalizing steps with
  | nil => rfl
  | cons copy copies ih => exact (ih _).trans (copiesOf_copyLengths copy steps)

theorem copiesOf_filled (copies : List SplitFields) (bare : copiesOf steps = []) :
    copiesOf (copyAll copies steps ++ copies.map .splitCopy) = copies := by
  have own : copiesOf (copies.map .splitCopy) = copies := by
    simp [copiesOf, Function.comp_def, Step.splitCopy?]
  rw [copiesOf, List.filterMap_append, ← copiesOf, ← copiesOf, copiesOf_copyAll, bare, own, List.nil_append]

-- The walk appends one copy for every split, so nothing older than them decides.
theorem settled_of_copies (copies : List SplitFields) (bare : copiesOf steps = []) :
    Settled (copyAll copies steps ++ copies.map .splitCopy) := by
  rw [Settled, copiesOf_filled copies bare]
  refine (foldl_copyLengths_append copies _ _ ?_).trans ?_
  · simp [Step.split?]
  · exact congrArg (· ++ copies.map Step.splitCopy) (copyAll_copyAll copies steps)

-- Scanned in order, with the iterators that had a split before: no extent is zero, which a record takes
-- for undefined, and only the first split of an iterator, which the copies reach, may have undefined
-- lengths.
def Fillable : List (Int32 × Int32) → List SplitFields → Prop
  | _, [] => True
  | seen, fields :: rest =>
    fields.extent ≠ some 0 ∧
    (fields.key ∈ seen → ∀ length ∈ fields.lengths, length ≠ none) ∧
    Fillable (fields.key :: seen) rest

instance : ∀ (seen : List (Int32 × Int32)) (splits : List SplitFields),
    Decidable (Fillable seen splits)
  | _, [] => isTrue trivial
  | seen, fields :: rest =>
    have := instDecidableFillable (fields.key :: seen) rest
    inferInstanceAs (Decidable (_ ∧ _ ∧ _))

def CopyOf (fields copy : SplitFields) : Prop :=
  ∃ lengths, copy = fields.withLengths lengths

theorem CopyOf.lengths_defined {fields : SplitFields} (made : CopyOf fields copy) :
    ∀ length ∈ copy.lengths, length ≠ none := by
  obtain ⟨lengths, rfl⟩ := made
  simp [SplitFields.withLengths]

theorem chooseAll_copyOf {ε γ : Type} {choose : SplitFields → γ → Except ε (List Int32 × γ)}
    {splits : List SplitFields} {source source' : γ} {copies : List SplitFields}
    (run : chooseAll choose splits source = .ok (copies, source')) :
    List.Forall₂ CopyOf splits copies := by
  induction splits generalizing source source' copies with
  | nil =>
    cases run
    exact .nil
  | cons fields splits ih =>
    simp only [chooseAll, bind_ok, Prod.exists] at run
    obtain ⟨lengths, _, _, later, _, second, rfl, -⟩ := run
    exact .cons ⟨lengths, rfl⟩ (ih second)

variable {splits copies : List SplitFields}

theorem copyOf_keys (made : List.Forall₂ CopyOf splits copies) :
    copies.map SplitFields.key = splits.map SplitFields.key := by
  induction made with
  | nil => rfl
  | cons own made ih =>
    obtain ⟨lengths, rfl⟩ := own
    rw [List.map_cons, List.map_cons, ih]
    rfl

theorem copyOf_of_mem (made : List.Forall₂ CopyOf splits copies) :
    ∀ copy ∈ copies, ∃ fields ∈ splits, CopyOf fields copy := by
  induction made with
  | nil => simp
  | @cons fields copy splits copies own made ih =>
    rw [List.forall_mem_cons]
    refine ⟨⟨fields, by simp, own⟩, ?_⟩
    intro later member
    obtain ⟨source, inside, copied⟩ := ih later member
    exact ⟨source, List.mem_cons_of_mem _ inside, copied⟩

theorem recordable_splits (made : List.Forall₂ CopyOf splits copies) :
    ∀ seen, Fillable seen splits →
      ∀ fields ∈ (copies.filter (·.key ∉ seen)).foldl (fun splits copy => copyFields copy splits)
        splits, fields.Recordable := by
  induction made with
  | nil => simp
  | @cons fields copy splits copies own made ih =>
    rintro seen ⟨nonzero, known, fillable⟩
    have same : copy.key = fields.key := by
      obtain ⟨lengths, rfl⟩ := own
      rfl
    rw [foldl_copyFields_unseen same]
    rw [List.forall_mem_cons]
    refine ⟨⟨nonzero, ?_⟩, ih _ fillable⟩
    -- the last copy for the iterator is the split's own or one of a later split
    have defined : ∀ last ∈ copy :: copies, ∀ length ∈ last.lengths, length ≠ none := by
      intro last member
      obtain ⟨_, -, copied⟩ := copyOf_of_mem (.cons own made) last member
      exact copied.lengths_defined
    by_cases old : fields.key ∈ seen
    · simpa [old] using known old
    · rw [if_neg old]
      cases found : (copies.filter (·.key = fields.key)).getLast? with
      | none => exact defined copy (by simp)
      | some last =>
        have member := List.mem_of_getLast? found
        exact defined last (List.mem_cons_of_mem _ (List.mem_of_mem_filter member))

theorem Fillable.extent_nonzero {seen : List (Int32 × Int32)} (fillable : Fillable seen splits) :
    ∀ fields ∈ splits, fields.extent ≠ some 0 := by
  induction splits generalizing seen with
  | nil => simp
  | cons fields splits ih =>
    rw [List.forall_mem_cons]
    exact ⟨fillable.1, ih fillable.2.2⟩

theorem recordable_copies {seen : List (Int32 × Int32)} (made : List.Forall₂ CopyOf splits copies)
    (fillable : Fillable seen splits) : ∀ copy ∈ copies, copy.Recordable := by
  intro copy member
  obtain ⟨fields, inside, copied⟩ := copyOf_of_mem made copy member
  have nonzero := fillable.extent_nonzero fields inside
  refine ⟨?_, copied.lengths_defined⟩
  obtain ⟨lengths, rfl⟩ := copied
  exact nonzero

theorem recordable_steps (splits : ∀ fields ∈ splitsOf steps, fields.Recordable)
    (copies : ∀ fields ∈ copiesOf steps, fields.Recordable) : ∀ step ∈ steps, step.Recordable := by
  intro step member fields holds
  cases step with
  | split own =>
    obtain rfl : own = fields := by simpa [Step.splitFields?] using holds
    exact splits own (List.mem_filterMap.mpr ⟨_, member, rfl⟩)
  | splitCopy own =>
    obtain rfl : own = fields := by simpa [Step.splitFields?] using holds
    exact copies own (List.mem_filterMap.mpr ⟨_, member, rfl⟩)
  | _ => simp [Step.splitFields?] at holds

end Tlm.AutoScheduler
