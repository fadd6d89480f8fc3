import Tlm.AutoScheduler.SearchUtils
import Tlm.AutoScheduler.Factorization
import Tlm.Shared.Cursor

set_option autoImplicit false

namespace Tlm.AutoScheduler

open Cpp

section

variable {ε γ : Type} (choose : SplitFields → γ → Except ε (List Int32 × γ))

def fillStep (step : Step) (st : State × γ) : Except ε (State × γ) :=
  match step with
  | .split fields => do
      let (lengths, rest) ← choose fields st.2
      return (st.1.splitCopy (fields.withLengths lengths), rest)
  | _ => .ok st

def fillSplits (stuck : ε) (s : State) (source : γ) : Except ε (State × γ) :=
  forItems (fun st => st.1.transformSteps) (fillStep choose) stuck
    (2 * s.transformSteps.length + 1) 0 (s, source)

end

def randomLengths (policy : SketchPolicy) (fields : SplitFields) (rand : RandGen) :
    Except Fault (List Int32 × RandGen) :=
  if fields.lengths.all Option.isSome then mutateTileSize policy fields rand
  else do
    let extent ← found .check fields.extent
    let candidates ←
      getFactorizationSchemes extent fields.lengths.length policy.maxInnermostSplitFactor
    ensure .check (!candidates.isEmpty)
    let (value, rand) := draw rand
    return (← found .undefined candidates[value % candidates.length]?, rand)

def initFillTileSize (policy : SketchPolicy) (s : State) (rand : RandGen) :
    Except Fault (State × RandGen) := do
  let (filled, rand) ← fillSplits (randomLengths policy) .undefined s rand
  return ({ filled with concrete := true }, rand)

def dividesEvenly (extent : Int32) (factors : List Int32) : Bool :=
  let prod := intProduct factors
  !(prod ≤ 0 || extent < prod || extent % prod ≠ 0)

def tokenLengths (policy : SketchPolicy) (fields : SplitFields) : Cursor (List Int32) := do
  let extent ← raise (found .check fields.extent)
  expectToken "SPC"
  expectInt fields.stageId
  expectInt fields.iterId
  expectInt extent
  let factors ← nextInts fields.lengths.length
  require (policy.searchTask.deviceType ≠ .cpu || dividesEvenly extent factors)
  expectInt (if fields.innerToOuter then 1 else 0)
  return factors

def decodeTileSize (policy : SketchPolicy) (s : State) (tokens : List String) :
    Except Fault (Option State) := do
  let filled ← guarded (fillSplits (tokenLengths policy) (.fault .undefined) s tokens)
  return filled.map fun (filled, _) => { filled with concrete := true }

def splitsOf (steps : List Step) : List SplitFields :=
  steps.filterMap Step.split?

def tileSizeGenLen (s : State) : Nat :=
  ((splitsOf s.transformSteps).map fun fields => fields.lengths.length + 5).sum

def initFillTileSizeTokens (policy : SketchPolicy) (states : List State) (genFunc : GenFunc) :
    Except Fault (List State) :=
  tokenRule (fun s => .ok (s, tileSizeGenLen s)) (decodeTileSize policy) states genFunc

theorem copyLengths_append_of_noSplit (fields : SplitFields) (steps extra : List Step)
    (quiet : ∀ step ∈ extra, step.split? = none) :
    copyLengths fields (steps ++ extra) = copyLengths fields steps ++ extra := by
  induction steps with
  | nil =>
    induction extra with
    | nil => rfl
    | cons step extra ih =>
      cases step <;> simp_all [copyLengths, Step.split?]
  | cons step steps ih =>
    cases step with
    | split target =>
      simp only [List.cons_append, copyLengths, ih]
      split <;> rfl
    | _ => simp [copyLengths, ih]

theorem copyLengths_append_of_mem (fields target : SplitFields) (done rest : List Step)
    (same : target.key = fields.key) :
    copyLengths fields (done ++ .split target :: rest) =
      copyLengths fields (done ++ [.split target]) ++ rest := by
  induction done with
  | nil => simp [copyLengths, same]
  | cons step done ih =>
    cases step with
    | split other =>
      simp only [List.cons_append, copyLengths, ih]
      split <;> simp
    | _ => simp [copyLengths, ih]

theorem splitCopy_transformSteps (fields : SplitFields) (s : State) :
    (s.splitCopy fields).transformSteps = copyLengths fields s.transformSteps ++ [.splitCopy fields] :=
  copyLengths_append_of_noSplit fields s.transformSteps [.splitCopy fields] (by simp [Step.split?])

section

variable {ε γ : Type} {choose : SplitFields → γ → Except ε (List Int32 × γ)}

theorem fillStep_quiet {step : Step} {st : State × γ} (quiet : step.split? = none) :
    fillStep choose step st = .ok st := by
  cases step <;> simp_all [fillStep, Step.split?]

theorem fillStep_grows : Grows (fun st : State × γ => st.1.transformSteps) (fillStep choose)
    (fun step => step.split? = none) where
  skip := fillStep_quiet
  step := by
    intro step st st' done rest shape run
    cases chosen : step.split? with
    | none =>
      rw [fillStep_quiet chosen] at run
      cases run
      exact ⟨done ++ [step], [], by simp [shape], by simp, by simp, by simp⟩
    | some fields =>
      obtain rfl := Step.eq_split chosen
      simp only [fillStep, bind_ok, pure_ok, Prod.exists] at run
      obtain ⟨lengths, source, _, rfl⟩ := run
      let copy := fields.withLengths lengths
      refine ⟨copyLengths copy (done ++ [.split fields]), [.splitCopy copy], ?_, ?_,
        by simp [Step.split?], by simp⟩
      · rw [splitCopy_transformSteps, shape, copyLengths_append_of_mem copy fields done rest rfl,
          List.append_assoc]
      · rw [copyLengths_length, List.length_append, List.length_singleton]

def chooseAll (choose : SplitFields → γ → Except ε (List Int32 × γ)) :
    List SplitFields → γ → Except ε (List SplitFields × γ)
  | [], source => .ok ([], source)
  | fields :: rest, source => do
      let (lengths, source) ← choose fields source
      let (copies, source) ← chooseAll choose rest source
      return (fields.withLengths lengths :: copies, source)

theorem fillSplits_eq {stuck : ε} {s : State} {source : γ} :
    fillSplits choose stuck s source =
      (do
        let (copies, source) ← chooseAll choose (splitsOf s.transformSteps) source
        return (copies.foldl (fun s copy => s.splitCopy copy) s, source)) := by
  have walk : ∀ (steps : List Step) (s : State) (source : γ),
      steps.foldlM (fun st step => fillStep choose step st) (s, source) = (do
          let (copies, source) ← chooseAll choose (splitsOf steps) source
          return (copies.foldl (fun s copy => s.splitCopy copy) s, source)) := by
    intro steps
    induction steps with
    | nil => intro s source; rfl
    | cons step steps ih =>
      intro s source
      rw [List.foldlM_cons]
      cases chosen : step.split? with
      | none =>
        rw [fillStep_quiet chosen, splitsOf, List.filterMap_cons_none chosen]
        exact ih s source
      | some fields =>
        obtain rfl := Step.eq_split chosen
        rw [splitsOf, List.filterMap_cons_some chosen, chooseAll, fillStep]
        cases choose fields source with
        | error => rfl
        | ok picked =>
          change steps.foldlM (fun st step => fillStep choose step st) _ = _
          rw [ih]
          cases tail : chooseAll choose (splitsOf steps) picked.2 with
          | error => simp [splitsOf] at tail; simp [tail, bind, Except.bind]
          | ok => simp [splitsOf] at tail; simp [tail, bind, Except.bind, pure, Except.pure]
  rw [fillSplits, forItems_eq_foldlM fillStep_grows (by simp)]
  exact walk _ s source

end

theorem foldl_copyLengths_append (copies : List SplitFields) (steps extra : List Step)
    (quiet : ∀ step ∈ extra, step.split? = none) :
    copies.foldl (fun steps copy => copyLengths copy steps) (steps ++ extra) =
      copies.foldl (fun steps copy => copyLengths copy steps) steps ++ extra := by
  induction copies generalizing steps with
  | nil => rfl
  | cons copy copies ih =>
    rw [List.foldl_cons, copyLengths_append_of_noSplit copy steps extra quiet, ih, List.foldl_cons]

theorem splitCopies_eq (copies : List SplitFields) (s : State) :
    copies.foldl (fun s copy => s.splitCopy copy) s =
      { s with transformSteps :=
          copies.foldl (fun steps copy => copyLengths copy steps) s.transformSteps ++
            copies.map .splitCopy } := by
  induction copies generalizing s with
  | nil => simp
  | cons copy copies ih =>
    rw [List.foldl_cons, ih, splitCopy_transformSteps,
      foldl_copyLengths_append copies _ [.splitCopy copy] (by simp [Step.split?])]
    simp [State.splitCopy, applySplitCopy, State.push]

end Tlm.AutoScheduler
