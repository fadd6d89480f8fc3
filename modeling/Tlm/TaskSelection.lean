import Mathlib.Algebra.GroupWithZero.Nat
import Mathlib.Algebra.Order.Ring.Rat
import Mathlib.Data.Finset.Card
import Mathlib.Data.List.Sort

set_option autoImplicit false

namespace Tlm.TaskSelection

section

variable {Key Name : Type} [DecidableEq Key] [DecidableEq Name]

abbrev History (Key : Type) := Key → List ℚ

abbrev Model (Key : Type) := List (Key × ℚ)

def smoothFrom : ℚ → List ℚ → List ℚ
  | _, [] => []
  | best, x :: rest => min x best :: smoothFrom (min x best) rest

def smooth : List ℚ → List ℚ
  | [] => []
  | x :: rest => x :: smoothFrom x rest

-- What a window leaves in the list of a key, which all models share.
def pad (window : Nat) (best : List ℚ) : List ℚ :=
  smooth best ++ List.replicate (window - best.length) 0

def score (window : Nat) (best : List ℚ) : ℚ :=
  match best.drop (best.length - window) with
  | [] => 0
  | x :: rest => x - rest.foldl min x

-- A key keeps its first place and its last weight.
def dictOf (model : Model Key) : Model Key :=
  model.foldl
    (fun dict entry =>
      if dict.any (·.1 = entry.1) then dict.map fun old => if old.1 = entry.1 then entry else old
      else dict ++ [entry])
    []

def keysOf (model : Model Key) : List Key := (dictOf model).map Prod.fst

def padAll (window : Nat) (model : Model Key) (history : History Key) : History Key :=
  fun key => if key ∈ keysOf model then pad window (history key) else history key

def wantCnt (times : Key → Nat) (model : Model Key) : Int :=
  let count : Int := ((dictOf model).length + 3) / 4
  min count ((20000 - (model.map fun entry => times entry.1).sum - count * 2 * 64) / 64)

def wantList (window : Nat) (model : Model Key) (history : History Key) : List Key :=
  let scores := (dictOf model).map fun entry => (entry.1, score window (history entry.1) * entry.2)
  ((scores.insertionSort fun a b => b.2 ≤ a.2).filter (0 < ·.2)).map Prod.fst

def addNames (name : Key → Name) (want : Int) : List Key → Finset Name → Finset Name
  | [], chosen => chosen
  | key :: rest, chosen =>
    let chosen := insert (name key) chosen
    if chosen.card = want then chosen else addNames name want rest chosen

def selectTasks (name : Key → Name) (times : Key → Nat) (model : Model Key) :
    List Nat → History Key → Finset Name → History Key × Finset Name
  | [], history, chosen => (history, chosen)
  | window :: windows, history, chosen =>
    let history := padAll window model history
    if wantCnt times model ≤ 0 then (history, chosen)
    else
      let chosen := addNames name (wantCnt times model) (wantList window model history) chosen
      if chosen.card = wantCnt times model then (history, chosen)
      else selectTasks name times model windows history chosen

def contribute (name : Key → Name) (times : Key → Nat) (history : History Key) (model : Model Key) :
    History Key × Finset Name :=
  selectTasks name times model (List.range' 3 97) history ∅

def contributions (name : Key → Name) (times : Key → Nat) : History Key → List (Model Key) → List (Finset Name)
  | _, [] => []
  | history, model :: models =>
    let (history, chosen) := contribute name times history model
    chosen :: contributions name times history models

-- No window that the model runs is longer than the list of a key that a later model has as well.
def Fits (name : Key → Name) (times : Key → Nat) (model : Model Key) (later : List (Model Key)) :
    List Nat → History Key → Finset Name → Prop
  | [], _, _ => True
  | window :: windows, history, chosen =>
    (∀ key ∈ keysOf model, ∀ next ∈ later, key ∈ keysOf next → window ≤ (history key).length) ∧
      let history := padAll window model history
      let chosen := addNames name (wantCnt times model) (wantList window model history) chosen
      0 < wantCnt times model → chosen.card ≠ wantCnt times model → Fits name times model later windows history chosen

def AllFit (name : Key → Name) (times : Key → Nat) : History Key → List (Model Key) → Prop
  | _, [] => True
  | history, model :: models =>
    Fits name times model models (List.range' 3 97) history ∅ ∧
      AllFit name times (contribute name times history model).1 models

theorem smoothFrom_idem (best : ℚ) (list : List ℚ) :
    smoothFrom best (smoothFrom best list) = smoothFrom best list := by
  induction list generalizing best with
  | nil => rfl
  | cons x rest ih => simp [smoothFrom, ih]

theorem smooth_idem (list : List ℚ) : smooth (smooth list) = smooth list := by
  cases list <;> simp [smooth, smoothFrom_idem]

theorem length_smoothFrom (best : ℚ) (list : List ℚ) : (smoothFrom best list).length = list.length := by
  induction list generalizing best with
  | nil => rfl
  | cons x rest ih => simp [smoothFrom, ih]

theorem length_of_smooth {a b : List ℚ} (same : smooth a = smooth b) : a.length = b.length := by
  have := congrArg List.length same
  cases a <;> cases b <;> simp_all [smooth, length_smoothFrom]

variable {name : Key → Name} {times : Key → Nat} {model : Model Key} {windows : List Nat}

variable {history : History Key}

theorem selectTasks_congr {other : History Key} (chosen : Finset Name)
    (same : ∀ key ∈ keysOf model, smooth (history key) = smooth (other key)) :
    (selectTasks name times model windows history chosen).2 =
      (selectTasks name times model windows other chosen).2 := by
  induction windows generalizing history other chosen with
  | nil => rfl
  | cons window windows ih =>
    have padded : ∀ key ∈ keysOf model, padAll window model history key = padAll window model other key := by
      intro key member
      simp only [padAll, member, if_true, pad, same key member, length_of_smooth (same key member)]
    have wanted : wantList window model (padAll window model history) =
        wantList window model (padAll window model other) := by
      simp only [wantList]
      congr 3
      refine List.map_congr_left fun entry member => ?_
      rw [padded entry.1 (List.mem_map_of_mem member)]
    simp only [selectTasks, wanted]
    split
    · rfl
    · split
      · rfl
      · exact ih _ fun key member => by rw [padded key member]

theorem selectTasks_smooth {later : List (Model Key)} {chosen : Finset Name} {key : Key}
    (fits : Fits name times model later windows history chosen)
    (needed : ∃ next ∈ later, key ∈ keysOf next) :
    smooth ((selectTasks name times model windows history chosen).1 key) = smooth (history key) := by
  induction windows generalizing history chosen with
  | nil => rfl
  | cons window windows ih =>
    obtain ⟨next, member, inside⟩ := needed
    have step : smooth (padAll window model history key) = smooth (history key) := by
      unfold padAll
      split
      · next shared =>
        have long := fits.1 key shared next member inside
        simp [pad, Nat.sub_eq_zero_of_le long, smooth_idem]
      · rfl
    simp only [selectTasks]
    split
    · exact step
    next wanted =>
      split
      · exact step
      next missing => rw [ih (fits.2 (not_le.mp wanted) missing), step]

variable {models : List (Model Key)}

-- The lists of the keys that are still needed stay as they were, but for the running minimum.
theorem contributions_eq {current : History Key} (fits : AllFit name times current models)
    (same : ∀ model ∈ models, ∀ key ∈ keysOf model, smooth (current key) = smooth (history key)) :
    contributions name times current models =
      models.map fun model => (contribute name times history model).2 := by
  induction models generalizing current with
  | nil => rfl
  | cons model models ih =>
    obtain ⟨here, later⟩ := List.forall_mem_cons.mp same
    simp only [contributions, List.map_cons, contribute, selectTasks_congr ∅ here]
    congr 1
    refine ih fits.2 fun next member key inside => ?_
    rw [← later next member key inside]
    exact selectTasks_smooth fits.1 ⟨next, member, inside⟩

theorem contributions_independent (name : Key → Name) (times : Key → Nat) (history : History Key)
    (fits : AllFit name times history models) :
    contributions name times history models =
      models.map fun model => (contribute name times history model).2 :=
  contributions_eq fits fun _ _ _ _ => rfl

end

def threeKeys (key : Nat) : List ℚ :=
  if key = 0 then [3] else if key = 1 then [9, 5, 5, 5] else [2]

-- Both models stop at the first window, for which the list of the shared key is long enough.
theorem contributions_independent_shared :
    contributions id (fun _ => 0) threeKeys [[(0, 1), (1, 1)], [(1, 1), (2, 1)]] =
      [[(0, 1), (1, 1)], [(1, 1), (2, 1)]].map fun model => (contribute id (fun _ => 0) threeKeys model).2 := by
  apply contributions_independent
  refine ⟨⟨by decide, fun _ missing => absurd ?_ missing⟩, ⟨by decide, fun _ missing => absurd ?_ missing⟩, trivial⟩
  · decide +kernel
  · decide +kernel

theorem padding_shared :
    contributions id (fun _ => 0) threeKeys [[(0, 0), (1, 1)], [(0, 1), (2, 1)]] = [{1}, {2}] ∧
      (contribute id (fun _ => 0) threeKeys [(0, 1), (2, 1)]).2 = {0} := by
  decide +kernel

end Tlm.TaskSelection
