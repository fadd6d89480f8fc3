import Tlm.Arith.ModularSet

set_option autoImplicit false

namespace Tlm.Arith.ModularSet

open Cpp

-- A `Let` is an expression to ask about.
inductive Operation where
  | query (e : PrimExpr)
  | update (v : Var) (coeff base : Int) (allowOverride : Bool)

section

-- What the parent proves may depend on the map of this analyzer.
variable (proves : State → PrimExpr → Bool)

def State.step (state : State) : Operation → Except Fault (Option Entry) × State
  | .query e => (some <$> state.visitExpr (proves state) e, state)
  | .update v coeff base allowOverride =>
    match state.update v coeff base allowOverride with
    | .ok next => (.ok none, next)
    | .error fault => (.error fault, state)

def State.run (state : State) : List Operation → List (Except Fault (Option Entry)) × State
  | [] => ([], state)
  | operation :: rest =>
    let (answer, next) := state.step proves operation
    let (answers, last) := run next rest
    (answer :: answers, last)

def leave (recovery : Option Recovery) (state : State) : State :=
  match recovery with
  | some recovery => recovery.run state
  | none => state

variable {proves} {state inner : State} {constraint : PrimExpr} {recovery : Option Recovery}

theorem run_queries (queries : List PrimExpr) : (state.run proves (queries.map .query)).2 = state := by
  induction queries with
  | nil => rfl
  | cons query rest ih => simpa [State.run, State.step] using ih

theorem leave_eq (entered : state.enterConstraint constraint = .ok (inner, recovery))
    (known : ∀ fact, matchConstraint constraint = some fact → (state fact.var).isSome = true) :
    leave recovery inner = state := by
  rcases enterConstraint_cases entered with
    ⟨-, rfl, rfl⟩ | ⟨fact, _, entry, found, -, -, rfl, rfl⟩
  · rfl
  · obtain ⟨old, present⟩ := Option.isSome_iff_exists.1 (known fact found)
    simp only [leave, Recovery.run, present, Option.getD_some, Function.update_idem]
    rw [← present, Function.update_eq_self]

theorem update_refused (fact : Fact) (missing : state fact.var = none)
    (found : matchConstraint constraint = some fact)
    (entered : state.enterConstraint constraint = .ok (inner, recovery)) :
    (state.run proves [.update fact.var 2 0 false]).1 = [.ok none] ∧
      ((leave recovery inner).run proves [.update fact.var 2 0 false]).1 = [.error .check] := by
  rcases enterConstraint_cases entered with
    ⟨none, -, -⟩ | ⟨other, _, entry, hit, -, -, rfl, rfl⟩
  · simp [found] at none
  · rw [found, Option.some.injEq] at hit
    subst hit
    constructor
    · have made : Entry.make 2 0 = .ok ⟨2, 0, by decide, by decide, by decide⟩ := rfl
      simp [State.run, State.step, State.update, missing, ensure, made, ok_bind]
    · simp [State.run, State.step, State.update, leave, Recovery.run, missing, ensure, everything, error_bind]

theorem restored_iff (entered : state.enterConstraint constraint = .ok (inner, recovery)) :
    (∀ (queries : List PrimExpr) (operations : List Operation),
      (∀ query ∈ queries, ∃ entry, inner.visitExpr (proves inner) query = .ok entry) →
      ((leave recovery (inner.run proves (queries.map .query)).2).run proves operations).1 =
        (state.run proves operations).1) ↔
      ∀ fact, matchConstraint constraint = some fact → (state fact.var).isSome = true := by
  constructor
  · intro same fact found
    by_contra missing
    rw [Option.not_isSome_iff_eq_none] at missing
    have refused := @update_refused proves _ _ _ _ fact missing found entered
    have equal := same [] [.update fact.var 2 0 false] (by simp)
    rw [run_queries, refused.1, refused.2] at equal
    simp at equal
  · intro known queries operations _
    rw [run_queries, leave_eq entered known]

theorem restored_iff_known :
    let x : Var := ⟨0, .int32, false⟩
    let state : State := Function.update (fun _ => none) x
      (some ⟨4, 1, by decide, by decide, by decide⟩)
    let inner : State := Function.update state x (some ⟨8, 5, by decide, by decide, by decide⟩)
    let recovery : Recovery := ⟨x, ⟨4, 1, by decide, by decide, by decide⟩⟩
    ∀ operations, ((leave (some recovery) inner).run (fun _ _ => false) operations).1 =
      (state.run (fun _ _ => false) operations).1 := by
  intro x state inner recovery operations
  let constraint : PrimExpr :=
    .binary .eq (.binary .floorMod (.var x) (.intImm .int32 8)) (.intImm .int32 5)
  have entered : state.enterConstraint constraint = .ok (inner, some recovery) := rfl
  have known : ∀ fact, matchConstraint constraint = some fact → (state fact.var).isSome = true := by
    intro fact found
    cases found
    rfl
  exact (restored_iff entered).2 known [] operations (by simp)

theorem scope_leaves_entry :
    let x : Var := ⟨0, .int32, false⟩
    let constraint : PrimExpr :=
      .binary .eq (.binary .floorMod (.var x) (.intImm .int32 2)) (.intImm .int32 0)
    let outer : State := fun _ => none
    let four : PrimExpr := .letIn x (.intImm .int32 4) (.var x)
    ∃ inner recovery, outer.enterConstraint constraint = .ok (inner, recovery) ∧
      (outer.run (fun _ _ => false) [.query four, .update x 3 1 false]).1 =
        [.ok (some ⟨0, 4, by decide, by decide, by decide⟩), .ok none] ∧
      ((leave recovery inner).run (fun _ _ => false) [.query four, .update x 3 1 false]).1 =
        [.ok (some everything), .error .check] := by
  intro x constraint outer four
  exact ⟨Function.update outer x (some ⟨2, 0, by decide, by decide, by decide⟩),
    some ⟨x, everything⟩, rfl, rfl, rfl⟩

end

end Tlm.Arith.ModularSet
