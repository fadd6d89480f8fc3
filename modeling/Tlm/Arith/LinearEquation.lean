import Tlm.Arith.Operators
import Mathlib.Algebra.BigOperators.Group.List.Basic
import Mathlib.Tactic.Ring

set_option autoImplicit false

namespace Tlm.Arith

open Traced

def usesVar (e : PrimExpr) (varSet : Var → Bool) : Bool :=
  e.vars.any varSet

structure LinearEqEntry where
  base : Option PrimExpr
  coeff : Option PrimExpr

def addCombine : Option PrimExpr → Option PrimExpr → Folding (Option PrimExpr)
  | none, b => return b
  | a, none => return a
  | some a, some b => some <$> binaryOp .add a b

def subCombine : Option PrimExpr → Option PrimExpr → Folding (Option PrimExpr)
  | a, none => return a
  | none, some b => some <$> neg b
  | some a, some b => some <$> binaryOp .sub a b

def mulCombine : Option PrimExpr → Option PrimExpr → Folding (Option PrimExpr)
  | some a, some b => some <$> binaryOp .mul a b
  | _, _ => return none

def makeEntry (base coeff : Folding (Option PrimExpr)) : Folding (Option LinearEqEntry) := do
  return some ⟨← base, ← coeff⟩

-- `none` is `fail_`. A product has its constant factor first.
def combineEntries (op : BinOp) (a b : LinearEqEntry) : Folding (Option LinearEqEntry) :=
  match op, a.coeff, b.coeff with
  | .add, _, _ => makeEntry (addCombine a.base b.base) (addCombine a.coeff b.coeff)
  | .sub, _, _ => makeEntry (subCombine a.base b.base) (subCombine a.coeff b.coeff)
  | .mul, none, _ => makeEntry (mulCombine a.base b.base) (mulCombine a.base b.coeff)
  | .mul, _, none => makeEntry (mulCombine b.base a.base) (mulCombine b.base a.coeff)
  | _, _, _ => return none

def visitDefault (v : Var) (e : PrimExpr) : Option LinearEqEntry :=
  if usesVar e (· = v) then none else some ⟨some e, none⟩

def linearEq (v : Var) : PrimExpr → Folding (Option LinearEqEntry)
  | .binary op a b =>
    if op = .add ∨ op = .sub ∨ op = .mul then do
      let some left ← linearEq v a | return none
      let some right ← linearEq v b | return none
      combineEntries op left right
    else return visitDefault v (.binary op a b)
  | .var w => return some (if w = v then ⟨none, some (.intImm v.dtype 1)⟩ else ⟨some (.var w), none⟩)
  | e => return visitDefault v e

def orZero (v : Var) (a : Option PrimExpr) : PrimExpr :=
  a.getD (.intImm v.dtype 0)

def detectEach : List Var → PrimExpr → Folding (Option (List PrimExpr × PrimExpr))
  | [], base => return some ([], base)
  | v :: vars, e => do
    let some ret ← linearEq v e | return none
    let some (coeffs, base) ← detectEach vars (orZero v ret.base) | return none
    return some (orZero v ret.coeff :: coeffs, base)

def usesLater : List Var → List PrimExpr → Bool
  | _ :: vars, coeff :: coeffs => usesVar coeff (· ∈ vars) || usesLater vars coeffs
  | _, _ => false

def detectLinearEquation (e : PrimExpr) (vars : List Var) : Folding (List PrimExpr) := do
  match ← detectEach vars e with
  | none => return []
  | some (coeffs, base) => return if usesLater vars coeffs then [] else coeffs ++ [base]

variable {v : Var} {e : PrimExpr} (a b : Option PrimExpr)

theorem addCombine_exact : Ensures Exact (addCombine a b) fun c => (orZero v c).Renders
    (fun env => (orZero v a).value env + (orZero v b).value env) ((orZero v a).vars ++ (orZero v b).vars) := by
  match a, b with
  | none, b => exact ensures_pure ((PrimExpr.Renders.refl _).mono (fun env => (zero_add _).symm) (fun _ => id))
  | some a, none =>
    exact ensures_pure ((PrimExpr.Renders.refl a).mono (fun env => (add_zero _).symm) (List.subset_append_left _ _))
  | some a, some b =>
    exact ensures_bind (binaryOp_exact (.refl a) (.refl b) (.inl rfl)) fun _ renders => ensures_pure renders

theorem subCombine_exact : Ensures Exact (subCombine a b) fun c => (orZero v c).Renders
    (fun env => (orZero v a).value env - (orZero v b).value env) ((orZero v a).vars ++ (orZero v b).vars) := by
  match a, b with
  | a, none =>
    exact ensures_pure ((PrimExpr.Renders.refl _).mono (fun env => (sub_zero _).symm) (List.subset_append_left _ _))
  | none, some b =>
    refine ensures_bind (neg_exact b) fun c renders => ensures_pure ?_
    exact renders.mono (fun env => (zero_sub _).symm) (fun _ => id)
  | some a, some b =>
    exact ensures_bind (binaryOp_exact (.refl a) (.refl b) (.inr (.inl rfl))) fun _ renders => ensures_pure renders

theorem mulCombine_exact : Ensures Exact (mulCombine a b) fun c => (orZero v c).Renders
    (fun env => (orZero v a).value env * (orZero v b).value env) ((orZero v a).vars ++ (orZero v b).vars) := by
  match a, b with
  | none, b => exact ensures_pure (renders_intImm (fun env => zero_mul _) _ _)
  | some a, none => exact ensures_pure (renders_intImm (fun env => mul_zero _) _ _)
  | some a, some b =>
    exact ensures_bind (binaryOp_exact (.refl a) (.refl b) (.inr (.inr rfl))) fun _ renders => ensures_pure renders

-- What is left of an expression where the variable is taken out.
structure LinearEqEntry.Splits (entry : LinearEqEntry) (v : Var) (e : PrimExpr) : Prop where
  value : ∀ env, e.value env = (orZero v entry.coeff).value env * env.var v + (orZero v entry.base).value env
  fresh : ∀ w, w ∈ (orZero v entry.coeff).vars ∨ w ∈ (orZero v entry.base).vars → w ∈ e.vars ∧ w ≠ v

theorem makeEntry_exact {base coeff : Folding (Option PrimExpr)} {f g : Env → Int} {us vs : List Var}
    (bases : Ensures Exact base fun c => (orZero v c).Renders f us)
    (coeffs : Ensures Exact coeff fun c => (orZero v c).Renders g vs)
    (value : ∀ env, e.value env = g env * env.var v + f env)
    (fresh : ∀ w, w ∈ us ∨ w ∈ vs → w ∈ e.vars ∧ w ≠ v) :
    Ensures Exact (makeEntry base coeff) fun ret => ∀ entry, ret = some entry → entry.Splits v e := by
  refine ensures_bind bases fun base rendersBase => ensures_bind coeffs fun coeff rendersCoeff => ensures_pure ?_
  rintro _ ⟨⟩
  refine ⟨fun env => ?_, fun w used => fresh w ?_⟩
  · rw [value, rendersBase.value, rendersCoeff.value]
  · exact used.symm.imp (rendersBase.fresh w) (rendersCoeff.fresh w)

theorem combineEntries_splits (op : BinOp) {x y : LinearEqEntry} {a b : PrimExpr} (left : x.Splits v a)
    (right : y.Splits v b) : Ensures Exact (combineEntries op x y) fun ret =>
      ∀ entry, ret = some entry → entry.Splits v (.binary op a b) := by
  have zero (env : Env) : (orZero v none).value env = 0 := rfl
  have freshA := left.fresh
  have freshB := right.fresh
  unfold combineEntries
  split
  · apply makeEntry_exact (addCombine_exact _ _) (addCombine_exact _ _)
    · intro env
      simp only [PrimExpr.value, BinOp.apply, left.value, right.value]
      ring
    · grind [PrimExpr.vars]
  · apply makeEntry_exact (subCombine_exact _ _) (subCombine_exact _ _)
    · intro env
      simp only [PrimExpr.value, BinOp.apply, left.value, right.value]
      ring
    · grind [PrimExpr.vars]
  next constant =>
    apply makeEntry_exact (mulCombine_exact _ _) (mulCombine_exact _ _)
    · intro env
      simp only [PrimExpr.value, BinOp.apply, left.value, right.value, constant, zero]
      ring
    · grind [PrimExpr.vars]
  next constant _ =>
    apply makeEntry_exact (mulCombine_exact _ _) (mulCombine_exact _ _)
    · intro env
      simp only [PrimExpr.value, BinOp.apply, left.value, right.value, constant, zero]
      ring
    · grind [PrimExpr.vars]
  · exact ensures_pure (by simp)

theorem visitDefault_splits {entry : LinearEqEntry} (found : visitDefault v e = some entry) : entry.Splits v e := by
  unfold visitDefault at found
  split at found
  · cases found
  next unused =>
    cases found
    simp only [usesVar, List.any_eq_true, decide_eq_true_eq, not_exists, not_and] at unused
    exact ⟨by simp [orZero, PrimExpr.value], by simp +contextual [orZero, PrimExpr.vars, unused]⟩

theorem linearEq_splits (v : Var) (e : PrimExpr) :
    Ensures Exact (linearEq v e) fun ret => ∀ entry, ret = some entry → entry.Splits v e := by
  induction e with
  | binary op a b iha ihb =>
    unfold linearEq
    split
    · refine ensures_bind iha fun left splitsA => ?_
      cases left with
      | none => exact ensures_pure (by simp)
      | some left =>
        refine ensures_bind ihb fun right splitsB => ?_
        cases right with
        | none => exact ensures_pure (by simp)
        | some right => exact combineEntries_splits op (splitsA left rfl) (splitsB right rfl)
    · exact ensures_pure fun _ => visitDefault_splits
  | var w =>
    apply ensures_pure
    rintro _ ⟨⟩
    by_cases same : w = v
    · exact ⟨by simp [orZero, PrimExpr.value, same], by simp [orZero, PrimExpr.vars, same]⟩
    · exact ⟨by simp [orZero, PrimExpr.value, same], by simp [orZero, PrimExpr.vars, same]⟩
  | intImm | not | select | letIn | cast | atom => exact ensures_pure fun _ => visitDefault_splits

-- The coefficients and the base of `e`, once no coefficient has a later variable.
structure Linear (e : PrimExpr) (vars : List Var) (coeffs : List PrimExpr) (base : PrimExpr) : Prop where
  length : coeffs.length = vars.length
  fresh : ∀ entry ∈ coeffs ++ [base], ∀ w ∈ entry.vars, w ∈ e.vars ∧ w ∉ vars
  value : ∀ env, e.value env =
    (List.zipWith (fun coeff v => coeff.value env * env.var v) coeffs vars).sum + base.value env

theorem detectEach_linear (vars : List Var) (e : PrimExpr) : Ensures Exact (detectEach vars e) fun ret =>
    ∀ coeffs base, ret = some (coeffs, base) → usesLater vars coeffs = false → Linear e vars coeffs base := by
  induction vars generalizing e with
  | nil =>
    apply ensures_pure
    rintro _ _ ⟨⟩ -
    exact ⟨rfl, by simp, by simp⟩
  | cons v vars ih =>
    refine ensures_bind (linearEq_splits v e) fun ret splits => ?_
    cases ret with
    | none => exact ensures_pure (by simp)
    | some entry =>
      refine ensures_bind (ih _) fun rest linear => ?_
      cases rest with
      | none => exact ensures_pure (by simp)
      | some rest =>
        obtain ⟨coeffs, base⟩ := rest
        apply ensures_pure
        rintro _ _ ⟨⟩ apart
        simp only [usesLater, usesVar, Bool.or_eq_false_iff, List.any_eq_false, decide_eq_true_eq] at apart
        obtain ⟨value, own⟩ := splits entry rfl
        obtain ⟨size, fresh, sum⟩ := linear coeffs base rfl apart.2
        refine ⟨by simp [size], ?_, fun env => by simp [value, sum, add_assoc]⟩
        rw [List.cons_append, List.forall_mem_cons]
        grind

theorem detectLinearEquation_exact {vars : List Var} {entries : List PrimExpr}
    (found : (detectLinearEquation e vars).result = .ok entries) (some : entries ≠ [])
    (exact : Event.inexact ∉ (detectLinearEquation e vars).log) :
    ∃ coeffs base, entries = coeffs ++ [base] ∧ coeffs.length = vars.length ∧
      (∀ entry ∈ entries, ∀ v ∈ vars, v ∉ entry.vars) ∧ ∀ env, e.value env =
        (List.zipWith (fun coeff v => coeff.value env * env.var v) coeffs vars).sum + base.value env := by
  have run : Ensures Exact (detectLinearEquation e vars) fun entries => entries ≠ [] →
      ∃ coeffs base, entries = coeffs ++ [base] ∧ Linear e vars coeffs base := by
    refine ensures_bind (detectEach_linear vars e) fun ret linear => ?_
    rcases ret with _ | ⟨coeffs, base⟩
    · exact ensures_pure fun some => absurd rfl some
    · apply ensures_pure
      intro some
      split at some
      · exact absurd rfl some
      next apart => exact ⟨coeffs, base, if_neg apart, linear coeffs base rfl (by simpa using apart)⟩
  obtain ⟨coeffs, base, rfl, linear⟩ := run (fun event mem same => exact (same ▸ mem)) entries found some
  exact ⟨coeffs, base, rfl, linear.length, fun entry listed v member used => (linear.fresh entry listed v used).2 member,
    linear.value⟩

def intVar (id : Nat) : Var := ⟨id, .int32, false⟩

-- `(x * 2 + 3) - y * (x - 5)`.
def crossed : PrimExpr :=
  .binary .sub (.binary .add (.binary .mul (.var (intVar 0)) (.intImm .int32 2)) (.intImm .int32 3))
    (.binary .mul (.var (intVar 1)) (.binary .sub (.var (intVar 0)) (.intImm .int32 5)))

theorem detectLinearEquation_exact_crossed :
    ∃ coeff base, (detectLinearEquation crossed [intVar 1]).result = .ok [coeff, base] ∧
      ∀ env, crossed.value env = coeff.value env * env.var (intVar 1) + base.value env := by
  refine ⟨_, _, rfl, ?_⟩
  obtain ⟨coeffs, base, same, -, -, value⟩ :=
    @detectLinearEquation_exact crossed [intVar 1] _ rfl (by decide) (by decide +kernel)
  obtain ⟨rfl, rfl⟩ : coeffs = [_] ∧ base = _ := List.append_inj' same.symm rfl |>.imp id List.head_eq_of_cons_eq
  simpa using value

-- `(x + 2147483647) + 1`.
def lastStep : PrimExpr :=
  .binary .add (.binary .add (.var (intVar 0)) (.intImm .int32 2147483647)) (.intImm .int32 1)

-- The base is folded in `int32`, where it wraps around.
theorem base_wraps :
    (detectLinearEquation lastStep [intVar 0]).result = .ok [.intImm .int32 1, .intImm .int32 (-2147483648)] ∧
      ∀ env, lastStep.value env = 1 * env.var (intVar 0) + 2147483648 := by
  refine ⟨by decide, fun env => ?_⟩
  simp only [lastStep, PrimExpr.value, BinOp.apply]
  omega

end Tlm.Arith
