import Tlm.Arith.RewriteSimplifySound

set_option autoImplicit false

namespace Tlm.Arith.RewriteSimplifier

open Traced

def EventFine (env : Env) (trunc logic : Bool) : Event → Prop
  | .overflow | .inexact => False
  | .unmet => logic = false
  | .assumed e k => trunc = true → 0 ≤ e.value env + k

instance (env : Env) (trunc logic : Bool) : DecidablePred (EventFine env trunc logic)
  | .overflow | .inexact => inferInstanceAs (Decidable False)
  | .unmet => inferInstanceAs (Decidable (logic = false))
  | .assumed e k => inferInstanceAs (Decidable (trunc = true → 0 ≤ e.value env + k))

section

variable {dtype : DataType} (isIndex : dtype.isIndexType = true) (env : Env)

-- Arithmetic with `floordiv` and `floormod`.
def floorSetting : Setting where
  dtype
  isIndex
  trunc := false
  strict := false
  logic := false
  full := by simp
  env
  fine := EventFine env false false
  exact := id
  bounded := id
  met := by simp
  nonneg := by simp

-- Arithmetic with `truncdiv` and `truncmod` as well.
def truncSetting : Setting where
  dtype
  isIndex
  trunc := true
  strict := false
  logic := false
  full := by simp
  env
  fine := EventFine env true false
  exact := id
  bounded := id
  met := by simp
  nonneg _ _ _ fine := fine rfl

-- Comparisons and formulas. If `strict`, divisors are constants.
def logicSetting (strict : Bool) : Setting where
  dtype
  isIndex
  trunc := true
  strict
  logic := true
  full := by simp
  env
  fine := EventFine env true true
  exact := id
  bounded := id
  met := by simp [EventFine]
  nonneg _ _ _ fine := fine rfl

end

variable {setting : Setting} {analyzer : Analyzer} {state : State} {e : PrimExpr}

theorem simplify_keeps (trusted : analyzer.Trusted setting) (fuel : Nat) (facts : Facts setting.env state.scope)
    (literals : ∀ literal ∈ state.literals, literal.value setting.env ≠ 0) (kind : Kind) {v : Int}
    (means : setting.Means kind e v)
    (fine : ∀ event ∈ (simplify analyzer fuel state e).log, setting.fine event) :
    ∃ out, (simplify analyzer fuel state e).result = .ok out ∧ out.value setting.env = v := by
  have ok : state.Ok setting := ⟨.inr facts, fun _ => literals⟩
  obtain ⟨out, returned, w, means', same⟩ := simplify_returns trusted fuel ok kind e v means fine
  exact ⟨out, returned, by rw [means'.value, same facts]⟩

open ConstIntBound in
def knowing (least : Var → Option Int) : Queries where
  sameAs _ _ := false
  eq_of_sameAs := by simp
  canProveGreaterEqual e k :=
    match e with
    | .intImm _ value => decide (k ≤ value)
    | .var v => (least v).any (k ≤ ·)
    | _ => false
  canProveLess e k := e.asIntImm.any (· < k)
  canProveEqual e k := e.asIntImm.any (· = k)
  constIntBound e :=
    match e with
    | .intImm _ value =>
      if kNegInf < value ∧ value < kPosInf then ⟨value, value⟩ else ⟨kNegInf, kPosInf⟩
    | _ => ⟨kNegInf, kPosInf⟩
  modularSet _ := ModularSet.everything
  knownInequality _ _ := .unknown

variable {least : Var → Option Int}

theorem knowing_sound {env : Env} (bounds : ∀ v k, least v = some k → k ≤ env.var v) : (knowing least).Sound env where
  greaterEqual e _ k answer := by
    simp only [knowing] at answer
    split at answer
    · simpa [PrimExpr.value] using answer
    next v _ =>
      cases known : least v with
      | none => simp [known] at answer
      | some bound =>
        simp only [known, Option.any_some, decide_eq_true_eq] at answer
        exact answer.trans (bounds v bound known)
    · cases answer
  less e _ k answer := by
    cases e <;> simp_all [knowing, PrimExpr.asIntImm, PrimExpr.value]
  equal e _ k answer := by
    cases e <;> simp_all [knowing, PrimExpr.asIntImm, PrimExpr.value]
  bound e _ := by
    simp only [knowing]
    split
    · split
      next finite => exact ⟨.inr ⟨finite.2, le_rfl⟩, .inr ⟨finite.1, le_rfl⟩⟩
      · exact ⟨.inl rfl, .inl rfl⟩
    · exact ⟨.inl rfl, .inl rfl⟩
  modular e _ := ModularSet.everything_contains _
  compare _ _ _ _ := trivial

def knowingAnalyzer (dtype : DataType) (least : Var → Option Int) (applyConstraints : Bool) :
    Analyzer :=
  ⟨dtype, fun _ => none, fun _ _ => knowing least, applyConstraints⟩

theorem knowingAnalyzer_trusted {dtype : DataType} {applyConstraints : Bool}
    (same : dtype = setting.dtype) (bounds : ∀ v k, least v = some k → k ≤ setting.env.var v)
    (strict : applyConstraints = true → setting.strict = true) :
    (knowingAnalyzer dtype least applyConstraints).Trusted setting where
  dtype := same
  infos := by simp [knowingAnalyzer]
  sound _ _ _ := knowing_sound bounds
  strict := strict

theorem int32_isIndex : DataType.int32.isIndexType = true := rfl

theorem int64_isIndex : DataType.int64.isIndexType = true := rfl

def unknown (dtype : DataType) : PrimExpr := .var ⟨0, dtype, false⟩

def assign (x : Int) : Env := ⟨fun _ => x, fun _ => 0⟩

def noContext : State := ⟨[], []⟩

-- `floordiv(x * 4 + 6, 2)` and `floordiv(x * 2 ^ 33, 2)`.
def evenQuotient : PrimExpr :=
  .binary .floorDiv (.binary .add (.binary .mul (unknown .int64) (.intImm .int64 4))
    (.intImm .int64 6)) (.intImm .int64 2)

def largeQuotient : PrimExpr :=
  .binary .floorDiv (.binary .mul (unknown .int64) (.intImm .int64 (2 ^ 33))) (.intImm .int64 2)

-- `min(x, 2147483646) - min(y, -2)`. A rule for differences of minima is tried, and the difference of its constants
-- leaves the type, but it is not applied.
def minimaDifference : PrimExpr :=
  .binary .sub (.binary .min (unknown .int32) (.intImm .int32 2147483646))
    (.binary .min (.var ⟨1, .int32, false⟩) (.intImm .int32 (-2)))

-- `truncdiv(x + 7, 3) - truncdiv(x + 5, 3)`.
def quotientDifference : PrimExpr :=
  .binary .sub (.binary .div (.binary .add (unknown .int32) (.intImm .int32 7)) (.intImm .int32 3))
    (.binary .div (.binary .add (unknown .int32) (.intImm .int32 5)) (.intImm .int32 3))

def boundedAnalyzer : Analyzer := knowingAnalyzer .int32 (fun _ => some (-5)) false

theorem boundedAnalyzer_trusted {x : Int} (bound : -5 ≤ x) :
    boundedAnalyzer.Trusted (truncSetting int32_isIndex (assign x)) :=
  knowingAnalyzer_trusted rfl (by simp [truncSetting, assign, bound]) (by simp)

theorem quotientDifference_log :
    (simplify boundedAnalyzer 0 noContext quotientDifference).log = [.assumed (unknown .int32) 2] := by
  decide +kernel

theorem logic_kept {dtype : DataType} (isIndex : dtype.isIndexType = true) {env : Env} {strict : Bool}
    (trusted : analyzer.Trusted (logicSetting isIndex env strict)) (fuel : Nat)
    (facts : Facts env state.scope) (literals : ∀ literal ∈ state.literals, literal.value env ≠ 0)
    (formula : e.HasKind dtype true strict .bool) (defined : e.Defined env)
    (fine : ∀ event ∈ (simplify analyzer fuel state e).log, EventFine env true true event) :
    ∃ out, (simplify analyzer fuel state e).result = .ok out ∧ out.value env = e.value env :=
  simplify_keeps trusted fuel facts literals .bool ⟨formula, fun _ => rfl, defined, rfl⟩ fine

def plainAnalyzer (applyConstraints : Bool) : Analyzer :=
  knowingAnalyzer .int32 (fun _ => none) applyConstraints

theorem plainAnalyzer_trusted (x : Int) (applyConstraints : Bool) :
    (plainAnalyzer applyConstraints).Trusted (logicSetting int32_isIndex (assign x) applyConstraints) :=
  knowingAnalyzer_trusted rfl (by simp) (by simp [logicSetting])

-- `floordiv(x, 3)` and `max(x, floormod(x, -3))`.
def third : PrimExpr :=
  .binary .floorDiv (unknown .int32) (.intImm .int32 3)

def maximum : PrimExpr :=
  .binary .max (unknown .int32) (.binary .floorMod (unknown .int32) (.intImm .int32 (-3)))

-- `floordiv(x, c) == 1 && floormod(x, c) < 1`.
def firstMultiple (c : Int) : PrimExpr :=
  .binary .and (.binary .eq (.binary .floorDiv (unknown .int32) (.intImm .int32 c)) (.intImm .int32 1))
    (.binary .lt (.binary .floorMod (unknown .int32) (.intImm .int32 c)) (.intImm .int32 1))

-- `x < 0 && floormod(x, -3) < 0`.
def below : PrimExpr :=
  .binary .and (.binary .lt (unknown .int32) (.intImm .int32 0))
    (.binary .lt (.binary .floorMod (unknown .int32) (.intImm .int32 (-3))) (.intImm .int32 0))

end Tlm.Arith.RewriteSimplifier
