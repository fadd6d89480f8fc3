import Tlm.Arith.RewriteLogicSound
import Tlm.Arith.RewriteSimplify

set_option autoImplicit false

namespace Tlm.Arith.RewriteSimplifier

open Traced

theorem index_rules_sound : ∀ rule ∈ addRules ++ subRules ++ mulRules ++ divRules ++ modRules ++
    (floorDivNested ++ floorDivSplit ++ floorDivCancellation) ++ floorModRules ++
    (minSame ++ minRules) ++ (maxSame ++ maxRules), rule.Sound := by
  have order := order_sound
  have products := product_sound
  have divMod := minMaxDivMod_sound
  have scaling := minMaxScaling_sound
  have floorMul := subFloorMul_sound
  simp only [addRules, subRules, divRules, minRules, maxRules, List.forall_mem_append] at *
  simp_all [addCancellation_sound, addDivMod_sound, addCanonical_sound, subMinMax_sound,
    subTruncDiv_sound, subTruncDifference_sound, subFloorHalves_sound, subFloorDifference_sound,
    mulRules_sound, divFolding_sound, divSplit_sound, divCancellation_sound, modRules_sound,
    floorDivNested_sound, floorDivSplit_sound, floorDivCancellation_sound, floorModRules_sound]

theorem map_apply_sound {rules : List Rule} (sound : ∀ rule ∈ rules, rule.Sound) :
    ∀ step ∈ rules.map Rule.apply, Step.Sound step := by
  simpa using fun rule mem => Rule.apply_sound (sound rule mem)

theorem indexSteps_sound (op : BinOp) : ∀ step ∈ indexSteps op, Step.Sound step := by
  have rules := index_rules_sound
  simp only [List.forall_mem_append] at rules
  obtain ⟨⟨⟨⟨⟨⟨⟨⟨add, sub⟩, mul⟩, div⟩, mod⟩, ⟨nested, split⟩, cancel⟩, floorMod⟩, minFirst, min⟩,
    maxFirst, max⟩ := rules
  cases op <;> simp only [indexSteps, List.forall_mem_append, List.forall_mem_singleton,
    List.map_append, List.not_mem_nil, false_imp_iff, implies_true]
  case add => exact map_apply_sound add
  case sub => exact map_apply_sound sub
  case mul => exact map_apply_sound mul
  case div => exact map_apply_sound div
  case mod => exact ⟨map_apply_sound mod, modModular_sound⟩
  case floorDiv =>
    exact ⟨⟨map_apply_sound nested, floorDivResidue_sound⟩, map_apply_sound split, map_apply_sound cancel⟩
  case floorMod => exact ⟨map_apply_sound floorMod, floorModAnalysis_sound⟩
  case min => exact ⟨⟨map_apply_sound minFirst, minBounds_sound⟩, map_apply_sound min⟩
  case max => exact ⟨⟨map_apply_sound maxFirst, maxBounds_sound⟩, map_apply_sound max⟩

section

variable {setting : Setting} {queries : Queries} {facts : Prop} {again : PrimExpr → Folding PrimExpr}
  {kind : Kind} {e : PrimExpr} {v : Int}

theorem keeps_mono {stronger : Prop} (implied : facts → stronger)
    (keeps : setting.Keeps stronger kind v e) : setting.Keeps facts kind v e := by
  obtain ⟨w, means, same⟩ := keeps
  exact ⟨w, means, fun holds => same (implied holds)⟩

theorem keeps_trans {w : Int} (same : facts → w = v) (keeps : setting.Keeps facts kind w e) :
    setting.Keeps facts kind v e := by
  obtain ⟨u, means, same'⟩ := keeps
  exact ⟨u, means, fun holds => (same' holds).trans (same holds)⟩

theorem keeps_refl (means : setting.Means kind e v) : setting.Keeps facts kind v e :=
  ⟨v, means, fun _ => rfl⟩

def KeepsValues (setting : Setting) (facts : Prop) (kind : Kind)
    (f : PrimExpr → Folding PrimExpr) : Prop :=
  ∀ e v, setting.Means kind e v → Returns setting.fine (f e) (setting.Keeps facts kind v)

variable (sound : facts → queries.Sound setting.env)

include sound

theorem applySteps_returns (recursive : KeepsValues setting facts kind again) {steps : List Step}
    (keep : Step.Sound (firstOf steps)) :
    KeepsValues setting facts kind (applySteps queries setting.dtype again steps) := by
  intro e v means
  refine returns_bind (keep setting queries kind e v means) fun answer holds => ?_
  cases answer with
  | none => exact returns_pure (keeps_refl means)
  | some outcome =>
    have kept := keeps_mono sound (holds outcome rfl)
    simp only
    split
    · obtain ⟨w, means', same⟩ := kept
      exact (recursive _ _ means').mono fun _ => keeps_trans same
    · exact returns_pure kept

theorem rewriteIndex_returns (recursive : KeepsValues setting facts .index again) {op : BinOp}
    {a b : PrimExpr} {u w : Int} (left : setting.Means .index a u) (right : setting.Means .index b w)
    (signature : op.signature = some (.index, .index)) (allowed : op.truncates = true → setting.trunc = true)
    (constant : setting.strict = true → op.isDivision = true → b.asIntImm.isSome = true)
    (divisor : op.isDivision = true → w ≠ 0) :
    Returns setting.fine (rewriteIndex queries setting.dtype again op a b)
      (setting.Keeps facts .index (op.apply u w)) := by
  refine returns_bind (Setting.tryConstFold_returns left right queries.eq_of_sameAs signature
    (by simp) divisor) fun answer folds => ?_
  cases answer with
  | some e => exact returns_pure (keeps_refl (folds e rfl))
  | none =>
    have means := Setting.means_binary left right signature (by simp) allowed constant divisor
    simp only [left.isIndexType]
    exact applySteps_returns sound recursive (firstOf_sound (indexSteps_sound op)) _ _ means

theorem visitIndex_returns (recursive : KeepsValues setting facts .index again) {varMap : Var → Option PrimExpr}
    (infos : ∀ v info, varMap v = some info → v.dtype = setting.dtype →
      setting.Means .index info (setting.env.var v))
    (total : setting.strict = true ∨ facts) (means : setting.Means .index e v) :
    Returns setting.fine (visitIndex queries setting.dtype again varMap e) fun out =>
      setting.Keeps facts .index v out ∧ (e.asIntImm.isSome = true → out = e) := by
  induction e generalizing v with
  | var x =>
    have typed := means.hasKind.2
    have value : setting.env.var x = v := means.value
    apply returns_pure
    refine ⟨?_, by simp [PrimExpr.asIntImm]⟩
    cases known : varMap x with
    | none => simpa using keeps_refl means
    | some info => simpa [← value] using keeps_refl (infos x info known typed)
  | intImm dtype value => exact returns_pure ⟨keeps_refl means, fun _ => rfl⟩
  | binary op a b iha ihb =>
    obtain ⟨operand, signature, left, right, allowed, constant, divisor, value⟩ := means.operands
    have index : operand = .index := by
      cases operand with
      | index => rfl
      | bool => exact absurd ((BinOp.signature_isLogical signature).2 rfl) (by simp)
    subst index
    refine returns_bind (iha left) ?_
    rintro a' ⟨⟨u, leftMeans, leftSame⟩, -⟩
    refine returns_bind (ihb right) ?_
    rintro b' ⟨⟨w, rightMeans, rightSame⟩, fixed⟩
    -- A divisor that is a constant was left alone; any other has kept its value.
    have nonzero : op.isDivision = true → w ≠ 0 := by
      intro division
      rcases total with strict | holds
      · have same := fixed (constant strict division)
        subst same
        rw [← rightMeans.value]
        exact divisor division
      · rw [rightSame holds]
        exact divisor division
    have stays : setting.strict = true → op.isDivision = true → b'.asIntImm.isSome = true := by
      intro strict division
      rw [fixed (constant strict division)]
      exact constant strict division
    refine (rewriteIndex_returns sound recursive leftMeans rightMeans signature allowed stays
      nonzero).mono fun out kept => ⟨keeps_trans (fun holds => ?_) kept, by simp [PrimExpr.asIntImm]⟩
    rw [leftSame holds, rightSame holds, value]
  | not | select | letIn | cast | atom =>
    have hasKind := means.hasKind
    simp [PrimExpr.HasKind] at hasKind

end

theorem visitIndexAt_returns {setting : Setting} {facts : Prop} {queries : Nat → Queries}
    (sound : ∀ depth, facts → (queries depth).Sound setting.env) {varMap : Var → Option PrimExpr}
    (infos : ∀ v info, varMap v = some info → v.dtype = setting.dtype →
      setting.Means .index info (setting.env.var v)) (total : setting.strict = true ∨ facts) (depth : Nat) :
    KeepsValues setting facts .index (visitIndexAt setting.dtype varMap queries depth) := by
  induction depth with
  | zero =>
    exact fun e v means => (visitIndex_returns (sound 0)
      (fun _ _ means => returns_pure (keeps_refl means)) infos total means).mono fun _ => And.left
  | succ depth ih =>
    exact fun e v means =>
      (visitIndex_returns (sound (depth + 1)) ih infos total means).mono fun _ => And.left

theorem CompareResult.holds_sub (result : CompareResult) (x y : Int) :
    result.Holds (x - y) 0 ↔ result.Holds x y := by
  cases result <;> simp only [CompareResult.Holds] <;> omega

section

variable {setting : Setting} {queries : Queries} {facts : Prop}
  {visit again : PrimExpr → Folding PrimExpr} {a b e : PrimExpr} {u v w : Int}

theorem compareValue_holds (sound : queries.Sound setting.env) (means : setting.Means .index e v) :
    (compareValue queries e 0).Holds v 0 := by
  have bound := sound.bound e means.defined
  have modular := sound.modular e means.defined
  rw [means.value] at bound modular
  unfold compareValue
  split
  next value found =>
    rw [means.asIntImm found]
    split
    next zero => exact zero
    · split
      next positive => exact positive
      · simp only [CompareResult.Holds]; omega
  · have infinite : ConstIntBound.kNegInf < 0 ∧ 0 < ConstIntBound.kPosInf := by decide
    obtain ⟨low, high⟩ := bound
    simp only
    split_ifs with single above below least most residue <;> simp only [CompareResult.Holds] <;> try omega
    · -- A residue that is not zero.
      rintro rfl
      by_cases zero : (queries.modularSet e).coeff = 0
      · rw [ModularSet.Entry.Contains, zero, Int.modEq_zero_iff] at modular
        exact residue.2 modular.symm
      · have range := (queries.modularSet e).reduced zero
        have divides := Int.modEq_zero_iff_dvd.1 modular.symm
        have none := Int.eq_zero_of_dvd_of_nonneg_of_lt range.1 range.2 divides
        exact residue.2 none

theorem build_total {operand kind : Kind} {op : BinOp} (left : setting.Means operand a u)
    (right : setting.Means operand b w) (signature : op.signature = some (operand, kind))
    (logic : kind = .bool → setting.logic = true) (total : op.isDivision = false) :
    Returns setting.fine (build queries.sameAs op a b) (setting.Means kind · (op.apply u w)) := by
  refine Setting.build_returns left right queries.eq_of_sameAs signature logic ?_ (by simp [total])
    (by simp [total])
  cases op <;> simp_all [BinOp.truncates, BinOp.isDivision]

theorem keeps_decided (logic : setting.logic = true) {truth : Bool}
    (same : facts → truth.toInt = v) : setting.Keeps facts .bool v (decided truth) :=
  ⟨_, Setting.means_bool logic truth, same⟩

theorem build_comparison {sameAs : PrimExpr → PrimExpr → Bool} {op : BinOp}
    (signature : op.signature = some (.index, .bool)) :
    Returns setting.fine (build sameAs op a b) fun e => e = .binary op a b ∨ e.asIntImm.isSome = true := by
  cases op <;> simp only [BinOp.signature, Option.some.injEq, Prod.mk.injEq, reduceCtorEq, and_true,
    and_false] at signature <;> unfold build tryConstFold foldCompare <;> simp only <;>
    split <;> exact returns_pure (by simp [PrimExpr.asIntImm])

theorem means_comparison (logic : setting.logic = true) (left : setting.Means .index a u)
    (right : setting.Means .index b w) {op : BinOp} (signature : op.signature = some (.index, .bool)) :
    setting.Means .bool (.binary op a b) (op.apply u w) := by
  have total : op.isDivision = false ∧ op.truncates = false := by
    cases op <;> simp_all [BinOp.signature, BinOp.isDivision, BinOp.truncates]
  exact Setting.means_binary left right signature (fun _ => logic) (by simp [total])
    (by simp [total]) (by simp [total])

theorem compared_returns {result : CompareResult} {p : Prop} [Decidable p] {truth : Bool}
    (logic : setting.logic = true) (holds : facts → result.Holds u w)
    (settles : result.Holds u w → (p ↔ truth = true)) :
    Returns setting.fine (return decided truth : Folding PrimExpr)
      (setting.Keeps facts .bool (decide p).toInt) := by
  refine returns_pure (keeps_decided logic fun given => ?_)
  simp [settles (holds given)]

variable (sound : facts → queries.Sound setting.env) (visits : KeepsValues setting facts .index visit)
  (logic : setting.logic = true)

include sound visits in
theorem tryCompare_returns (left : setting.Means .index a u) (right : setting.Means .index b w) :
    Returns setting.fine (tryCompare queries visit a b) fun result => facts → result.Holds u w := by
  refine returns_settle (fun result idle => ?_) ?_
  · obtain rfl : result = .unknown := by simpa using idle
    exact fun _ => trivial
  refine returns_bind (build_total left right rfl (by simp) rfl) fun diff means => ?_
  refine returns_bind (visits _ _ means) ?_
  rintro diff' ⟨d, means', same⟩
  have output : facts → (compareValue queries diff' 0).Holds u w := by
    intro holds
    have compared := compareValue_holds (sound holds) means'
    rw [same holds] at compared
    exact (CompareResult.holds_sub _ _ _).1 compared
  simp only
  split
  · exact returns_pure output
  · apply returns_pure
    intro holds
    have known := (sound holds).compare a b left.defined right.defined
    rw [left.value, right.value] at known
    exact CompareResult.and_holds (output holds) known

theorem extractConstantOffset_means (means : setting.Means .index a u)
    (reachable : ∀ type c x, a ≠ .binary .sub (.intImm type c) x) :
    ∃ u', setting.Means .index (extractConstantOffset a).1 u' ∧ u = u' + (extractConstantOffset a).2 := by
  unfold extractConstantOffset
  split
  next x type c1 =>
    obtain ⟨operand, signature, left, right, -, -, -, value⟩ := means.operands
    cases signature
    exact ⟨_, left, value.symm⟩
  next x type c1 =>
    obtain ⟨operand, signature, left, right, -, -, -, value⟩ := means.operands
    cases signature
    exact ⟨_, left, value.symm⟩
  next type c1 x _ => exact absurd rfl (reachable type c1 x)
  · exact ⟨u, means, (add_zero u).symm⟩

theorem mergeConstants_returns (left : setting.Means .index a u) (right : setting.Means .index b w)
    (reachableA : ∀ type c x, a ≠ .binary .sub (.intImm type c) x)
    (reachableB : ∀ type c x, b ≠ .binary .sub (.intImm type c) x) (logic : setting.logic = true) :
    Returns setting.fine (mergeConstants queries setting.dtype (.binary .lt a b)) fun answer =>
      ∀ outcome, answer = some outcome →
        setting.Keeps (queries.Sound setting.env) .bool (BinOp.lt.apply u w) outcome.expr := by
  obtain ⟨u', lhs, splitA⟩ := extractConstantOffset_means left reachableA
  obtain ⟨w', rhs, splitB⟩ := extractConstantOffset_means right reachableB
  have finish : ∀ {op : BinOp} {a b : PrimExpr} {p q : Int}, setting.Means .index a p →
      setting.Means .index b q → op.signature = some (.index, .bool) → op.isDivision = false →
      op.apply p q = BinOp.lt.apply u w →
      Returns setting.fine (do return some ⟨← build queries.sameAs op a b, true⟩ :
        Folding (Option Outcome)) fun answer => ∀ outcome, answer = some outcome →
          setting.Keeps (queries.Sound setting.env) .bool (BinOp.lt.apply u w) outcome.expr := by
    intro op a b p q first second signature total same
    refine returns_bind (build_total first second signature (fun _ => logic) total) fun e means => ?_
    apply returns_pure
    rintro _ ⟨⟩
    exact same ▸ keeps_refl means
  simp only [mergeConstants]
  split
  · exact returns_pure (by simp)
  · refine returns_bind (Setting.bounded_returns _) fun _ _ => ?_
    refine returns_bind (Setting.bounded_returns _) fun _ _ => ?_
    refine returns_bind (Setting.bounded_returns _) fun _ _ => ?_
    split
    · exact finish lhs rhs rfl rfl (toInt_iff.2 (by omega))
    · split
      · exact finish lhs rhs rfl rfl (toInt_iff.2 (by omega))
      · split
        · refine returns_bind (Setting.makeConst_returns _) fun k constant => ?_
          refine returns_bind (build_total lhs constant rfl (by simp) rfl) fun moved means => ?_
          exact finish means rhs rfl rfl (toInt_iff.2 (by simp only [BinOp.apply]; omega))
        · split
          · refine returns_bind (Setting.makeConst_returns _) fun k constant => ?_
            refine returns_bind (build_total rhs constant rfl (by simp) rfl) fun moved means => ?_
            exact finish lhs means rfl rfl (toInt_iff.2 (by simp only [BinOp.apply]; omega))
          · exact returns_pure (by simp)

theorem notNot_sound : Step.Sound notNot := by
  intro setting queries kind e v means
  unfold notNot
  split
  next a =>
    obtain ⟨rfl, inner, value⟩ := means.operand
    obtain ⟨-, means', value'⟩ := inner.operand
    apply returns_pure
    rintro _ ⟨⟩
    refine keeps_of_means means' fun _ => ?_
    rw [← value, ← value']
    rcases means'.truth with zero | one
    · simp [zero]
    · simp [one]
  · exact returns_pure (by simp)

theorem ltSteps_sound : Step.Sound (firstOf (ltRules.map Rule.apply ++ [mergeConstants])) := by
  intro setting queries kind e v means
  have rules : ∀ rule ∈ ltRules, rule.Sound := by
    have linear := linear_sound
    have remainder := ltRemainder_sound
    simp only [ltRules, List.forall_mem_append] at *
    simp_all [ltCancellation_sound, ltScaling_sound, ltQuotient_sound]
  refine firstOf_then rules means fun unmatched => ?_
  -- Had an operand the form `c1 - x`, one of these two rules would have matched.
  have right := unmatched (tryRecursiveRewrite [x.lt (c1 - y)] ((x + y).lt c1))
    (by simp [ltRules, ltCanonical]) rfl _ (List.mem_singleton.2 rfl)
  have left := unmatched (tryRecursiveRewrite [(c1 - y).lt x] (c1.lt (x + y)))
    (by simp [ltRules, ltCanonical]) rfl _ (List.mem_singleton.2 rfl)
  cases e with
  | binary op a b =>
    by_cases less : op = .lt
    · subst less
      obtain ⟨operand, signature, meansA, meansB, -, -, -, value⟩ := means.operands
      cases signature
      have reachableA : ∀ type c x, a ≠ .binary .sub (.intImm type c) x := by
        rintro type c x rfl
        cases left
      have reachableB : ∀ type c x, b ≠ .binary .sub (.intImm type c) x := by
        rintro type c x rfl
        cases right
      refine returns_bind (attempt_returns (mergeConstants_returns meansA meansB reachableA reachableB
        (means.logic rfl))) fun answer holds => ?_
      cases answer with
      | some outcome => exact returns_pure (value ▸ holds)
      | none => exact returns_pure (by simp)
    · have none : mergeConstants queries setting.dtype (.binary op a b) = pure none := by
        unfold mergeConstants
        split
        next found =>
          cases found
          exact absurd rfl less
        · rfl
      simp only [firstOf, none]
      exact returns_pure (by simp)
  | var | intImm | not | select | letIn | cast | atom => exact returns_pure (by simp)

theorem eqSteps_sound : Step.Sound (firstOf (eqRules.map Rule.apply)) :=
  firstOf_sound (map_apply_sound eqRules_sound)

theorem notSteps_sound : Step.Sound (firstOf (notNot :: notRules.map Rule.apply)) := by
  have linear := linear_sound
  simp only [List.forall_mem_append] at linear
  exact firstOf_sound (List.forall_mem_cons.2 ⟨notNot_sound, map_apply_sound linear.1.1.2⟩)

section

variable (recursive : KeepsValues setting facts .bool again)

include sound recursive

theorem applyRewriteRulesNot_returns (means : setting.Means .bool a u) :
    Returns setting.fine (applyRewriteRulesNot queries setting.dtype again a)
      (setting.Keeps facts .bool (decide (u = 0)).toInt) :=
  applySteps_returns sound recursive notSteps_sound _ _ (Setting.means_not means)

include visits logic

variable (left : setting.Means .index a u) (right : setting.Means .index b w)

include left right

theorem applyRewriteRulesLT_returns :
    Returns setting.fine (applyRewriteRulesLT queries setting.dtype visit again a b)
      (setting.Keeps facts .bool (BinOp.lt.apply u w)) := by
  have means : setting.Means .bool (.binary .lt a b) (BinOp.lt.apply u w) :=
    means_comparison logic left right rfl
  simp only [applyRewriteRulesLT, left.isIndexType]
  refine returns_bind (tryCompare_returns sound visits left right) fun result holds => ?_
  split
  next less =>
    subst less
    exact compared_returns logic holds (by simp [CompareResult.Holds])
  · split
    next other =>
      refine compared_returns logic holds ?_
      rcases other with rfl | rfl | rfl <;> simp [CompareResult.Holds] <;> omega
    · exact applySteps_returns sound recursive ltSteps_sound _ _ means

theorem applyRewriteRulesEQ_returns :
    Returns setting.fine (applyRewriteRulesEQ queries setting.dtype visit again a b)
      (setting.Keeps facts .bool (BinOp.eq.apply u w)) := by
  have means : setting.Means .bool (.binary .eq a b) (BinOp.eq.apply u w) :=
    means_comparison logic left right rfl
  simp only [applyRewriteRulesEQ, left.isIndexType]
  refine returns_bind (tryCompare_returns sound visits left right) fun result holds => ?_
  split
  next equal =>
    subst equal
    exact compared_returns logic holds (by simp [CompareResult.Holds])
  · split
    next other =>
      refine compared_returns logic holds ?_
      rcases other with rfl | rfl | rfl <;> simp [CompareResult.Holds] <;> omega
    · exact applySteps_returns sound recursive eqSteps_sound _ _ means

theorem applyRewriteRulesNE_returns :
    Returns setting.fine (applyRewriteRulesNE queries setting.dtype visit again a b)
      (setting.Keeps facts .bool (BinOp.ne.apply u w)) := by
  have lessThan := applyRewriteRulesLT_returns sound visits logic recursive left right
  have greaterThan := applyRewriteRulesLT_returns sound visits logic recursive right left
  have fallback : Returns setting.fine (do
      applyRewriteRulesNot queries setting.dtype again
        (← applyRewriteRulesEQ queries setting.dtype visit again a b))
      (setting.Keeps facts .bool (BinOp.ne.apply u w)) := by
    refine returns_bind (applyRewriteRulesEQ_returns sound visits logic recursive left right) ?_
    rintro equal ⟨v, means, same⟩
    refine (applyRewriteRulesNot_returns sound recursive means).mono fun _ => keeps_trans ?_
    intro given
    rw [same given]
    by_cases equal : u = w <;> simp [BinOp.apply, equal]
  simp only [applyRewriteRulesNE, left.isIndexType]
  refine returns_bind (tryCompare_returns sound visits left right) fun result holds => ?_
  split
  next other =>
    refine compared_returns logic holds ?_
    rcases other with rfl | rfl | rfl <;> simp [CompareResult.Holds] <;> omega
  · split
    next equal =>
      subst equal
      exact compared_returns logic holds (by simp [CompareResult.Holds])
    · -- What is `>=` but different is `>`, and the other way round.
      split
      next notLess =>
        refine greaterThan.mono fun _ => keeps_trans fun given => ?_
        have order := holds given
        simp only [notLess, CompareResult.Holds] at order
        exact toInt_iff.2 (by omega)
      · split
        next notGreater =>
          refine lessThan.mono fun _ => keeps_trans fun given => ?_
          have order := holds given
          simp only [notGreater, CompareResult.Holds] at order
          exact toInt_iff.2 (by omega)
        · exact fallback

omit left right in
theorem remainingLE_returns (left : setting.Means .index a u) (right : setting.Means .index b w) :
    Returns setting.fine (do
      let result ← tryCompare queries visit a b
      if result = .le ∨ result = .lt ∨ result = .eq then return decided true
      else if result = .gt then return decided false
      else if result = .ne then applyRewriteRulesLT queries setting.dtype visit again a b
      else if result = .ge then applyRewriteRulesEQ queries setting.dtype visit again a b
      else return .binary .le a b) (setting.Keeps facts .bool (BinOp.le.apply u w)) := by
  refine returns_bind (tryCompare_returns sound visits left right) fun result holds => ?_
  split
  next other =>
    refine compared_returns logic holds ?_
    rcases other with rfl | rfl | rfl <;> simp [CompareResult.Holds] <;> omega
  · split
    next greater =>
      subst greater
      exact compared_returns logic holds (by simp [CompareResult.Holds])
    · split
      next different =>
        refine (applyRewriteRulesLT_returns sound visits logic recursive left right).mono
          fun _ => keeps_trans fun given => ?_
        have order := holds given
        simp only [different, CompareResult.Holds] at order
        exact toInt_iff.2 (by omega)
      · split
        next notLess =>
          refine (applyRewriteRulesEQ_returns sound visits logic recursive left right).mono
            fun _ => keeps_trans fun given => ?_
          have order := holds given
          simp only [notLess, CompareResult.Holds] at order
          exact toInt_iff.2 (by omega)
        · exact returns_pure (keeps_refl (means_comparison logic left right rfl))

theorem applyRewriteRulesLE_returns :
    Returns setting.fine (applyRewriteRulesLE queries setting.dtype visit again a b)
      (setting.Keeps facts .bool (BinOp.le.apply u w)) := by
  refine returns_bind (applyRewriteRulesLT_returns sound visits logic recursive right left) ?_
  rintro less ⟨v, means, same⟩
  have negated : facts → (decide (v = 0)).toInt = BinOp.le.apply u w := by
    intro given
    rw [same given]
    by_cases order : w < u
    · simp [BinOp.apply, order, not_le.2 order]
    · simp [BinOp.apply, order, not_lt.1 order]
  refine returns_bind (applyRewriteRulesNot_returns sound recursive means) ?_
  intro e kept
  have kept := keeps_trans negated kept
  split
  next a' b' =>
    obtain ⟨v', means', same'⟩ := kept
    obtain ⟨operand, signature, left', right', -, -, -, value⟩ := means'.operands
    cases signature
    simp only [left'.isIndexType]
    refine (remainingLE_returns sound visits logic recursive left' right').mono
      fun _ => keeps_trans fun given => ?_
    exact value.trans (same' given)
  · exact returns_pure kept

end

theorem tryMatchLiteralConstraint_keeps (logic : setting.logic = true) {literals : List PrimExpr}
    (known : facts → ∀ literal ∈ literals, literal.value setting.env ≠ 0)
    (means : setting.Means .bool e v) {answer : PrimExpr}
    (found : tryMatchLiteralConstraint literals e = some answer) : setting.Keeps facts .bool v answer := by
  obtain ⟨literal, mem, found⟩ := List.exists_of_findSome?_eq_some found
  have value := means.value
  have truth := means.truth
  split at found
  next same =>
    cases found
    subst same
    refine keeps_decided logic fun given => ?_
    have holds := known given literal mem
    simp only [Bool.toInt_true]
    omega
  · split at found
    next same =>
      cases found
      subst same
      refine keeps_decided logic fun given => ?_
      have holds := known given _ mem
      simp only [PrimExpr.value, value] at holds
      rcases truth with zero | one
      · simp [zero]
      · simp [one] at holds
    · cases found

section

variable {literals : List PrimExpr}
  (known : facts → ∀ literal ∈ literals, literal.value setting.env ≠ 0)
  (recursive : KeepsValues setting facts .bool again)
  (left : setting.Means .index a u) (right : setting.Means .index b w)

include sound visits logic recursive known left right

theorem visitComparison_returns {op : BinOp} (signature : op.signature = some (.index, .bool)) :
    Returns setting.fine (visitComparison queries setting.dtype visit again literals op a b)
      (setting.Keeps facts .bool (op.apply u w)) := by
  refine returns_bind (visits _ _ left) ?_
  rintro a' ⟨u', left', sameLeft⟩
  refine returns_bind (visits _ _ right) ?_
  rintro b' ⟨w', right', sameRight⟩
  suffices kept : Returns setting.fine _ (setting.Keeps facts .bool (op.apply u' w')) by
    refine kept.mono fun _ => keeps_trans fun given => ?_
    rw [sameLeft given, sameRight given]
  have total : op.isDivision = false := by cases op <;> simp_all [BinOp.signature, BinOp.isDivision]
  refine returns_bind (Setting.tryConstFold_returns left' right' queries.eq_of_sameAs signature
    (fun _ => logic) (by simp [total])) fun answer folds => ?_
  cases answer with
  | some e => exact returns_pure (keeps_refl (folds e rfl))
  | none =>
    have means := means_comparison logic left' right' signature
    simp only
    split
    next found => exact returns_pure (tryMatchLiteralConstraint_keeps logic known means found)
    · split
      · exact applyRewriteRulesEQ_returns sound visits logic recursive left' right'
      · exact applyRewriteRulesNE_returns sound visits logic recursive left' right'
      · exact applyRewriteRulesLT_returns sound visits logic recursive left' right'
      · exact applyRewriteRulesLE_returns sound visits logic recursive left' right'
      · exact returns_pure (keeps_refl means)

theorem visitSwapped_returns {op : BinOp} (signature : op.signature = some (.index, .bool)) :
    Returns setting.fine (visitSwapped queries setting.dtype visit again literals op a b)
      (setting.Keeps facts .bool (op.apply w u)) := by
  have total : op.isDivision = false := by cases op <;> simp_all [BinOp.signature, BinOp.isDivision]
  refine returns_bind ((build_total right left signature (fun _ => logic) total).and
    (build_comparison signature)) ?_
  rintro e ⟨means, rfl | constant⟩
  · exact visitComparison_returns sound visits logic known recursive right left signature
  · cases e <;> simp only [PrimExpr.asIntImm, Option.isSome_none, reduceCtorEq] at constant
    exact returns_pure (keeps_refl means)

end

end

section

variable {setting : Setting} {queries : Queries} {e a b : PrimExpr} {v u : Int}

theorem foldNot_returns (means : setting.Means .bool a u) {other : Folding PrimExpr}
    (returns : Returns setting.fine other (setting.Means .bool · (decide (u = 0)).toInt)) :
    Returns setting.fine ((foldNot a).elim other pure) (setting.Means .bool · (decide (u = 0)).toInt) := by
  cases folds : foldNot a with
  | some e => exact returns_pure (Setting.foldNot_folds means _ folds)
  | none => exact returns

theorem not_toInt {p : Prop} [Decidable p] : (decide ((decide p).toInt = 0)).toInt = (decide ¬p).toInt :=
  toInt_iff.2 toInt_cases.1

theorem not_not_toInt {truth : Int} (bit : truth = 0 ∨ truth = 1) :
    (decide ((decide (truth = 0)).toInt = 0)).toInt = truth := by
  rcases bit with rfl | rfl <;> rfl

theorem normalize_returns (e : PrimExpr) :
    (∀ v, setting.Means .bool e v → Returns setting.fine
      (normalizeBooleanOperators queries.sameAs e) (setting.Means .bool · v)) ∧
    ∀ v, setting.Means .bool e v → Returns setting.fine
      (normalizeNot queries.sameAs e) (setting.Means .bool · (decide (v = 0)).toInt) := by
  induction e with
  | not a ih =>
    constructor <;> intro v means <;> obtain ⟨-, inner, value⟩ := means.operand <;> rw [← value]
    · exact ih.2 _ inner
    · rw [not_not_toInt inner.truth]
      exact ih.1 _ inner
  | binary op a b iha ihb =>
    constructor <;> intro v means
    · cases op
      case ge | gt =>
        obtain ⟨operand, signature, left, right, -, -, -, value⟩ := means.operands
        cases signature
        rw [← value]
        exact build_total right left rfl means.logic rfl
      all_goals
        exact returns_pure means
    · cases op
      case lt | le =>
        obtain ⟨operand, signature, left, right, -, -, -, value⟩ := means.operands
        cases signature
        rw [← value, BinOp.apply, not_toInt]
        exact (build_total right left rfl means.logic rfl).mono fun e means' => by
          simpa [BinOp.apply] using means'
      case gt | ge | eq | ne =>
        obtain ⟨operand, signature, left, right, -, -, -, value⟩ := means.operands
        cases signature
        rw [← value, BinOp.apply, not_toInt]
        exact (build_total left right rfl means.logic rfl).mono fun e means' => by
          simpa [BinOp.apply] using means'
      case and | or =>
        obtain ⟨operand, signature, left, right, -, -, -, value⟩ := means.operands
        cases signature
        refine returns_bind (foldNot_returns left (iha.2 _ left)) fun a' means₁ => ?_
        refine returns_bind (foldNot_returns right (ihb.2 _ right)) fun b' means₂ => ?_
        rw [← value]
        refine (build_total means₁ means₂ rfl means.logic rfl).mono fun e means' => ?_
        rw [BinOp.apply, not_toInt]
        simpa [BinOp.apply] using means'
      all_goals
        exact returns_pure (Setting.means_not means)
  | var | intImm | select | letIn | cast | atom =>
    constructor <;> intro v means
    · exact returns_pure means
    · exact returns_pure (Setting.means_not means)

theorem extractConstraints_means (means : setting.Means .bool e v) :
    ∀ part ∈ extractConstraints e, setting.Means .bool part (part.value setting.env) ∧
      (v ≠ 0 → part.value setting.env ≠ 0) := by
  fun_induction extractConstraints e generalizing v with
  | case1 a b iha ihb =>
    obtain ⟨operand, signature, left, right, -, -, -, value⟩ := means.operands
    cases signature
    have both : v ≠ 0 → a.value setting.env ≠ 0 ∧ b.value setting.env ≠ 0 := by
      rw [← value, BinOp.apply, Ne, toInt_cases.1, not_not]
      exact id
    intro part mem
    rcases List.mem_append.1 mem with mem | mem
    · obtain ⟨means', implied⟩ := iha left part mem
      exact ⟨means', fun holds => implied (both holds).1⟩
    · obtain ⟨means', implied⟩ := ihb right part mem
      exact ⟨means', fun holds => implied (both holds).2⟩
  | case2 e =>
    simp only [List.mem_singleton, forall_eq]
    exact ⟨⟨means.hasKind, means.logic, means.defined, rfl⟩, by simp [means.value]⟩

theorem literalsOf_returns {parts : List PrimExpr}
    (means : ∀ part ∈ parts, setting.Means .bool part (part.value setting.env)) :
    Returns setting.fine (literalsOf queries.sameAs parts) fun literals =>
      (∀ part ∈ parts, part.value setting.env ≠ 0) → ∀ literal ∈ literals, literal.value setting.env ≠ 0 := by
  induction parts with
  | nil => exact returns_pure (by simp)
  | cons part rest ih =>
    obtain ⟨here, others⟩ := List.forall_mem_cons.1 means
    refine returns_bind ((normalize_returns (.not part)).1 _ (Setting.means_not here)) ?_
    intro negation negated
    refine returns_bind (ih others) fun literals holds => returns_pure ?_
    intro all
    obtain ⟨true, rest⟩ := List.forall_mem_cons.1 all
    simpa [true, PrimExpr.value, negated.value] using holds rest

end

def Facts (env : Env) (scope : List Entered) : Prop :=
  ∀ entered ∈ scope, entered.constraint.value env ≠ 0

-- The other analyzers answer truly where the constraints hold. Branches are visited under each other's
-- constraints only if divisors are constants.
structure Analyzer.Trusted (analyzer : Analyzer) (setting : Setting) : Prop where
  dtype : analyzer.dtype = setting.dtype
  infos : ∀ v info, analyzer.varMap v = some info → v.dtype = setting.dtype →
    setting.Means .index info (setting.env.var v)
  sound : ∀ scope depth, Facts setting.env scope →
    (analyzer.queries scope depth).Sound setting.env
  strict : analyzer.applyConstraints = true → setting.strict = true

structure State.Ok (state : State) (setting : Setting) : Prop where
  total : setting.strict = true ∨ Facts setting.env state.scope
  literals : Facts setting.env state.scope →
    ∀ literal ∈ state.literals, literal.value setting.env ≠ 0

def VisitsSound (setting : Setting) (visit : PrimExpr → State → Folding PrimExpr) : Prop :=
  ∀ state, state.Ok setting → ∀ kind,
    KeepsValues setting (Facts setting.env state.scope) kind (visit · state)

section

variable {analyzer : Analyzer} {setting : Setting} {depth : Nat}
  {revisit again : PrimExpr → State → Folding PrimExpr} {state : State} {a b : PrimExpr} {u w : Int}
  (trusted : analyzer.Trusted setting) (revisits : VisitsSound setting revisit)
  (recursive : VisitsSound setting again) (ok : state.Ok setting)

include revisits ok in
theorem enterConstraint_returns (strict : setting.strict = true) (means : setting.Means .bool a u) :
    Returns setting.fine (enterConstraint analyzer depth revisit state a) fun inner =>
      inner.Ok setting ∧ inner.scope = ⟨a, true⟩ :: state.scope := by
  have first : ({ state with scope := ⟨a, false⟩ :: state.scope } : State).Ok setting :=
    ⟨.inl strict, fun facts => ok.literals (List.forall_mem_cons.1 facts).2⟩
  refine returns_bind (revisits _ first .bool a u means) ?_
  rintro simplified ⟨v, means', same⟩
  have parts := extractConstraints_means means'
  refine returns_bind (literalsOf_returns fun part mem => (parts part mem).1) fun literals holds => ?_
  refine returns_pure ⟨⟨.inl strict, fun facts => ?_⟩, rfl⟩
  obtain ⟨here, rest⟩ := List.forall_mem_cons.1 facts
  have kept : v ≠ 0 := by
    rw [same (List.forall_mem_cons.2 ⟨here, rest⟩), ← means.value]
    exact here
  exact List.forall_mem_append.2 ⟨ok.literals rest, holds fun part mem => (parts part mem).2 kept⟩

theorem branchConstraint_returns {op : BinOp} (connective : op = .and ∨ op = .or)
    (means : setting.Means .bool b w) :
    Returns setting.fine (branchConstraint analyzer depth state op b) fun constraint =>
      ∃ k, setting.Means .bool constraint k ∧ (k = 0 → ∀ x y, op.apply x w = op.apply y w) := by
  rcases connective with rfl | rfl
  · exact returns_pure ⟨w, means, by simp +contextual [BinOp.apply]⟩
  · refine ((normalize_returns (.not b)).1 _ (Setting.means_not means)).mono fun constraint means' => ?_
    exact ⟨_, means', by simp +contextual [BinOp.apply]⟩

include revisits ok in
theorem enterBranch_returns (strict : setting.strict = true) {op : BinOp}
    (connective : op = .and ∨ op = .or) (means : setting.Means .bool b w) :
    Returns setting.fine (enterBranch analyzer depth revisit state op b) fun inner =>
      inner.Ok setting ∧ (Facts setting.env state.scope →
        Facts setting.env inner.scope ∨ ∀ x y, op.apply x w = op.apply y w) := by
  refine returns_bind (branchConstraint_returns connective means) ?_
  rintro constraint ⟨k, means', irrelevant⟩
  refine (enterConstraint_returns revisits ok strict means').mono ?_
  rintro inner ⟨ok', scope⟩
  refine ⟨ok', fun facts => ?_⟩
  by_cases zero : k = 0
  · exact .inr (irrelevant zero)
  · left
    rw [scope]
    exact List.forall_mem_cons.2 ⟨by simpa [means'.value] using zero, facts⟩

section

variable {op : BinOp} (connective : op = .and ∨ op = .or)

theorem connective_comm (connective : op = .and ∨ op = .or) (x y : Int) : op.apply x y = op.apply y x := by
  rcases connective with rfl | rfl
  · exact toInt_iff.2 and_comm
  · exact toInt_iff.2 or_comm

include revisits ok connective in
theorem visitBranch_returns (strict : setting.strict = true) {visitA : State → Folding PrimExpr}
    (visits : ∀ inner : State, inner.Ok setting → Returns setting.fine (visitA inner)
      (setting.Keeps (Facts setting.env inner.scope) .bool u))
    (other : setting.Means .bool b w) {α : Type} {rest : PrimExpr → Folding α} {post : α → Prop}
    (after : ∀ a' u', setting.Means .bool a' u' →
      (Facts setting.env state.scope → op.apply u' w = op.apply u w) →
      Returns setting.fine (rest a') post) :
    Returns setting.fine (do rest (← visitA (← enterBranch analyzer depth revisit state op b)))
      post := by
  refine returns_bind (enterBranch_returns revisits ok strict connective other) ?_
  rintro inner ⟨ok', cases⟩
  refine returns_bind (visits inner ok') ?_
  rintro a' ⟨u', means, same⟩
  refine after a' u' means fun facts => ?_
  rcases cases facts with facts' | irrelevant
  · rw [same facts']
  · exact irrelevant u' u

include revisits ok connective in
theorem visitBranches_returns (strict : setting.strict = true) {visitA visitB : State → Folding PrimExpr}
    (visitsA : ∀ inner : State, inner.Ok setting → Returns setting.fine (visitA inner)
      (setting.Keeps (Facts setting.env inner.scope) .bool u))
    (visitsB : ∀ inner : State, inner.Ok setting → Returns setting.fine (visitB inner)
      (setting.Keeps (Facts setting.env inner.scope) .bool w)) (right : setting.Means .bool b w) :
    Returns setting.fine (visitBranches analyzer depth revisit state op a b visitA visitB)
      fun pair => ∃ u' w', setting.Means .bool pair.1 u' ∧ setting.Means .bool pair.2 w' ∧
        (Facts setting.env state.scope → op.apply u' w' = op.apply u w) := by
  have again : ∀ {c : PrimExpr} {k : Int}, setting.Means .bool c k → ∀ inner : State,
      inner.Ok setting → Returns setting.fine (revisit c inner)
        (setting.Keeps (Facts setting.env inner.scope) .bool k) :=
    fun means inner ok => revisits inner ok .bool _ _ means
  have comm := connective_comm connective
  refine visitBranch_returns revisits ok connective strict visitsA right ?_
  intro a₁ u₁ meansA sameA
  refine visitBranch_returns revisits ok connective strict visitsB meansA ?_
  intro b₁ w₁ meansB sameB
  have once : Facts setting.env state.scope → op.apply u₁ w₁ = op.apply u w := by
    intro facts
    rw [comm, sameB facts, comm, sameA facts]
  split
  · exact returns_pure ⟨u₁, w₁, meansA, meansB, once⟩
  · refine visitBranch_returns revisits ok connective strict (again meansA) meansB ?_
    intro a₂ u₂ meansA₂ sameA₂
    have twice : Facts setting.env state.scope → op.apply u₂ w₁ = op.apply u w :=
      fun facts => (sameA₂ facts).trans (once facts)
    split
    · exact returns_pure ⟨u₂, w₁, meansA₂, meansB, twice⟩
    · refine visitBranch_returns revisits ok connective strict (again meansB) meansA₂ ?_
      intro b₂ w₂ meansB₂ sameB₂
      refine returns_pure ⟨u₂, w₂, meansA₂, meansB₂, fun facts => ?_⟩
      rw [comm, sameB₂ facts, comm, twice facts]

include trusted recursive ok connective in
theorem applyRewriteRulesLogic_returns {rules : List Rule} (sound : ∀ rule ∈ rules, rule.Sound)
    (left : setting.Means .bool a u) (right : setting.Means .bool b w) :
    Returns setting.fine (applyRewriteRulesLogic analyzer depth again state op rules a b)
      (setting.Keeps (Facts setting.env state.scope) .bool (op.apply u w)) := by
  have logic := left.logic rfl
  have signature : op.signature = some (.bool, .bool) := by rcases connective with rfl | rfl <;> rfl
  have total : op.isDivision = false ∧ op.truncates = false := by
    rcases connective with rfl | rfl <;> exact ⟨rfl, rfl⟩
  have means := Setting.means_binary left right signature (fun _ => logic) (by simp [total])
    (by simp [total]) (by simp [total])
  refine returns_bind (Setting.tryConstFold_returns left right (Queries.eq_of_sameAs _) signature
    (fun _ => logic) (by simp [total])) fun answer folds => ?_
  cases answer with
  | some e => exact returns_pure (keeps_refl (folds e rfl))
  | none =>
    simp only
    split
    next found =>
      exact returns_pure (tryMatchLiteralConstraint_keeps logic ok.literals means found)
    · rw [trusted.dtype]
      exact applySteps_returns (trusted.sound _ _) (recursive state ok .bool)
        (firstOf_sound (map_apply_sound sound)) _ _ means

include trusted revisits recursive ok connective in
theorem visitConnective_returns {rules : List Rule} (sound : ∀ rule ∈ rules, rule.Sound)
    {visitA visitB : State → Folding PrimExpr}
    (visitsA : ∀ inner : State, inner.Ok setting → Returns setting.fine (visitA inner)
      (setting.Keeps (Facts setting.env inner.scope) .bool u))
    (visitsB : ∀ inner : State, inner.Ok setting → Returns setting.fine (visitB inner)
      (setting.Keeps (Facts setting.env inner.scope) .bool w)) (right : setting.Means .bool b w) :
    Returns setting.fine (visitConnective analyzer depth revisit again state op rules a b visitA visitB)
      (setting.Keeps (Facts setting.env state.scope) .bool (op.apply u w)) := by
  have operands : Returns setting.fine
      (visitOperands analyzer depth revisit state op a b visitA visitB) fun pair =>
        ∃ u' w', setting.Means .bool pair.1 u' ∧ setting.Means .bool pair.2 w' ∧
          (Facts setting.env state.scope → op.apply u' w' = op.apply u w) := by
    unfold visitOperands
    split
    next constrained =>
      exact visitBranches_returns revisits ok connective (trusted.strict constrained) visitsA visitsB right
    · refine returns_bind (visitsA state ok) ?_
      rintro a' ⟨u', left', sameLeft⟩
      refine returns_bind (visitsB state ok) ?_
      rintro b' ⟨w', right', sameRight⟩
      refine returns_pure ⟨u', w', left', right', fun facts => ?_⟩
      rw [sameLeft facts, sameRight facts]
  refine returns_bind operands ?_
  rintro ⟨a', b'⟩ ⟨u', w', left', right', same⟩
  exact (applyRewriteRulesLogic_returns trusted recursive ok connective sound left' right').mono
    fun _ => keeps_trans same

end

include trusted recursive ok in
theorem visitNot_returns (means : setting.Means .bool a u) :
    Returns setting.fine (visitNot analyzer depth again state a)
      (setting.Keeps (Facts setting.env state.scope) .bool (decide (u = 0)).toInt) := by
  unfold visitNot
  split
  next folds => exact returns_pure (keeps_refl (Setting.foldNot_folds means _ folds))
  · split
    next found =>
      exact returns_pure (tryMatchLiteralConstraint_keeps (means.logic rfl) ok.literals
        (Setting.means_not means) found)
    · exact applyRewriteRulesNot_returns (trusted.sound _ _) (recursive state ok .bool) means

theorem andRules_sound : ∀ rule ∈ andRules, rule.Sound := by
  have linear := linear_sound
  simp only [andRules, List.forall_mem_append] at *
  simp_all [andQuotient_sound, andRemainder_sound, andRange_sound]

theorem orRules_sound : ∀ rule ∈ orRules, rule.Sound := by
  have linear := linear_sound
  simp only [List.forall_mem_append] at linear
  exact linear.2

include trusted revisits recursive in
theorem visitExpr_returns : VisitsSound setting (visitExpr analyzer depth revisit again) := by
  have index : ∀ inner : State, inner.Ok setting → KeepsValues setting (Facts setting.env inner.scope) .index
        (visitIndexAt analyzer.dtype analyzer.varMap (analyzer.queries inner.scope) depth) := by
    intro inner ok
    rw [trusted.dtype]
    exact visitIndexAt_returns (trusted.sound _) trusted.infos ok.total depth
  intro state ok kind e
  induction e generalizing state kind with
  | not a ih =>
    intro v means
    obtain ⟨rfl, inner, value⟩ := means.operand
    refine returns_bind (ih state ok .bool _ inner) ?_
    rintro a' ⟨u, means', same⟩
    refine (visitNot_returns trusted recursive ok means').mono fun _ => keeps_trans fun facts => ?_
    rw [same facts, value]
  | binary op a b iha ihb =>
    intro v means
    obtain ⟨operand, signature, left, right, -, -, -, value⟩ := means.operands
    have sound := trusted.sound state.scope depth
    have rewrites := recursive state ok .bool
    have visits := index state ok
    cases op <;> cases signature <;> simp only [visitExpr]
    case and.refl =>
      rw [← value]
      exact visitConnective_returns trusted revisits recursive ok (.inl rfl) andRules_sound
        (fun inner ok => iha inner ok .bool _ left) (fun inner ok => ihb inner ok .bool _ right) right
    case or.refl =>
      rw [← value]
      exact visitConnective_returns trusted revisits recursive ok (.inr rfl) orRules_sound
        (fun inner ok => iha inner ok .bool _ left) (fun inner ok => ihb inner ok .bool _ right) right
    case gt.refl | ge.refl =>
      rw [← value]
      rw [trusted.dtype] at visits ⊢
      exact visitSwapped_returns sound visits (means.logic rfl) ok.literals rewrites left right rfl
    case eq.refl | ne.refl | lt.refl | le.refl =>
      rw [← value]
      rw [trusted.dtype] at visits ⊢
      exact visitComparison_returns sound visits (means.logic rfl) ok.literals rewrites left right rfl
    all_goals exact visits _ _ means
  | var x =>
    intro v means
    obtain ⟨rfl, -⟩ := means.hasKind
    exact index state ok _ _ means
  | intImm dtype value =>
    intro v means
    have same : visitIndexAt analyzer.dtype analyzer.varMap (analyzer.queries state.scope) depth
        (.intImm dtype value) = pure (.intImm dtype value) := by cases depth <;> rfl
    simp only [visitExpr, same]
    exact returns_pure (keeps_refl means)
  | select | letIn | cast | atom =>
    intro v means
    have hasKind := means.hasKind
    cases kind <;> simp [PrimExpr.HasKind] at hasKind

end

section

variable {analyzer : Analyzer} {setting : Setting} (trusted : analyzer.Trusted setting)

include trusted

theorem visitDepth_returns {revisit : Nat → PrimExpr → State → Folding PrimExpr}
    (revisits : ∀ depth, VisitsSound setting (revisit depth)) (depth : Nat) :
    VisitsSound setting (visitDepth analyzer revisit depth) := by
  induction depth with
  | zero =>
    exact visitExpr_returns trusted (revisits 0) fun _ _ _ _ _ means =>
      returns_pure (keeps_refl means)
  | succ depth ih => exact visitExpr_returns trusted (revisits (depth + 1)) ih

theorem visit_returns (fuel depth : Nat) : VisitsSound setting (visit analyzer fuel depth) := by
  induction fuel generalizing depth with
  | zero =>
    exact visitDepth_returns trusted (fun _ _ _ _ _ _ means => returns_pure (keeps_refl means)) depth
  | succ fuel ih => exact visitDepth_returns trusted ih depth

theorem simplify_returns (fuel : Nat) {state : State} (ok : state.Ok setting) (kind : Kind) :
    KeepsValues setting (Facts setting.env state.scope) kind (simplify analyzer fuel state) := by
  intro e v means
  refine returns_bind (visit_returns trusted fuel _ state ok kind e v means) ?_
  rintro first ⟨v₁, means₁, same₁⟩
  split
  · exact returns_pure (keeps_refl means)
  · refine returns_bind (visit_returns trusted fuel _ state ok kind first v₁ means₁) ?_
    rintro second ⟨v₂, means₂, same₂⟩
    apply returns_pure
    split
    · exact ⟨v₁, means₁, same₁⟩
    · exact ⟨v₂, means₂, fun facts => (same₂ facts).trans (same₁ facts)⟩

end

end Tlm.Arith.RewriteSimplifier
