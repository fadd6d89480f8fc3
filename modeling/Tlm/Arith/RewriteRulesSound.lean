import Tlm.Arith.RewriteRules

set_option autoImplicit false

namespace Tlm.Arith.RewriteSimplifier

section

variable (σ : Values)

theorem defined_binary {op : BinOp} {p q : Pattern} (total : op.isDivision = false) :
    (Pattern.binary op p q).Defined σ ↔ p.Defined σ ∧ q.Defined σ := by
  simp [Pattern.Defined, total]

theorem defined_division {op : BinOp} {p q : Pattern} (division : op.isDivision = true) :
    (Pattern.binary op p q).Defined σ ↔ q.value σ ≠ 0 ∧ p.Defined σ ∧ q.Defined σ := by
  simp [Pattern.Defined, division]

@[simp] theorem pattern_cases :
    ((∀ v, (Pattern.expr v).value σ = σ.expr v) ∧ (∀ c, (Pattern.const c).value σ = σ.const c) ∧
      (∀ f, (Pattern.num f).value σ = f σ.const) ∧ (0 : Pattern).value σ = 0 ∧
      (1 : Pattern).value σ = 1 ∧ (2 : Pattern).value σ = 2) ∧
    ((∀ v, (Pattern.expr v).Defined σ) ∧ (∀ c, (Pattern.const c).Defined σ) ∧
      (∀ f, (Pattern.num f).Defined σ) ∧ (0 : Pattern).Defined σ ∧ (1 : Pattern).Defined σ ∧
      (2 : Pattern).Defined σ) ∧
    ∀ p q : Pattern,
      ((p + q).value σ = p.value σ + q.value σ ∧ (p - q).value σ = p.value σ - q.value σ ∧
        (p * q).value σ = p.value σ * q.value σ ∧ (min p q).value σ = min (p.value σ) (q.value σ) ∧
        (max p q).value σ = max (p.value σ) (q.value σ) ∧
        (truncdiv p q).value σ = (p.value σ).tdiv (q.value σ) ∧
        (truncmod p q).value σ = (p.value σ).tmod (q.value σ) ∧
        (floordiv p q).value σ = (p.value σ).fdiv (q.value σ) ∧
        (floormod p q).value σ = (p.value σ).fmod (q.value σ)) ∧
      ((p + q).Defined σ ↔ p.Defined σ ∧ q.Defined σ) ∧
      ((p - q).Defined σ ↔ p.Defined σ ∧ q.Defined σ) ∧
      ((p * q).Defined σ ↔ p.Defined σ ∧ q.Defined σ) ∧
      ((min p q).Defined σ ↔ p.Defined σ ∧ q.Defined σ) ∧
      ((max p q).Defined σ ↔ p.Defined σ ∧ q.Defined σ) ∧
      ((truncdiv p q).Defined σ ↔ q.value σ ≠ 0 ∧ p.Defined σ ∧ q.Defined σ) ∧
      ((truncmod p q).Defined σ ↔ q.value σ ≠ 0 ∧ p.Defined σ ∧ q.Defined σ) ∧
      ((floordiv p q).Defined σ ↔ q.value σ ≠ 0 ∧ p.Defined σ ∧ q.Defined σ) ∧
      ((floormod p q).Defined σ ↔ q.value σ ≠ 0 ∧ p.Defined σ ∧ q.Defined σ) := by
  refine ⟨?_, ?_, fun p q => ⟨?_, ?_⟩⟩
  · and_intros <;> intros <;> rfl
  · and_intros <;> intros <;> trivial
  · and_intros <;> rfl
  · and_intros <;> first | exact defined_binary σ rfl | exact defined_division σ rfl

end

section

variable {sources : List Pattern} {result : Pattern}

@[simp] theorem rule_sound :
    (∀ admitted : Admitted sources result [] none none,
      ((tryRewrite sources result admitted).Sound ↔ ∀ source ∈ sources, ∀ σ, source.Defined σ →
        result.Defined σ ∧ result.value σ = source.value σ) ∧
      ((tryRecursiveRewrite sources result admitted).Sound ↔ ∀ source ∈ sources, ∀ σ,
        source.Defined σ → result.Defined σ ∧ result.value σ = source.value σ)) ∧
    ∀ checks (admitted : Admitted sources result checks none none),
      ((tryRewriteIf sources result checks admitted).Sound ↔
        ∀ source ∈ sources, ∀ σ, source.Defined σ → Reads σ checks ∧
          ((∀ check ∈ checks, check.Known σ) → result.Defined σ) ∧
          ((∀ check ∈ checks, check.Holds σ) → result.value σ = source.value σ)) ∧
      ((tryRecursiveRewriteIf sources result checks admitted).Sound ↔
        ∀ source ∈ sources, ∀ σ, source.Defined σ → Reads σ checks ∧
          ((∀ check ∈ checks, check.Known σ) → result.Defined σ) ∧
          ((∀ check ∈ checks, check.Holds σ) → result.value σ = source.value σ)) := by
  simp [Rule.Sound, tryRewrite, tryRecursiveRewrite, tryRewriteIf, tryRecursiveRewriteIf, Reads]

variable (σ : Values)

@[simp] theorem check_cases :
    (Reads σ [] ∧
      (∀ holds rest, Reads σ (.cond holds :: rest) ↔ (holds σ.const = true → Reads σ rest)) ∧
      (∀ value rest, Reads σ (.computes value :: rest) ↔
        (-2 ^ 63 ≤ value σ.const ∧ value σ.const < 2 ^ 63 → Reads σ rest)) ∧
      (∀ p value rest, Reads σ (.greaterEqual p value :: rest) ↔ p.Defined σ ∧ Reads σ rest) ∧
      ∀ p rest, Reads σ (.equalZero p :: rest) ↔ p.Defined σ ∧ Reads σ rest) ∧
    (∀ holds, ((Check.cond holds).Known σ ↔ holds σ.const = true) ∧
      ((Check.cond holds).Holds σ ↔ holds σ.const = true)) ∧
    ∀ p, (∀ value, (Check.greaterEqual p value).Known σ ∧
        ((Check.greaterEqual p value).Holds σ ↔ value σ.const ≤ p.value σ)) ∧
      (Check.equalZero p).Known σ ∧ ((Check.equalZero p).Holds σ ↔ p.value σ = 0) := by
  simp [Reads, Check.patterns, Check.Known, Check.Holds]

end

theorem addCancellation_sound : ∀ rule ∈ addCancellation, rule.Sound := by
  simp +contextual only [addCancellation, opposite, mul_neg, rule_sound, check_cases, pattern_cases,
    List.forall_mem_cons, List.not_mem_nil, decide_eq_true_eq, and_imp, true_implies, implies_true,
    true_and, and_true, false_imp_iff]
  and_intros <;> intros <;> omega

theorem subMinMax_sound : ∀ rule ∈ subMinMax, rule.Sound := by
  simp +contextual only [subMinMax, rule_sound, check_cases, pattern_cases, List.forall_mem_cons,
    List.not_mem_nil, true_implies, implies_true, true_and, and_true, false_imp_iff]
  and_intros <;> intros <;> omega

theorem order_sound : ∀ rule ∈ minSame ++ minConstant ++ minLattice ++ minCanonical ++ maxSame ++
    maxConstant ++ maxLattice ++ maxCanonical, rule.Sound := by
  simp only [minSame, minConstant, minLattice, minCanonical, maxSame, maxConstant, maxLattice,
    maxCanonical, rule_sound, check_cases, pattern_cases, List.forall_mem_append, List.forall_mem_cons,
    List.not_mem_nil, decide_eq_true_eq, ne_eq, true_implies, implies_true, true_and, and_true,
    false_imp_iff]
  and_intros <;> intros <;> omega

theorem product_sound : ∀ rule ∈ addFolding ++ subCancellation ++ subCanonical, rule.Sound := by
  simp only [addFolding, subCancellation, subCanonical, rule_sound, pattern_cases,
    List.forall_mem_append, List.forall_mem_cons, List.not_mem_nil, true_implies, implies_true,
    true_and, and_true, false_imp_iff]
  and_intros <;> intros <;> first | omega | ring

end Tlm.Arith.RewriteSimplifier
