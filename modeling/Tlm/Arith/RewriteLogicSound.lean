import Tlm.Shared.Division
import Tlm.Arith.RewriteLogicRules
import Tlm.Arith.RewriteRulesSound

set_option autoImplicit false

namespace Tlm.Arith.RewriteSimplifier

open Division

@[simp] theorem truth_cases (σ : Values) :
    (∀ value, (Pattern.truth value).value σ = value.toInt ∧ (Pattern.truth value).Defined σ) ∧
    (∀ p, (Pattern.not p).value σ = (decide (p.value σ = 0)).toInt ∧
      ((Pattern.not p).Defined σ ↔ p.Defined σ)) ∧
    ∀ p q : Pattern,
      ((p.eq q).value σ = (decide (p.value σ = q.value σ)).toInt ∧
        (p.ne q).value σ = (decide (p.value σ ≠ q.value σ)).toInt ∧
        (p.lt q).value σ = (decide (p.value σ < q.value σ)).toInt ∧
        (p.le q).value σ = (decide (p.value σ ≤ q.value σ)).toInt ∧
        (p.gt q).value σ = (decide (q.value σ < p.value σ)).toInt ∧
        (p.ge q).value σ = (decide (q.value σ ≤ p.value σ)).toInt ∧
        (p.and q).value σ = (decide (p.value σ ≠ 0 ∧ q.value σ ≠ 0)).toInt ∧
        (p.or q).value σ = (decide (p.value σ ≠ 0 ∨ q.value σ ≠ 0)).toInt) ∧
      ((p.eq q).Defined σ ↔ p.Defined σ ∧ q.Defined σ) ∧
      ((p.ne q).Defined σ ↔ p.Defined σ ∧ q.Defined σ) ∧
      ((p.lt q).Defined σ ↔ p.Defined σ ∧ q.Defined σ) ∧
      ((p.le q).Defined σ ↔ p.Defined σ ∧ q.Defined σ) ∧
      ((p.gt q).Defined σ ↔ p.Defined σ ∧ q.Defined σ) ∧
      ((p.ge q).Defined σ ↔ p.Defined σ ∧ q.Defined σ) ∧
      ((p.and q).Defined σ ↔ p.Defined σ ∧ q.Defined σ) ∧
      ((p.or q).Defined σ ↔ p.Defined σ ∧ q.Defined σ) := by
  refine ⟨fun _ => ⟨rfl, trivial⟩, fun _ => ⟨rfl, Iff.rfl⟩, fun p q => ⟨?_, ?_⟩⟩
  · and_intros <;> rfl
  · and_intros <;> exact defined_binary σ rfl

@[simp] theorem toInt_iff {p q : Prop} [Decidable p] [Decidable q] :
    (decide p).toInt = (decide q).toInt ↔ (p ↔ q) := by
  by_cases holds : p <;> by_cases holds' : q <;> simp [holds, holds']

@[simp] theorem toInt_cases {p : Prop} [Decidable p] :
    ((decide p).toInt = 0 ↔ ¬p) ∧ (false.toInt = (decide p).toInt ↔ ¬p) ∧
      (true.toInt = (decide p).toInt ↔ p) := by
  by_cases holds : p <;> simp [holds]

section

variable {sources : List Pattern} {result : Pattern} {checks : List Check} {needs : Consts → Bool}

@[simp] theorem needing_sound (admitted : Admitted sources result checks (some needs) none) :
    (tryRecursiveRewriteNeeding sources result checks needs admitted).Sound ↔
      ∀ source ∈ sources, ∀ σ, source.Defined σ → Reads σ checks ∧
        ((∀ check ∈ checks, check.Known σ) → needs σ.const = true → result.Defined σ) ∧
        ((∀ check ∈ checks, check.Holds σ) → needs σ.const = true → result.value σ = source.value σ) := by
  simp [Rule.Sound, tryRecursiveRewriteNeeding]

end

theorem linear_sound : ∀ rule ∈ ltCanonical ++ notRules ++ andContradiction ++ orRules, rule.Sound := by
  simp +contextual only [ltCanonical, notRules, andContradiction, orRules, rule_sound, check_cases,
    pattern_cases, truth_cases, toInt_iff, toInt_cases, not_not, List.forall_mem_append,
    List.forall_mem_cons, List.not_mem_nil, decide_eq_true_eq, ne_eq, and_imp, true_implies,
    implies_true, true_and, and_true, false_imp_iff]
  and_intros <;> intros <;> omega

theorem eqRules_sound : ∀ rule ∈ eqRules, rule.Sound := by
  simp +contextual only [eqRules, rule_sound, pattern_cases, truth_cases, toInt_iff, toInt_cases,
    not_not, List.forall_mem_cons, List.not_mem_nil, ne_eq, true_implies, implies_true, true_and,
    and_true, false_imp_iff]
  and_intros <;> intros
  on_goal 5 => rw [mul_eq_zero]
  all_goals omega

theorem ltCancellation_sound : ∀ rule ∈ ltCancellation, rule.Sound := by
  simp +contextual only [ltCancellation, rule_sound, check_cases, pattern_cases, truth_cases, toInt_iff,
    List.forall_mem_cons, List.not_mem_nil, decide_eq_true_eq, true_implies, implies_true, true_and,
    and_true, false_imp_iff]
  and_intros <;> intro σ
  on_goal 10 => exact fun positive => (mul_lt_mul_iff_left₀ positive).symm
  on_goal 10 => exact fun negative => (mul_lt_mul_right_of_neg negative).symm
  all_goals omega

theorem ltScaling_sound : ∀ rule ∈ ltScaling, rule.Sound := by
  simp +contextual only [ltScaling, rule_sound, check_cases, pattern_cases, truth_cases, toInt_iff,
    List.forall_mem_cons, List.not_mem_nil, decide_eq_true_eq, ne_eq, and_imp, true_implies,
    implies_true, true_and, and_true, false_imp_iff]
  and_intros <;> intro σ <;> refine ⟨by omega, fun sign positive => ?_⟩
  · have bound := le_tdiv_iff (σ.expr .x) (show 0 ≤ σ.const .c1 - 1 by omega) positive
    omega
  · have bound := tdiv_lt_iff (-σ.expr .x) (show 0 ≤ -σ.const .c1 by omega) positive
    rw [Int.neg_tdiv, neg_mul] at bound
    omega
  · have bound := le_tdiv_iff (-σ.expr .x) (show 0 ≤ σ.const .c1 - 1 by omega)
      (show 0 < -σ.const .c2 by omega)
    rw [Int.tdiv_neg, neg_mul_neg] at bound
    omega
  · have bound := tdiv_lt_iff (σ.expr .x) (show 0 ≤ -σ.const .c1 by omega)
      (show 0 < -σ.const .c2 by omega)
    rw [Int.neg_tdiv_neg, mul_neg] at bound
    omega
  · have bound := le_tdiv_iff (-σ.expr .x) (show 0 ≤ -(σ.const .c1 + 1) by omega) positive
    rw [Int.neg_tdiv, neg_mul] at bound
    omega
  · have bound := tdiv_lt_iff (σ.expr .x) sign positive
    omega
  · have bound := le_tdiv_iff (σ.expr .x) (show 0 ≤ -(σ.const .c1 + 1) by omega)
      (show 0 < -σ.const .c2 by omega)
    rw [Int.neg_tdiv_neg, mul_neg] at bound
    omega
  · have bound := tdiv_lt_iff (-σ.expr .x) sign (show 0 < -σ.const .c2 by omega)
    rw [Int.tdiv_neg, neg_mul_neg] at bound
    omega

theorem ltQuotient_sound : ∀ rule ∈ ltQuotient, rule.Sound := by
  simp +contextual only [ltQuotient, rule_sound, check_cases, pattern_cases, truth_cases, toInt_iff,
    List.forall_mem_cons, List.not_mem_nil, decide_eq_true_eq, ne_eq, and_imp, implies_true, true_and,
    and_true, false_imp_iff]
  -- A quotient has the sign of its dividend.
  have sign : ∀ {x c : Int}, 0 < c → x ≤ 0 → 0 ≤ -x ∧ x.tdiv c = -(-x).tdiv c ∧ x.tdiv c ≤ 0 := by
    intro x c positive nonpos
    have quotient := Int.tdiv_nonneg (show 0 ≤ -x by omega) positive.le
    rw [Int.neg_tdiv] at quotient ⊢
    omega
  and_intros <;> intro σ _
  · intro positive above
    rcases le_total 0 (σ.expr .x) with nonneg | nonpos
    · have bound := tdiv_lt_iff (σ.const .c2) nonneg positive
      rw [mul_comm] at bound
      exact bound.symm
    · have product := mul_pos positive above
      have quotient := sign positive nonpos
      omega
  · intro positive below
    rcases lt_or_ge (σ.expr .x) 0 with negative | nonneg
    · obtain ⟨dividend, same, -⟩ := sign positive negative.le
      have bound := le_tdiv_iff (1 - σ.const .c2) dividend positive
      have product : σ.const .c1 * (σ.const .c2 - 1) = -((1 - σ.const .c2) * σ.const .c1) := by ring
      omega
    · have quotient := Int.tdiv_nonneg nonneg positive.le
      have product : σ.const .c1 * (σ.const .c2 - 1) ≤ -σ.const .c1 := by nlinarith
      omega
  · intro above positive
    rcases le_total 0 (σ.expr .x) with nonneg | nonpos
    · have bound := le_tdiv_iff (σ.const .c1 + 1) nonneg positive
      omega
    · have quotient := sign positive nonpos
      have product : σ.const .c2 ≤ (σ.const .c1 + 1) * σ.const .c2 := by nlinarith
      omega
  · intro below positive
    rcases lt_or_ge (σ.expr .x) 0 with negative | nonneg
    · obtain ⟨dividend, same, -⟩ := sign positive negative.le
      have bound := tdiv_lt_iff (-σ.const .c1) dividend positive
      rw [same, neg_mul] at *
      omega
    · have quotient := Int.tdiv_nonneg nonneg positive.le
      have product := mul_neg_of_neg_of_pos below positive
      omega

theorem ltRemainder_sound : ∀ rule ∈ ltTruncRemainder ++ ltFloor, rule.Sound := by
  simp +contextual only [ltTruncRemainder, ltFloor, tdiv_mul, fdiv_mul, rule_sound, check_cases,
    pattern_cases, truth_cases, toInt_iff, List.forall_mem_append, List.forall_mem_cons,
    List.not_mem_nil, decide_eq_true_eq, ne_eq, not_false_eq_true, implies_true, true_and, and_true,
    false_imp_iff]
  and_intros <;> intro σ _ positive
  on_goal 7 => rw [fdiv_lt_iff _ _ positive, mul_comm]
  on_goal 7 =>
    have bound := le_fdiv_iff (σ.expr .x) (σ.const .c1 + 1) positive
    omega
  all_goals omega

theorem andQuotient_sound : ∀ rule ∈ andQuotient, rule.Sound := by
  simp +contextual only [andQuotient, mul_neg, ← sub_eq_add_neg, rule_sound, check_cases, pattern_cases,
    needing_sound, truth_cases, toInt_iff, toInt_cases, not_not, List.forall_mem_cons, List.not_mem_nil,
    decide_eq_true_eq, ne_eq, not_false_eq_true, and_imp, true_implies, implies_true, true_and,
    and_true, false_imp_iff]
  have quotient : ∀ {x y c : Int}, 0 < c → (y = x.fdiv c ↔ 0 ≤ x - y * c ∧ x - y * c < c) :=
    fun positive => eq_comm.trans (fdiv_eq_iff _ _ positive)
  and_intros <;> intro σ
  · exact fun _ range => (fdiv_fmod_eq_iff _ _ range).symm
  · exact fun _ range => (fdiv_fmod_eq_iff _ _ range).symm.trans and_comm
  · exact ⟨by omega, quotient⟩
  · exact ⟨by omega, fun positive => (quotient positive).trans and_comm⟩
  · exact ⟨by omega, fun negative => eq_comm.trans (fdiv_eq_iff_of_neg _ _ negative)⟩
  · exact ⟨by omega, fun positive => (quotient positive).trans and_comm⟩
  · exact ⟨by omega, fun _ _ => quotient⟩
  · exact ⟨by omega, fun _ _ positive => (quotient positive).trans and_comm⟩

theorem wrapped_eq (a : Int) {b : Int} (nonzero : b ≠ 0) : wrapped a b = a.fmod b := by
  have positive : ∀ {a b : Int}, 0 < b → wrapped a b = a.fmod b := by
    intro a b positive
    have low : -b < a.tmod b := by
      have size := Int.natAbs_tmod a b
      have small := Nat.mod_lt a.natAbs (show 0 < b.natAbs by omega)
      omega
    rw [wrapped, tmod_eq_fmod (by omega) positive]
    refine fmod_congr ⟨1 - a.tdiv b, ?_⟩
    linarith [Int.mul_tdiv_add_tmod a b]
  rcases lt_or_gt_of_ne nonzero with negative | above
  · have flipped := positive (a := -a) (show 0 < -b by omega)
    rw [wrapped, Int.tmod_neg, Int.neg_tmod, ← neg_add, Int.tmod_neg, Int.neg_tmod, Int.neg_fmod_neg] at flipped
    exact neg_injective flipped
  · exact positive above

theorem andRemainder_sound : ∀ rule ∈ andRemainder, rule.Sound := by
  simp +contextual only [andRemainder, rule_sound, check_cases, pattern_cases, needing_sound,
    truth_cases, toInt_iff, toInt_cases, not_not, List.forall_mem_cons, List.not_mem_nil,
    decide_eq_true_eq, ne_eq, not_false_eq_true, and_imp, implies_true, true_and, and_true,
    false_imp_iff]
  and_intros <;> intro σ nonzero
  · intro _ divides positive range
    exact lt_multiple_iff _ positive (Int.dvd_of_tmod_eq_zero divides) range
  · intro _ small
    rw [wrapped_eq _ nonzero] at small
    exact lt_remainder_iff _ nonzero small
  · intro _ _ divides positive range
    rw [lt_multiple_iff _ positive (Int.dvd_of_tmod_eq_zero divides) range, Int.lt_add_one_iff]
  · intro _ _ small
    rw [wrapped_eq _ nonzero] at small
    exact le_remainder_iff _ nonzero small

theorem andRange_sound : ∀ rule ∈ andRange, rule.Sound := by
  simp +contextual only [andRange, rule_sound, check_cases, pattern_cases, needing_sound, truth_cases,
    toInt_iff, toInt_cases, not_not, List.forall_mem_cons, List.not_mem_nil, decide_eq_true_eq, ne_eq,
    not_false_eq_true, and_imp, true_implies, implies_true, true_and, and_true, false_imp_iff]
  have split : ∀ {x q c : Int}, 0 < c → (x.fdiv c = q ↔ 0 ≤ x - q * c ∧ x - q * c < c) ∧
      (x.fdiv c = q → x.fmod c = x - q * c) := by
    intro x q c positive
    refine ⟨fdiv_eq_iff x q positive, ?_⟩
    rintro rfl
    linarith [Int.fdiv_mul_add_fmod x c]
  and_intros <;> intro σ
  on_goal 9 => omega
  all_goals
    intro _ positive range
    have parts := split (x := σ.expr .x) (q := σ.const .c1) positive
    have next : (σ.const .c1 + 1) * σ.const .c2 = σ.const .c1 * σ.const .c2 + σ.const .c2 := by ring
    by_cases same : (σ.expr .x).fdiv (σ.const .c2) = σ.const .c1
    · omega
    · omega

end Tlm.Arith.RewriteSimplifier
