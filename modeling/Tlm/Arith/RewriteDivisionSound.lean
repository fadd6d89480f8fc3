import Tlm.Shared.Division
import Tlm.Arith.RewriteRulesSound

set_option autoImplicit false

namespace Tlm.Arith.RewriteSimplifier

open Division

theorem subTruncDiv_sound : ∀ rule ∈ subTruncDiv, rule.Sound := by
  simp +contextual only [subTruncDiv, nonzero, product, tdiv_mul, tdiv_mul_mul, rule_sound, check_cases,
    pattern_cases, List.forall_mem_cons, List.not_mem_nil, decide_eq_true_eq, ne_eq, not_false_eq_true,
    and_imp, true_implies, implies_true, true_and, and_true, false_imp_iff]
  and_intros <;> intros <;> ring

theorem subFloorMul_sound : ∀ rule ∈ subFloorRemainder ++ subFloorProduct, rule.Sound := by
  simp +contextual only [subFloorRemainder, subFloorProduct, nonzero, product, fdiv_mul, fdiv_mul_mul,
    rule_sound, check_cases, pattern_cases, List.forall_mem_append, List.forall_mem_cons,
    List.not_mem_nil, decide_eq_true_eq, ne_eq, not_false_eq_true, and_imp, true_implies, implies_true,
    true_and, and_true, false_imp_iff]
  and_intros <;> intros <;> ring

theorem addCanonical_sound : ∀ rule ∈ addCanonical, rule.Sound := by
  simp +contextual only [addCanonical, rule_sound, pattern_cases, List.forall_mem_cons,
    List.not_mem_nil, ne_eq, not_false_eq_true, true_implies, implies_true, true_and, and_true,
    false_imp_iff]
  and_intros <;> intros <;> ring

theorem fdiv_two (x : Int) : x.fdiv 2 = x / 2 :=
  Int.fdiv_eq_ediv_of_nonneg x (by decide)

theorem fmod_two (x : Int) : x.fmod 2 = x % 2 :=
  Int.fmod_eq_emod_of_nonneg x (by decide)

theorem floormod_two (x : Int) : Arith.floormod x 2 = x % 2 := by
  rw [← (floordiv_floormod x two_ne_zero).2, fmod_two]

theorem subFloorHalves_sound : ∀ rule ∈ subFloorHalves, rule.Sound := by
  simp +contextual only [subFloorHalves, OfNat.ofNat_ne_zero, fdiv_two, fmod_two, rule_sound,
    pattern_cases, List.forall_mem_cons, List.not_mem_nil, ne_eq, not_false_eq_true, true_implies,
    implies_true, true_and, and_true, false_imp_iff]
  and_intros <;> intro σ <;>
    rcases Int.emod_two_eq (σ.expr .x) with parity | parity <;> simp only [parity] <;> omega

theorem addDivMod_sound : ∀ rule ∈ addDivMod, rule.Sound := by
  simp +contextual only [addDivMod, fdiv_two, fmod_two, floormod_two, rule_sound, check_cases,
    pattern_cases, List.forall_mem_cons, List.not_mem_nil, decide_eq_true_eq, ne_eq, not_false_eq_true,
    and_imp, true_implies, implies_true, true_and, and_true, false_imp_iff]
  and_intros
  · intro σ _
    rw [Int.tdiv_mul_add_tmod]
  · intro σ _
    rw [Int.fdiv_mul_add_fmod]
  · intro σ _
    rw [Int.mul_fdiv_add_fmod]
  · intro σ _
    rw [Int.fmod_add_fdiv_mul]
  · intro σ _
    rw [Int.fmod_add_mul_fdiv]
  · intro σ _ positive
    have difference := fdiv_sub_fdiv (σ.expr .x) (σ.const .c1) 0 positive
    rw [add_zero, sub_zero] at difference
    omega
  all_goals
    intros
    omega

theorem subFloorDifference_sound : ∀ rule ∈ subFloorDifference, rule.Sound := by
  simp +contextual only [subFloorDifference, fdiv_two, fmod_two, rule_sound, check_cases, pattern_cases,
    List.forall_mem_cons, List.not_mem_nil, decide_eq_true_eq, ne_eq, not_false_eq_true, and_imp,
    true_implies, implies_true, true_and, and_true, false_imp_iff]
  and_intros
  · intros
    omega
  · intro σ _ positive
    rw [Int.add_fmod_fmod, fdiv_sub_fdiv _ _ _ positive]
  · intro σ _ positive
    have difference := fdiv_sub_fdiv (σ.expr .x) (σ.const .c1) 0 positive
    rw [add_zero, sub_zero] at difference
    exact difference.symm

theorem subTruncDifference_sound : ∀ rule ∈ subTruncDifference, rule.Sound := by
  rw [subTruncDifference, List.forall_mem_cons, List.forall_mem_singleton]
  constructor
  · intro source mem σ defined
    rw [tryRewriteAssuming, List.mem_singleton] at mem
    subst mem
    simp only [tryRewriteAssuming, Option.some.injEq, forall_eq', reduceCtorEq, check_cases,
      pattern_cases, List.forall_mem_cons, List.not_mem_nil, decide_eq_true_eq, ne_eq, and_imp,
      true_implies, implies_true, true_and, and_true, false_imp_iff] at defined ⊢
    refine ⟨fun _ _ _ => ⟨defined.1, defined.1, defined.1⟩, ?_⟩
    intro _ bound order positive assumed
    rw [← (floordiv_floormod _ defined.1).2] at assumed
    have same : (σ.expr .x + (σ.const .c2).fmod (σ.const .c3)).tmod (σ.const .c3) =
        (σ.expr .x + σ.const .c2).fmod (σ.const .c3) := by
      rw [tmod_eq_fmod assumed positive, Int.add_fmod_fmod]
    have low := Int.fmod_nonneg_of_pos (σ.expr .x + σ.const .c2) positive
    rw [same, tdiv_eq_fdiv (by omega) positive, tdiv_eq_fdiv (by omega) positive,
      tdiv_eq_fdiv (by omega) positive, fdiv_sub_fdiv _ _ _ positive]
  · simp only [nonneg, rule_sound, check_cases, pattern_cases, List.forall_mem_cons, List.not_mem_nil,
    decide_eq_true_eq, ne_eq, and_imp, implies_true, true_and, and_true, false_imp_iff]
    intro σ divisor _
    refine ⟨fun _ _ => ⟨divisor, divisor⟩, fun nonneg first positive => ?_⟩
    have difference := fdiv_sub_fdiv (σ.expr .x) (σ.const .c1) 0 positive
    have low := Int.fmod_nonneg_of_pos (σ.expr .x) positive
    rw [add_zero, sub_zero] at difference
    rw [tmod_eq_fmod nonneg positive, tdiv_eq_fdiv (by omega) positive,
      tdiv_eq_fdiv (by omega) positive, tdiv_eq_fdiv nonneg positive, difference]

theorem mulRules_sound : ∀ rule ∈ mulRules, rule.Sound := by
  simp +contextual only [mulRules, opposite, rule_sound, check_cases, pattern_cases,
    List.forall_mem_cons, List.not_mem_nil, decide_eq_true_eq, ne_eq, not_false_eq_true, and_imp,
    true_implies, implies_true, true_and, and_true, false_imp_iff]
  and_intros
  · intros
    ring
  · intros
    ring
  · intros
    rw [min_mul_max]
  · intros
    rw [max_mul_min]
  · intro σ _ _ _ _
    rw [Int.fdiv_mul_cancel (Int.neg_dvd.2 Int.dvd_self_sub_fmod)]
  all_goals
    intros
    ring

theorem divFolding_sound : ∀ rule ∈ divFolding, rule.Sound := by
  simp +contextual only [divFolding, nonneg, multiple, posMultiple, divides, rule_sound, check_cases,
    pattern_cases, List.forall_mem_cons, List.not_mem_nil, decide_eq_true_eq, ne_eq, not_false_eq_true,
    and_imp, implies_true, true_and, and_true, false_imp_iff]
  and_intros
  · intro σ _ _
    exact ⟨fun first second => (mul_pos first second).ne', fun first second => (tdiv_tdiv _ first second).symm⟩
  · intro σ _ _
    refine ⟨fun first _ second => (mul_pos first second).ne', ?_⟩
    intro first offset second dividend
    have total : 0 ≤ σ.expr .x + σ.const .c1 * σ.const .c2 :=
      add_nonneg dividend (mul_nonneg first.le offset)
    have quotient := Int.fdiv_nonneg dividend first.le
    rw [tdiv_eq_fdiv total (mul_pos first second), tdiv_eq_fdiv dividend first,
      tdiv_eq_fdiv (by omega) second, fdiv_add_fdiv _ _ first second]
  · intro σ divisor _ _ divides
    exact (Int.mul_tdiv_assoc _ (Int.dvd_of_tmod_eq_zero divides)).symm
  · intro σ _
    constructor <;> intro factor divisor divides <;>
      obtain ⟨k, product⟩ := Int.dvd_of_tmod_eq_zero divides
    · have positive : 0 < k := pos_of_mul_pos_right (product ▸ divisor) factor.le
      rw [product, mul_comm (σ.const .c1) k, Int.mul_tdiv_cancel _ factor.ne']
      exact ⟨positive.ne', factor.ne'⟩
    · rw [product, mul_comm (σ.const .c1) k, Int.mul_tdiv_cancel _ factor.ne', mul_comm k,
        mul_comm (σ.expr .x), Int.mul_tdiv_mul_of_pos _ _ factor]
  · intro σ divisor
    rw [Int.tdiv_self divisor]
  · intro σ divisor
    rw [Int.mul_tdiv_cancel_left _ divisor]
  · intro σ divisor
    rw [Int.mul_tdiv_cancel _ divisor]

theorem divSplit_sound : ∀ rule ∈ divSplit, rule.Sound := by
  simp +contextual only [divSplit, nonneg, multiple, nonnegMultiple, posMultiple, List.cons_append,
    List.nil_append, rule_sound, check_cases, pattern_cases, List.forall_mem_cons, List.not_mem_nil,
    decide_eq_true_eq, ne_eq, not_false_eq_true, and_imp, implies_true, true_and, and_true,
    false_imp_iff]
  and_intros <;> intro σ divisor factor positive divides first <;>
    replace divides := Int.dvd_of_tmod_eq_zero divides
  any_goals
    intro _
    rw [← Int.mul_tdiv_assoc _ divides]
    have order := map_min_max (fun _ _ => Int.tdiv_le_tdiv positive)
    first
    | exact (order _ _).1.symm
    | exact (order _ _).2.symm
  · intro second
    exact mul_add_tdiv positive divides (mul_nonneg first factor) second
  · intro second
    rw [add_comm, mul_add_tdiv positive divides (mul_nonneg first factor) second, add_comm]
  · intro second
    rw [mul_add_tdiv positive divides (mul_nonneg first factor) second, add_assoc]
  · intro second
    rw [mul_add_tdiv positive divides (mul_nonneg first factor) second]
    congr 1
    ring
  · intro second
    rw [mul_add_tdiv positive divides (mul_nonneg first factor) second, add_sub_assoc]
  · intro second
    rw [mul_add_tdiv positive divides (mul_nonneg first factor.le) second]
    congr 1
    ring
  · rw [add_comm (σ.expr .x), add_tdiv_of_dvd positive divides factor.le first, add_comm]

theorem divCancellation_sound : ∀ rule ∈ divCancellation, rule.Sound := by
  simp +contextual only [divCancellation, nonneg, rule_sound, check_cases, pattern_cases,
    List.forall_mem_cons, List.not_mem_nil, ne_eq, not_false_eq_true, and_imp, true_implies,
    implies_true, true_and, and_true, false_imp_iff]
  -- One more divisor in the dividend adds one to the quotient.
  have step : ∀ {x y t : Int}, ¬x = 0 → 0 ≤ x → 0 ≤ y → t = x + y →
      y.tdiv x + 1 = t.tdiv x := by
    rintro x y t divisor nonneg dividend rfl
    rw [add_tdiv_of_dvd (by omega) dvd_rfl nonneg dividend, Int.tdiv_self divisor, add_comm]
  have scaled : ∀ {x y z t : Int}, ¬z = 0 → 0 ≤ x → 0 ≤ y → 0 ≤ z → t = x * z + y →
      x + y.tdiv z = t.tdiv z := by
    rintro x y z t divisor first second nonneg rfl
    rw [add_tdiv_of_dvd (by omega) (dvd_mul_left z x) (mul_nonneg first nonneg) second,
      Int.mul_tdiv_cancel _ divisor]
  and_intros
  iterate 6 exact fun σ divisor nonneg second => step divisor nonneg second (by ring)
  · exact fun σ divisor _ _ => (Int.mul_tdiv_cancel _ divisor).symm
  · exact fun σ divisor _ _ => (Int.mul_tdiv_cancel_left _ divisor).symm
  iterate 2 exact fun σ divisor first second nonneg => scaled divisor first second nonneg (by ring)
  iterate 2 exact fun σ divisor first second nonneg =>
    (add_comm _ _).trans (scaled divisor first second nonneg (by ring))

theorem modRules_sound : ∀ rule ∈ modRules, rule.Sound := by
  simp +contextual only [modRules, nonneg, multiple, List.cons_append, List.nil_append, rule_sound,
    check_cases, pattern_cases, List.forall_mem_cons, List.not_mem_nil, decide_eq_true_eq, ne_eq,
    not_false_eq_true, and_imp, true_implies, implies_true, true_and, and_true, false_imp_iff]
  and_intros
  · intro σ _ _ divides
    exact (Int.tmod_eq_zero_of_dvd (dvd_mul_of_dvd_right (Int.dvd_of_tmod_eq_zero divides) _)).symm
  · intro σ _ positive divides first second
    exact (add_tmod_of_dvd positive
      (dvd_mul_of_dvd_right (Int.dvd_of_tmod_eq_zero divides) _) first second).symm
  · intro σ _ positive factor divides nonneg
    rw [add_comm, add_tmod_of_dvd positive (Int.dvd_of_tmod_eq_zero divides) factor nonneg]
  · intro σ _ positive divides first second
    rw [add_comm, add_tmod_of_dvd positive
      (dvd_mul_of_dvd_right (Int.dvd_of_tmod_eq_zero divides) _) second first]
  · intro σ _
    exact ⟨fun negative => by omega, fun negative => Int.tmod_neg _ _⟩

theorem floorDivNested_sound : ∀ rule ∈ floorDivNested, rule.Sound := by
  simp +contextual only [floorDivNested, rule_sound, check_cases, pattern_cases, List.forall_mem_cons,
    List.not_mem_nil, decide_eq_true_eq, ne_eq, and_imp, implies_true, true_and, and_true,
    false_imp_iff]
  constructor
  · intro σ _ _
    exact ⟨fun first second => (mul_pos first second).ne', fun first second => (fdiv_fdiv _ first second).symm⟩
  · intro σ _ _
    exact ⟨fun first second => (mul_pos first second).ne', fun first second => fdiv_add_fdiv _ _ first second⟩

theorem floorDivSplit_sound : ∀ rule ∈ floorDivSplit, rule.Sound := by
  simp +contextual only [floorDivSplit, multiple, divides, List.cons_append, List.nil_append,
    rule_sound, check_cases, pattern_cases, List.forall_mem_cons, List.not_mem_nil, decide_eq_true_eq,
    ne_eq, not_false_eq_true, and_imp, true_implies, implies_true, true_and, and_true, false_imp_iff]
  have split : ∀ {x y c d t : Int}, ¬c = 0 → 0 < c → d.tmod c = 0 → t = x * d + y →
      x * d.fdiv c + y.fdiv c = t.fdiv c := by
    rintro x y c d t - - divides rfl
    exact mul_add_fdiv_of_dvd x y (Int.dvd_of_tmod_eq_zero divides)
  and_intros
  any_goals
    intro σ divisor positive divides
    rw [← Int.mul_fdiv_assoc _ (Int.dvd_of_tmod_eq_zero divides)]
    have order := map_min_max (fun _ _ => fdiv_mono positive)
    first
    | exact (order _ _).1.symm
    | exact (order _ _).2.symm
  · exact fun σ divisor => (Int.fdiv_self divisor).symm
  · exact fun σ divisor => (Int.mul_fdiv_cancel_left _ divisor).symm
  · exact fun σ divisor => (Int.mul_fdiv_cancel _ divisor).symm
  · intros
    rw [fdiv_two, fmod_two]
    omega
  · exact fun σ divisor positive divides => split divisor positive divides (by ring)
  · intro σ divisor
    refine ⟨fun factor _ _ => factor.ne', fun factor positive divides => ?_,
      fun factor positive divides small => ?_⟩
    · have divides := Int.dvd_of_tmod_eq_zero divides
      exact ⟨(fdiv_pos_of_dvd positive factor divides).ne', factor.ne'⟩
    · have divides := Int.dvd_of_tmod_eq_zero divides
      rw [add_assoc, mul_add_fdiv _ positive factor divides small]
  · exact fun σ divisor positive divides => split divisor positive divides (by ring)
  · exact fun σ divisor positive divides => split divisor positive divides (by ring)
  · exact fun σ divisor positive divides => split divisor positive divides (by ring)
  · intro σ divisor positive divides
    rw [add_comm (σ.expr .x), Int.add_fdiv_of_dvd_left (Int.dvd_of_tmod_eq_zero divides), add_comm]

theorem floorDivCancellation_sound : ∀ rule ∈ floorDivCancellation, rule.Sound := by
  simp +contextual only [floorDivCancellation, nonneg, nonzero, rule_sound, check_cases, pattern_cases,
    List.forall_mem_cons, List.not_mem_nil, decide_eq_true_eq, ne_eq, not_false_eq_true, and_imp,
    true_implies, implies_true, true_and, and_true, false_imp_iff]
  have step : ∀ {x y t : Int}, ¬x = 0 → t = x + y → y.fdiv x + 1 = t.fdiv x := by
    rintro x y t divisor rfl
    rw [Int.add_fdiv_of_dvd_left dvd_rfl, Int.fdiv_self divisor, add_comm]
  have scaled : ∀ {x y z t : Int}, ¬z = 0 → t = x * z + y → x + y.fdiv z = t.fdiv z := by
    rintro x y z t divisor rfl
    rw [Int.mul_add_fdiv_right _ _ divisor, add_comm]
  and_intros
  · intro σ divisor
    exact ⟨fun positive => positive.ne', fun _ => (mul_fdiv_mul_of_ne _ _ (left_ne_zero_of_mul divisor)).symm⟩
  iterate 6 exact fun σ divisor _ => step divisor (by ring)
  · exact fun σ divisor _ => (Int.mul_fdiv_cancel _ divisor).symm
  · exact fun σ divisor _ => (Int.mul_fdiv_cancel_left _ divisor).symm
  iterate 2 exact fun σ divisor _ => scaled divisor (by ring)
  iterate 2 exact fun σ divisor _ => (add_comm _ _).trans (scaled divisor (by ring))
  · intro σ divisor
    rw [← fdiv_mul, Int.mul_fdiv_cancel _ divisor]

theorem floorModRules_sound : ∀ rule ∈ floorModRules, rule.Sound := by
  simp +contextual only [floorModRules, divides, List.cons_append, List.nil_append, rule_sound,
    check_cases, pattern_cases, List.forall_mem_cons, List.not_mem_nil, decide_eq_true_eq, ne_eq,
    not_false_eq_true, and_imp, true_implies, implies_true, true_and, and_true, false_imp_iff]
  -- Replacing a factor by its remainder stays in the residue class.
  have reduce : ∀ x c d : Int, d ∣ x * c.fmod d - x * c := by
    intro x c d
    rw [← mul_sub]
    exact dvd_mul_of_dvd_right (Int.dvd_fmod_sub_self) x
  and_intros
  · exact fun σ _ => fmod_congr (reduce _ _ _)
  · intro σ divisor
    refine ⟨fun factor _ _ => factor.ne', fun factor positive divides => ?_,
      fun factor positive divides small => ?_⟩
    · have divides := Int.dvd_of_tmod_eq_zero divides
      exact ⟨(fdiv_pos_of_dvd positive factor divides).ne', factor.ne'⟩
    · have divides := Int.dvd_of_tmod_eq_zero divides
      exact (mul_add_fmod _ positive factor divides small).symm
  · exact fun σ _ _ => fmod_congr (by simpa using reduce _ _ _)
  · exact fun σ _ _ _ => Int.add_fmod_fmod _ _ _
  · exact fun σ _ _ => fmod_congr (by simpa using reduce _ _ _)
  · intro σ divisor _
    exact (mul_fmod_mul_of_ne _ _ (left_ne_zero_of_mul divisor)).symm
  · exact fun σ _ => (Int.mul_fmod_left _ _).symm
  · exact fun σ _ => (Int.mul_fmod_right _ _).symm

theorem minMaxDivMod_sound : ∀ rule ∈ minDivMod ++ maxDivMod, rule.Sound := by
  simp +contextual only [minDivMod, maxDivMod, roundsUp, List.cons_append, List.nil_append, rule_sound,
    check_cases, pattern_cases, List.forall_mem_cons, List.not_mem_nil, decide_eq_true_eq, ne_eq,
    not_false_eq_true, and_imp, implies_true, true_and, and_true, false_imp_iff]
  -- Rounding up goes above the dividend, and from one on not below the divisor.
  have ceiling : ∀ {x c d : Int}, d + 1 = c → 0 < c → 1 ≤ x →
      max x c ≤ (x + d).tdiv c * c ∧ max x c ≤ (x + d).fdiv c * c := by
    intro x c d next positive above
    have enough : c ≤ x + d := by omega
    exact ⟨max_le (le_tdiv_mul x next positive) (divisor_le_tdiv_mul positive enough),
      max_le (le_fdiv_mul x next positive) (divisor_le_fdiv_mul positive enough)⟩
  and_intros
  · exact fun σ _ positive _ next => (min_eq_right (le_tdiv_mul _ next positive)).symm
  · exact fun σ _ positive _ next => (min_eq_left (le_tdiv_mul _ next positive)).symm
  · exact fun σ _ positive _ next => (min_eq_right (le_fdiv_mul _ next positive)).symm
  · exact fun σ _ positive _ next => (min_eq_left (le_fdiv_mul _ next positive)).symm
  · exact fun σ _ positive _ next above => (min_eq_right (ceiling next positive above).1).symm
  · exact fun σ _ positive _ next above => (min_eq_left (ceiling next positive above).1).symm
  · exact fun σ _ positive _ next above => (min_eq_right (ceiling next positive above).2).symm
  · exact fun σ _ positive _ next above => (min_eq_left (ceiling next positive above).2).symm
  · exact fun σ _ positive => (min_eq_right (fdiv_mul_le _ positive)).symm
  · exact fun σ _ positive => (min_eq_left (fdiv_mul_le _ positive)).symm
  · exact fun σ _ positive _ next => (max_eq_left (le_tdiv_mul _ next positive)).symm
  · exact fun σ _ positive _ next => (max_eq_right (le_tdiv_mul _ next positive)).symm
  · exact fun σ _ positive _ next => (max_eq_left (le_fdiv_mul _ next positive)).symm
  · exact fun σ _ positive _ next => (max_eq_right (le_fdiv_mul _ next positive)).symm
  · exact fun σ _ positive => (max_eq_right (fdiv_mul_le _ positive)).symm
  · exact fun σ _ positive => (max_eq_left (fdiv_mul_le _ positive)).symm

theorem minMaxScaling_sound : ∀ rule ∈ minScaling ++ maxScaling, rule.Sound := by
  simp +contextual only [minScaling, maxScaling, rule_sound, check_cases, pattern_cases,
    List.forall_mem_append, List.forall_mem_cons, List.not_mem_nil, decide_eq_true_eq, ne_eq,
    not_false_eq_true, and_imp, true_implies, implies_true, true_and, and_true, false_imp_iff]
  have scale : ∀ {x y c : Int}, 0 < c →
      min x y * c = min (x * c) (y * c) ∧ max x y * c = max (x * c) (y * c) :=
    fun positive => map_min_max (fun _ _ le => mul_le_mul_of_nonneg_right le positive.le) _ _
  have flip : ∀ {x y c : Int}, ¬0 < c →
      max x y * c = min (x * c) (y * c) ∧ min x y * c = max (x * c) (y * c) :=
    fun positive => map_max_min (fun _ _ le => mul_le_mul_of_nonpos_right le (not_lt.1 positive)) _ _
  have exact_quotient : ∀ {c d : Int}, d.tmod c = 0 → d.tdiv c * c = d :=
    fun divides => Int.tdiv_mul_cancel (Int.dvd_of_tmod_eq_zero divides)
  and_intros
  · exact fun σ _ positive => (map_min_max (fun _ _ => Int.tdiv_le_tdiv positive) _ _).1
  · exact fun σ _ positive => (map_max_min (fun _ _ => tdiv_anti (by omega)) _ _).1
  · exact fun σ _ positive => (map_min_max (fun _ _ => fdiv_mono positive) _ _).1
  · exact fun σ _ positive => (map_max_min (fun _ _ => fdiv_anti (by omega)) _ _).1
  · exact fun σ positive => (scale positive).1
  · exact fun σ positive => (flip positive).1
  · intros
    omega
  · intros
    omega
  · intro σ _ _ divides positive
    rw [(scale positive).1, exact_quotient divides]
  · intro σ _ _ divides positive
    rw [(flip positive).1, exact_quotient divides]
  · exact fun σ _ positive => (map_min_max (fun _ _ => Int.tdiv_le_tdiv positive) _ _).2
  · exact fun σ _ positive => (map_max_min (fun _ _ => tdiv_anti (by omega)) _ _).2
  · exact fun σ _ positive => (map_min_max (fun _ _ => fdiv_mono positive) _ _).2
  · exact fun σ _ positive => (map_max_min (fun _ _ => fdiv_anti (by omega)) _ _).2
  · exact fun σ positive => (scale positive).2
  · exact fun σ positive => (flip positive).2
  · intros
    omega
  · intros
    omega
  · intro σ _ _ divides positive
    rw [(scale positive).2, exact_quotient divides]
  · intro σ _ _ divides positive
    rw [(flip positive).2, exact_quotient divides]

end Tlm.Arith.RewriteSimplifier
