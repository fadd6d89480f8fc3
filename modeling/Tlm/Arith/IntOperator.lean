import Mathlib.Algebra.Order.Ring.Int
import Mathlib.Data.Int.GCD
import Mathlib.Tactic.Linarith
import Mathlib.Tactic.LinearCombination
import Mathlib.Tactic.Ring
import Tlm.Shared.Fault

set_option autoImplicit false

namespace Tlm.Arith

open Cpp

def int64 (value : Int) : Except Fault Int :=
  if -2 ^ 63 ≤ value ∧ value < 2 ^ 63 then .ok value else .error .undefined

theorem int64_ok {value result : Int} :
    int64 value = .ok result ↔ (-2 ^ 63 ≤ value ∧ value < 2 ^ 63) ∧ value = result := by
  unfold int64
  split
  next fits => rw [Except.ok.injEq, and_iff_right fits]
  next unfit => simp only [unfit, reduceCtorEq, false_and]

def willOverflowAdd (x y minValue maxValue : Int) : Bool :=
  (0 < y ∧ maxValue - y < x) ∨ (y < 0 ∧ x < minValue - y)

def willOverflowMul (x y minValue maxValue : Int) : Bool :=
  if y = 0 then false
  else if 0 < y then x < minValue.tdiv y ∨ maxValue.tdiv y < x
  else (y = -1 ∧ x = -2 ^ 63) ∨ minValue.tdiv y < x ∨ x < maxValue.tdiv y

def isFloorDiv (y rmod : Int) : Bool :=
  (0 ≤ y ∧ 0 ≤ rmod) ∨ (y < 0 ∧ rmod ≤ 0)

def floordiv (x y : Int) : Int :=
  if isFloorDiv y (x.tmod y) then x.tdiv y else x.tdiv y - 1

def floormod (x y : Int) : Int :=
  if isFloorDiv y (x.tmod y) then x.tmod y else x.tmod y + y

-- The loop of `ExtendedEuclidean`; the remainders shrink, so `fuel` is enough if it exceeds `|r|`.
def euclidLoop : (fuel : Nat) → (r oldR s oldS : Int) → Int × Int
  | 0, _, oldR, _, oldS => (oldR, oldS)
  | fuel + 1, r, oldR, s, oldS =>
    if r = 0 then (oldR, oldS)
    else
      let q := oldR.tdiv r
      euclidLoop fuel (oldR - q * r) r (oldS - q * s) s

def extendedEuclidean (a b : Int) : Int × Int × Int :=
  let (oldR, oldS) := euclidLoop (b.natAbs + 1) b (if 0 ≤ a then a else -a) 0 1
  let x := if 0 ≤ a then oldS else -oldS
  let y := if b ≠ 0 then (oldR - x * a).tdiv b else 1
  (oldR, x, y)

-- How often the loop divides.
def euclidSteps : (fuel : Nat) → (r oldR : Int) → Nat
  | 0, _, _ => 0
  | fuel + 1, r, oldR => if r = 0 then 0 else euclidSteps fuel (oldR - oldR.tdiv r * r) r + 1

def gcdLoop : (fuel : Nat) → (a b : Int) → Int
  | 0, _, b => b
  | fuel + 1, a, b => if a.tmod b ≠ 0 then gcdLoop fuel b (a.tmod b) else b

def zeroAwareGCD (a b : Int) : Int :=
  let a : Int := a.natAbs
  let b : Int := b.natAbs
  let big := max a b
  let small := min a b
  if small = 0 then big else gcdLoop small.natAbs big small

theorem willOverflowMul_iff (x y : Int) :
    willOverflowMul x y (-(2 ^ 63 - 1)) (2 ^ 63 - 1) = true ↔ x * y < -(2 ^ 63 - 1) ∨ 2 ^ 63 - 1 < x * y := by
  generalize bound : (2 ^ 63 - 1 : Int) = m
  have nonneg : 0 ≤ m := by omega
  rcases lt_trichotomy y 0 with negative | zero | positive
  · have above : ∀ z : Int, m.tdiv (-y) < z ↔ m < z * -y := by
      intro z
      rw [Int.tdiv_eq_ediv_of_nonneg nonneg, Int.ediv_lt_iff_lt_mul (by omega)]
    have low : (-m).tdiv y = m.tdiv (-y) := by rw [Int.neg_tdiv, Int.tdiv_neg]
    have high : m.tdiv y = -(m.tdiv (-y)) := by rw [Int.tdiv_neg, neg_neg]
    have first := above x
    have second := above (-x)
    rw [mul_neg] at first
    rw [neg_mul_neg] at second
    have extreme : y = -1 ∧ x = -2 ^ 63 → m < x * y := by
      rintro ⟨rfl, rfl⟩
      omega
    simp only [willOverflowMul, negative.ne, if_false, not_lt.2 negative.le, decide_eq_true_eq]
    omega
  · simp [willOverflowMul, zero, nonneg]
  · have above : ∀ z : Int, m.tdiv y < z ↔ m < z * y := by
      intro z
      rw [Int.tdiv_eq_ediv_of_nonneg nonneg, Int.ediv_lt_iff_lt_mul positive]
    have low : (-m).tdiv y = -(m.tdiv y) := Int.neg_tdiv m y
    have first := above x
    have second := above (-x)
    rw [neg_mul] at second
    simp only [willOverflowMul, positive.ne', if_false, positive, if_true, decide_eq_true_eq]
    omega

theorem natAbs_tmod_lt (x : Int) {y : Int} (nonzero : y ≠ 0) : (x.tmod y).natAbs < y.natAbs := by
  rw [Int.natAbs_tmod]
  exact Nat.mod_lt _ (Int.natAbs_pos.2 nonzero)

theorem floordiv_floormod (x : Int) {y : Int} (nonzero : y ≠ 0) :
    x.fdiv y = floordiv x y ∧ x.fmod y = floormod x y := by
  have bound := natAbs_tmod_lt x nonzero
  have split : y * x.tdiv y + x.tmod y = x := Int.mul_tdiv_add_tmod x y
  rcases lt_or_gt_of_ne nonzero with negative | positive
  · rw [Int.fdiv_fmod_unique' negative]
    simp only [floordiv, floormod, isFloorDiv,
      decide_eq_true_eq]
    split <;> constructor <;> first | linarith | omega
  · rw [Int.fdiv_fmod_unique positive]
    simp only [floordiv, floormod, isFloorDiv,
      decide_eq_true_eq]
    split <;> constructor <;> first | linarith | omega

theorem sub_tdiv_mul (x y : Int) : x - x.tdiv y * y = x.tmod y := by
  have := Int.mul_tdiv_add_tmod x y
  rw [mul_comm] at this
  omega

theorem gcd_tmod (x y : Int) : Int.gcd y (x.tmod y) = Int.gcd x y := by
  rw [← sub_tdiv_mul, Int.gcd_sub_mul_right_right, Int.gcd_comm]

theorem euclidLoop_gcd (fuel : Nat) : ∀ {r : Int} (oldR s oldS : Int), r.natAbs < fuel →
    (euclidLoop fuel r oldR s oldS).1.natAbs = Int.gcd oldR r := by
  induction fuel with
  | zero =>
    intro r oldR s oldS enough
    omega
  | succ fuel ih =>
    intro r oldR s oldS enough
    unfold euclidLoop
    split
    next done => simp [done]
    next more =>
      have shrinks := natAbs_tmod_lt oldR more
      dsimp only
      rw [sub_tdiv_mul, ih _ _ _ (by omega), gcd_tmod]

theorem euclidLoop_nonneg (fuel : Nat) : ∀ {r oldR : Int} (s oldS : Int), 0 ≤ r → 0 ≤ oldR →
    0 ≤ (euclidLoop fuel r oldR s oldS).1 := by
  induction fuel with
  | zero =>
    intro r oldR s oldS _ old
    exact old
  | succ fuel ih =>
    intro r oldR s oldS rest old
    unfold euclidLoop
    split
    · exact old
    · dsimp only
      rw [sub_tdiv_mul]
      exact ih _ _ (Int.tmod_nonneg r old) rest

theorem euclidLoop_combination (a b : Int) (fuel : Nat) : ∀ {r oldR s oldS : Int},
    (∃ t, r = a * s + b * t) → (∃ t, oldR = a * oldS + b * t) →
    ∃ t, (euclidLoop fuel r oldR s oldS).1 = a * (euclidLoop fuel r oldR s oldS).2 + b * t := by
  induction fuel with
  | zero => exact fun _ old => old
  | succ fuel ih =>
    intro r oldR s oldS rest old
    unfold euclidLoop
    split
    · exact old
    · refine ih ?_ rest
      obtain ⟨t, rest⟩ := rest
      obtain ⟨oldT, old⟩ := old
      refine ⟨oldT - oldR.tdiv r * t, ?_⟩
      linear_combination old - oldR.tdiv r * rest

theorem extendedEuclidean_combination (a b : Int) :
    (extendedEuclidean a b).1 = (euclidLoop (b.natAbs + 1) b |a| 0 1).1 ∧
      (extendedEuclidean a b).1.natAbs = Int.gcd a b ∧
      a * (extendedEuclidean a b).2.1 + b * (extendedEuclidean a b).2.2 = (extendedEuclidean a b).1 := by
  have start : (if 0 ≤ a then a else -a) = |a| := by
    split
    next positive => exact (abs_of_nonneg positive).symm
    next negative => exact (abs_of_neg (not_le.1 negative)).symm
  have gcd := euclidLoop_gcd (b.natAbs + 1) |a| 0 1 (Nat.lt_succ_self _)
  have sum := @euclidLoop_combination |a| b (b.natAbs + 1) b |a| 0 1 ⟨1, by ring⟩ ⟨0, by ring⟩
  unfold extendedEuclidean
  rw [start]
  generalize euclidLoop (b.natAbs + 1) b |a| 0 1 = result at *
  obtain ⟨g, s⟩ := result
  obtain ⟨t, sum⟩ := sum
  dsimp only at *
  have scaled : a * (if 0 ≤ a then s else -s) = |a| * s := by
    split
    next positive => rw [abs_of_nonneg positive]
    next negative => rw [abs_of_neg (not_le.1 negative), neg_mul_comm]
  generalize (if 0 ≤ a then s else -s) = x at *
  refine ⟨rfl, by rw [gcd, Int.gcd, Int.natAbs_abs, ← Int.gcd], ?_⟩
  split
  next nonzero =>
    have rest : g - x * a = b * t := by linear_combination sum - scaled
    rw [rest, Int.mul_tdiv_cancel_left t nonzero]
    linear_combination scaled - sum
  next zero =>
    rw [not_not] at zero
    subst zero
    linear_combination scaled - sum

theorem extendedEuclidean_spec (a : Int) {b : Int} (nonneg : 0 ≤ b) :
    (extendedEuclidean a b).1 = Int.gcd a b ∧
      a * (extendedEuclidean a b).2.1 + b * (extendedEuclidean a b).2.2 = (extendedEuclidean a b).1 := by
  obtain ⟨loop, gcd, sum⟩ := extendedEuclidean_combination a b
  have sign := euclidLoop_nonneg (b.natAbs + 1) 0 1 nonneg (abs_nonneg a)
  rw [← loop] at sign
  exact ⟨by rw [← gcd, Int.natAbs_of_nonneg sign], sum⟩

theorem tmod_sign (x y : Int) {ε : Int} (sign : 0 ≤ ε * x) : 0 ≤ ε * x.tmod y := by
  rcases lt_trichotomy x 0 with negative | rfl | positive
  · have rest := Int.tmod_nonneg y (neg_nonneg.2 negative.le)
    rw [Int.neg_tmod] at rest
    exact mul_nonneg_of_nonpos_of_nonpos (nonpos_of_mul_nonneg_left sign negative) (neg_nonneg.1 rest)
  · simp
  · exact mul_nonneg (nonneg_of_mul_nonneg_left sign positive) (Int.tmod_nonneg y positive.le)

theorem euclidLoop_sign (fuel : Nat) : ∀ {r oldR : Int} (s oldS ε : Int), 0 ≤ ε * oldR → ε * r ≤ 0 →
    0 ≤ ε * (-1) ^ euclidSteps fuel r oldR * (euclidLoop fuel r oldR s oldS).1 := by
  induction fuel with
  | zero =>
    intro r oldR s oldS ε old _
    simpa [euclidSteps, euclidLoop] using old
  | succ fuel ih =>
    intro r oldR s oldS ε old rest
    unfold euclidSteps euclidLoop
    split
    · simpa using old
    · dsimp only
      rw [sub_tdiv_mul, pow_succ]
      have rest' := tmod_sign oldR r old
      have later := @ih (oldR.tmod r) r (oldS - oldR.tdiv r * s) s (-ε) (by linarith) (by linarith)
      linarith

theorem extendedEuclidean_correct_iff {a b : Int} (nonzero : a ≠ 0 ∨ b ≠ 0) :
    (0 < (extendedEuclidean a b).1 ∧ (extendedEuclidean a b).1 = Int.gcd a b ∧
        a * (extendedEuclidean a b).2.1 + b * (extendedEuclidean a b).2.2 = (extendedEuclidean a b).1) ↔
      0 ≤ b ∨ Even (euclidSteps (b.natAbs + 1) b |a|) := by
  obtain ⟨loop, gcd, sum⟩ := extendedEuclidean_combination a b
  have positive : 0 < Int.gcd a b := Int.gcd_pos_iff.2 nonzero
  have plain (nonneg : 0 ≤ b) := euclidLoop_nonneg (b.natAbs + 1) 0 1 nonneg (abs_nonneg a)
  have sign (negative : b ≤ 0) := @euclidLoop_sign (b.natAbs + 1) b |a| 0 1 1 (by simp) (by omega)
  simp only [← loop, one_mul] at plain sign
  constructor
  · rintro ⟨right, -, -⟩
    by_contra neither
    rw [not_or, not_le, Nat.not_even_iff_odd] at neither
    have sign := sign neither.1.le
    rw [neither.2.neg_one_pow] at sign
    omega
  · intro either
    have nonneg : 0 ≤ (extendedEuclidean a b).1 := by
      rcases either with nonneg | even
      · exact plain nonneg
      · rw [even.neg_one_pow, one_mul] at sign
        exact (le_total 0 b).elim plain sign
    exact ⟨by omega, by omega, sum⟩

theorem extendedEuclidean_correct_negative : (extendedEuclidean 3 (-2)).1 = Int.gcd 3 (-2) :=
  ((extendedEuclidean_correct_iff (a := 3) (b := -2) (by decide)).2 (by decide)).2.1

theorem extendedEuclidean_wrong_sign : (extendedEuclidean 2 (-3)).1 = -1 := by
  decide

theorem gcdLoop_eq (fuel : Nat) : ∀ {a b : Int}, 0 ≤ a → 0 < b → b.natAbs ≤ fuel →
    gcdLoop fuel a b = Int.gcd a b := by
  induction fuel with
  | zero =>
    intro a b _ positive enough
    omega
  | succ fuel ih =>
    intro a b nonneg positive enough
    unfold gcdLoop
    have rest := Int.tmod_nonneg b nonneg
    have shrinks := natAbs_tmod_lt a positive.ne'
    split
    next more => rw [ih positive.le (by omega) (by omega), gcd_tmod]
    next done =>
      rw [not_not] at done
      rw [← gcd_tmod, done, Int.gcd_zero_right, Int.natAbs_of_nonneg positive.le]

theorem gcdLoop_or_zero {big small : Nat} :
    (if (small : Int) = 0 then (big : Int) else gcdLoop (small : Int).natAbs big small) =
      Int.gcd big small := by
  split
  next zero => simp [zero]
  next nonzero => exact gcdLoop_eq _ (by omega) (by omega) (Nat.le_refl _)

theorem gcd_natAbs (a b : Int) : Int.gcd a.natAbs b.natAbs = Int.gcd a b := by
  simp only [Int.gcd, Int.natAbs_natCast]

theorem zeroAwareGCD_eq (a b : Int) : zeroAwareGCD a b = Int.gcd a b := by
  unfold zeroAwareGCD
  rcases le_total a.natAbs b.natAbs with smaller | larger
  · have cast : (a.natAbs : Int) ≤ b.natAbs := by exact_mod_cast smaller
    simp only [max_eq_right cast, min_eq_left cast, gcdLoop_or_zero]
    rw [Int.gcd_comm, gcd_natAbs]
  · have cast : (b.natAbs : Int) ≤ a.natAbs := by exact_mod_cast larger
    simp only [max_eq_left cast, min_eq_right cast, gcdLoop_or_zero, gcd_natAbs]

end Tlm.Arith
