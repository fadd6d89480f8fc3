import Mathlib.Algebra.Order.Ring.Int
import Mathlib.Order.Lattice
import Mathlib.Tactic.Linarith
import Mathlib.Tactic.Ring

set_option autoImplicit false

namespace Division

variable {x y c d k : Int}

theorem tdiv_mul (x c : Int) : x.tdiv c * c = x - x.tmod c := by
  linarith [Int.tdiv_mul_add_tmod x c]

theorem tdiv_mul_mul (x c k : Int) : x.tdiv c * (c * k) = (x - x.tmod c) * k := by
  rw [← mul_assoc, tdiv_mul]

theorem fdiv_mul (x c : Int) : x.fdiv c * c = x - x.fmod c := by
  linarith [Int.fdiv_mul_add_fmod x c]

theorem fdiv_mul_mul (x c k : Int) : x.fdiv c * (c * k) = (x - x.fmod c) * k := by
  rw [← mul_assoc, fdiv_mul]

theorem fmod_congr (same : c ∣ x - y) : x.fmod c = y.fmod c :=
  Int.fmod_eq_fmod_iff_fmod_sub_eq_zero.2 (Int.fmod_eq_zero_of_dvd same)

theorem fdiv_eq_zero (positive : 0 < c) : x.fdiv c = 0 ↔ 0 ≤ x ∧ x < c := by
  have split := Int.fdiv_mul_add_fmod x c
  have low := Int.fmod_nonneg_of_pos x positive
  have high := Int.fmod_lt_of_pos x positive
  constructor
  · intro zero
    rw [zero, zero_mul] at split
    omega
  · intro bounds
    rw [Int.fdiv_eq_ediv_of_nonneg _ positive.le]
    exact Int.ediv_eq_zero_of_lt bounds.1 bounds.2

theorem tdiv_eq_fdiv (dividend : 0 ≤ x) (positive : 0 < c) : x.tdiv c = x.fdiv c := by
  rw [Int.tdiv_eq_ediv_of_nonneg dividend, Int.fdiv_eq_ediv_of_nonneg _ positive.le]

theorem tmod_eq_fmod (dividend : 0 ≤ x) (positive : 0 < c) : x.tmod c = x.fmod c := by
  rw [Int.tmod_eq_emod_of_nonneg dividend, Int.fmod_eq_emod_of_nonneg _ positive.le]

theorem add_tdiv_of_dvd (positive : 0 < c) (divides : c ∣ x) (first : 0 ≤ x) (second : 0 ≤ y) :
    (x + y).tdiv c = x.tdiv c + y.tdiv c := by
  rw [tdiv_eq_fdiv (by omega) positive, tdiv_eq_fdiv first positive, tdiv_eq_fdiv second positive,
    Int.add_fdiv_of_dvd_left divides]

theorem mul_add_tdiv (positive : 0 < c) (divides : c ∣ d) (first : 0 ≤ x * d) (second : 0 ≤ y) :
    x * d.tdiv c + y.tdiv c = (x * d + y).tdiv c := by
  rw [← Int.mul_tdiv_assoc x divides,
    add_tdiv_of_dvd positive (dvd_mul_of_dvd_right divides x) first second]

theorem mul_add_fdiv_of_dvd (x y : Int) (divides : c ∣ d) : x * d.fdiv c + y.fdiv c = (x * d + y).fdiv c := by
  rw [← Int.mul_fdiv_assoc x divides, Int.add_fdiv_of_dvd_left (dvd_mul_of_dvd_right divides x)]

theorem add_tmod_of_dvd (positive : 0 < c) (divides : c ∣ x) (first : 0 ≤ x) (second : 0 ≤ y) :
    (x + y).tmod c = y.tmod c := by
  rw [tmod_eq_fmod (by omega) positive, tmod_eq_fmod second positive]
  exact fmod_congr (by simpa using divides)

theorem mul_fdiv_mul_of_ne (c d : Int) (nonzero : x ≠ 0) : (x * c).fdiv (x * d) = c.fdiv d := by
  rcases lt_or_gt_of_ne nonzero with negative | positive
  · rw [← Int.neg_fdiv_neg (x * c), ← neg_mul, ← neg_mul, Int.mul_fdiv_mul_of_pos _ _ (by omega)]
  · rw [Int.mul_fdiv_mul_of_pos _ _ positive]

theorem mul_fmod_mul_of_ne (c d : Int) (nonzero : x ≠ 0) : (x * c).fmod (x * d) = x * c.fmod d := by
  rw [Int.fmod_def, mul_fdiv_mul_of_ne c d nonzero, Int.fmod_def]
  ring

theorem fdiv_fdiv (x : Int) (first : 0 < c) (second : 0 < d) : (x.fdiv c).fdiv d = x.fdiv (c * d) := by
  have product : 0 < c * d := mul_pos first second
  rw [Int.fdiv_eq_ediv_of_nonneg _ first.le, Int.fdiv_eq_ediv_of_nonneg _ second.le,
    Int.fdiv_eq_ediv_of_nonneg _ product.le, Int.ediv_ediv, if_neg (by omega), sub_zero]

theorem tdiv_tdiv (x : Int) (first : 0 < c) (second : 0 < d) : (x.tdiv c).tdiv d = x.tdiv (c * d) := by
  rcases le_total 0 x with nonneg | nonpos
  · rw [tdiv_eq_fdiv nonneg first, tdiv_eq_fdiv nonneg (mul_pos first second),
      tdiv_eq_fdiv (Int.fdiv_nonneg nonneg first.le) second, fdiv_fdiv x first second]
  · obtain ⟨y, rfl⟩ : ∃ y, x = -y := ⟨-x, by omega⟩
    have nonneg : 0 ≤ y := by omega
    rw [Int.neg_tdiv, Int.neg_tdiv, Int.neg_tdiv, tdiv_eq_fdiv nonneg first,
      tdiv_eq_fdiv nonneg (mul_pos first second),
      tdiv_eq_fdiv (Int.fdiv_nonneg nonneg first.le) second, fdiv_fdiv y first second]

theorem fdiv_add_fdiv (x k : Int) (first : 0 < c) (second : 0 < d) :
    (x + c * k).fdiv (c * d) = (x.fdiv c + k).fdiv d := by
  rw [← fdiv_fdiv _ first second, Int.add_mul_fdiv_left _ _ first.ne']

theorem fdiv_mono (positive : 0 < c) (le : x ≤ y) : x.fdiv c ≤ y.fdiv c := by
  rw [Int.fdiv_eq_ediv_of_nonneg _ positive.le, Int.fdiv_eq_ediv_of_nonneg _ positive.le]
  exact Int.ediv_le_ediv positive le

theorem fdiv_anti (negative : c < 0) (le : x ≤ y) : y.fdiv c ≤ x.fdiv c := by
  have flipped := fdiv_mono (c := -c) (by omega) (neg_le_neg le)
  rwa [Int.neg_fdiv_neg, Int.neg_fdiv_neg] at flipped

theorem tdiv_anti (negative : c < 0) (le : x ≤ y) : y.tdiv c ≤ x.tdiv c := by
  have mono := Int.tdiv_le_tdiv (c := -c) (by omega) le
  rw [Int.tdiv_neg, Int.tdiv_neg] at mono
  omega

theorem map_min_max {f : Int → Int} (mono : ∀ a b, a ≤ b → f a ≤ f b) (x y : Int) :
    f (min x y) = min (f x) (f y) ∧ f (max x y) = max (f x) (f y) := by
  rcases le_total x y with le | le
  · simp [le, mono x y le]
  · simp [le, mono y x le]

theorem map_max_min {f : Int → Int} (anti : ∀ a b, a ≤ b → f b ≤ f a) (x y : Int) :
    f (max x y) = min (f x) (f y) ∧ f (min x y) = max (f x) (f y) := by
  rcases le_total x y with le | le
  · simp [le, anti x y le]
  · simp [le, anti y x le]

theorem fdiv_mul_le (x : Int) (positive : 0 < c) : x.fdiv c * c ≤ x := by
  have low := Int.fmod_nonneg_of_pos x positive
  rw [fdiv_mul]
  omega

theorem le_fdiv_mul (x : Int) (next : d + 1 = c) (positive : 0 < c) : x ≤ (x + d).fdiv c * c := by
  have high := Int.fmod_lt_of_pos (x + d) positive
  rw [fdiv_mul]
  omega

theorem le_tdiv_mul (x : Int) (next : d + 1 = c) (positive : 0 < c) : x ≤ (x + d).tdiv c * c := by
  have high := Int.tmod_lt_of_pos (x + d) positive
  rw [tdiv_mul]
  omega

theorem divisor_le_fdiv_mul (positive : 0 < c) (enough : c ≤ x) : c ≤ x.fdiv c * c := by
  have one : 1 ≤ x.fdiv c := by
    simpa [Int.fdiv_self positive.ne'] using fdiv_mono positive enough
  nlinarith

theorem divisor_le_tdiv_mul (positive : 0 < c) (enough : c ≤ x) : c ≤ x.tdiv c * c := by
  rw [tdiv_eq_fdiv (by omega) positive]
  exact divisor_le_fdiv_mul positive enough

theorem fdiv_lt_iff (x k : Int) (positive : 0 < c) : x.fdiv c < k ↔ x < k * c := by
  rw [Int.fdiv_eq_ediv_of_nonneg _ positive.le, Int.ediv_lt_iff_lt_mul positive]

theorem le_fdiv_iff (x k : Int) (positive : 0 < c) : k ≤ x.fdiv c ↔ k * c ≤ x := by
  rw [Int.fdiv_eq_ediv_of_nonneg _ positive.le, Int.le_ediv_iff_mul_le positive]

theorem tdiv_lt_iff (k : Int) (dividend : 0 ≤ x) (positive : 0 < c) : x.tdiv c < k ↔ x < k * c := by
  rw [tdiv_eq_fdiv dividend positive, fdiv_lt_iff x k positive]

theorem le_tdiv_iff (k : Int) (dividend : 0 ≤ x) (positive : 0 < c) : k ≤ x.tdiv c ↔ k * c ≤ x := by
  rw [tdiv_eq_fdiv dividend positive, le_fdiv_iff x k positive]

theorem mul_apart (p q : Int) (positive : 0 < c) : p * c + c ≤ q * c ∨ p * c = q * c ∨ q * c + c ≤ p * c := by
  rcases lt_trichotomy p q with less | equal | greater
  · left
    nlinarith
  · right
    left
    rw [equal]
  · right
    right
    nlinarith

theorem fdiv_eq_iff (x q : Int) (positive : 0 < c) : x.fdiv c = q ↔ 0 ≤ x - q * c ∧ x - q * c < c := by
  have low := le_fdiv_iff x q positive
  have high := fdiv_lt_iff x (q + 1) positive
  rw [add_mul, one_mul] at high
  omega

theorem fdiv_eq_iff_of_neg (x q : Int) (negative : c < 0) : x.fdiv c = q ↔ c < x - q * c ∧ x - q * c ≤ 0 := by
  have flipped := fdiv_eq_iff (c := -c) (-x) q (by omega)
  rw [Int.neg_fdiv_neg, mul_neg] at flipped
  omega

theorem fdiv_fmod_eq_iff (x q : Int) {r : Int} (range : 0 ≤ r ∧ r < c ∨ c < r ∧ r ≤ 0) :
    x.fdiv c = q ∧ x.fmod c = r ↔ x = q * c + r := by
  have split := Int.fdiv_mul_add_fmod x c
  constructor
  · rintro ⟨rfl, rfl⟩
    exact split.symm
  · intro whole
    have quotient : x.fdiv c = q := by
      rcases range with positive | negative
      · exact (fdiv_eq_iff x q (by omega)).2 (by omega)
      · exact (fdiv_eq_iff_of_neg x q (by omega)).2 (by omega)
    rw [quotient] at split
    exact ⟨quotient, by omega⟩

theorem fmod_range (x : Int) (positive : 0 < c) : 0 ≤ x.fmod c ∧ x.fmod c < c :=
  ⟨Int.fmod_nonneg_of_pos x positive, Int.fmod_lt_of_pos x positive⟩

theorem fmod_range_of_neg (x : Int) (negative : c < 0) : c < x.fmod c ∧ x.fmod c ≤ 0 := by
  have split := Int.fdiv_mul_add_fmod x c
  have range := (fdiv_eq_iff_of_neg x (x.fdiv c) negative).1 rfl
  omega

theorem lt_multiple_iff (x : Int) (positive : 0 < c) (divides : c ∣ k) (small : d ≤ c) :
    x < k - c + d ∧ x.fmod c < d ↔ x < k ∧ x.fmod c < d := by
  obtain ⟨q, rfl⟩ := divides
  have split := Int.fdiv_mul_add_fmod x c
  have range := fmod_range x positive
  have apart := mul_apart (x.fdiv c) q positive
  rw [mul_comm c q]
  omega

theorem lt_remainder_iff (x : Int) (nonzero : c ≠ 0) (small : d < k.fmod c) :
    x < k - k.fmod c + d ∧ x.fmod c < d ↔ x < k ∧ x.fmod c < d := by
  have first := Int.fdiv_mul_add_fmod x c
  have second := Int.fdiv_mul_add_fmod k c
  rcases lt_or_gt_of_ne nonzero with negative | positive
  · have range := fmod_range_of_neg x negative
    have range' := fmod_range_of_neg k negative
    have apart := mul_apart (x.fdiv c) (k.fdiv c) (show 0 < -c by omega)
    rw [mul_neg, mul_neg] at apart
    omega
  · have range := fmod_range x positive
    have range' := fmod_range k positive
    have apart := mul_apart (x.fdiv c) (k.fdiv c) positive
    omega

theorem le_remainder_iff (x : Int) (nonzero : c ≠ 0) (small : d < (k + 1).fmod c) :
    x < k + 1 - k.fmod c + d ∧ x.fmod c < d ↔ x ≤ k ∧ x.fmod c < d := by
  have first := Int.fdiv_mul_add_fmod x c
  have second := Int.fdiv_mul_add_fmod k c
  have third := Int.fdiv_mul_add_fmod (k + 1) c
  rcases lt_or_gt_of_ne nonzero with negative | positive
  · have range := fmod_range_of_neg x negative
    have range' := fmod_range_of_neg k negative
    have range'' := fmod_range_of_neg (k + 1) negative
    have apart := mul_apart (x.fdiv c) (k.fdiv c) (show 0 < -c by omega)
    have apart' := mul_apart (k.fdiv c) ((k + 1).fdiv c) (show 0 < -c by omega)
    rw [mul_neg, mul_neg] at apart apart'
    omega
  · have range := fmod_range x positive
    have range' := fmod_range k positive
    have range'' := fmod_range (k + 1) positive
    have apart := mul_apart (x.fdiv c) (k.fdiv c) positive
    have apart' := mul_apart (k.fdiv c) ((k + 1).fdiv c) positive
    omega

theorem fdiv_sub_fdiv (x c d : Int) (positive : 0 < k) :
    (x + c).fdiv k - (x + d).fdiv k = ((x + d).fmod k + (c - d)).fdiv k := by
  have split : (x + d).fmod k + (c - d) = x + c + -((x + d).fdiv k) * k := by
    linarith [Int.fdiv_mul_add_fmod (x + d) k]
  rw [split, Int.add_mul_fdiv_right _ _ positive.ne']
  ring

theorem fdiv_pos_of_dvd (positive : 0 < c) (divisor : 0 < d) (divides : d ∣ c) : 0 < c.fdiv d := by
  obtain ⟨k, rfl⟩ := divides
  rw [mul_comm, Int.mul_fdiv_cancel _ divisor.ne']
  exact pos_of_mul_pos_right positive divisor.le

theorem mul_add_fdiv (x : Int) (positive : 0 < c) (divisor : 0 < d) (divides : d ∣ c)
    (small : y.fdiv d = 0) : (x * d + y).fdiv c = x.fdiv (c.fdiv d) := by
  have quotient := fdiv_pos_of_dvd positive divisor divides
  have product : d * c.fdiv d = c := Int.mul_fdiv_cancel_of_dvd divides
  rw [← product, ← fdiv_fdiv _ divisor quotient, Int.mul_add_fdiv_right _ _ divisor.ne', small,
    zero_add, product]

theorem mul_add_fmod (x : Int) (positive : 0 < c) (divisor : 0 < d) (divides : d ∣ c)
    (small : y.fdiv d = 0) : (x * d + y).fmod c = x.fmod (c.fdiv d) * d + y := by
  have product : c.fdiv d * d = c := Int.fdiv_mul_cancel divides
  have whole := Int.fdiv_mul_add_fmod (x * d + y) c
  have part := Int.fdiv_mul_add_fmod x (c.fdiv d)
  rw [mul_add_fdiv x positive divisor divides small] at whole
  have scaled : x.fdiv (c.fdiv d) * c + x.fmod (c.fdiv d) * d = x * d := by
    calc x.fdiv (c.fdiv d) * c + x.fmod (c.fdiv d) * d
        = (x.fdiv (c.fdiv d) * c.fdiv d + x.fmod (c.fdiv d)) * d := by
          rw [add_mul, mul_assoc, product]
      _ = x * d := by rw [part]
  linarith

theorem mul_add_fdiv_residue (x y d : Int) (nonzero : c ≠ 0) :
    (x * d + y).fdiv c = x * d.fdiv c + (y.fdiv c + (x * d.fmod c + y.fmod c).fdiv c) := by
  have split : x * d + y = x * d.fmod c + y.fmod c + (x * d.fdiv c + y.fdiv c) * c := by
    have first := Int.fdiv_mul_add_fmod d c
    have second := Int.fdiv_mul_add_fmod y c
    calc x * d + y = x * (d.fdiv c * c + d.fmod c) + (y.fdiv c * c + y.fmod c) := by
          rw [first, second]
      _ = _ := by ring
  rw [split, Int.add_mul_fdiv_right _ _ nonzero]
  ring

theorem mul_add_fdiv_small (x : Int) (positive : 0 < c) (divisor : 0 < d) (divides : d ∣ c)
    (small : y.fmod c < d) : (x * d + y).fdiv c = x.fdiv (c.fdiv d) + y.fdiv c := by
  have zero : (y.fmod c).fdiv d = 0 :=
    (fdiv_eq_zero divisor).2 ⟨Int.fmod_nonneg_of_pos y positive, small⟩
  have split : x * d + y = x * d + y.fmod c + y.fdiv c * c := by
    linarith [Int.fdiv_mul_add_fmod y c]
  rw [split, Int.add_mul_fdiv_right _ _ positive.ne', mul_add_fdiv x positive divisor divides zero]

end Division
