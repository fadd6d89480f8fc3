import Tlm.Arith.ConstIntBound

set_option autoImplicit false

namespace Tlm.Arith.ConstIntBound

open Cpp

def Inside (value : Int) : Prop :=
  kNegInf ≤ value ∧ value ≤ kPosInf

instance : DecidablePred Inside := fun value =>
  inferInstanceAs (Decidable (kNegInf ≤ value ∧ value ≤ kPosInf))

-- No number is taken for the infinity on its other side.
def Entry.Proper (entry : Entry) : Prop :=
  entry.minValue < kPosInf ∧ kNegInf < entry.maxValue

instance : DecidablePred Entry.Proper := fun entry =>
  inferInstanceAs (Decidable (entry.minValue < kPosInf ∧ kNegInf < entry.maxValue))

structure Entry.Bounds (entry : Entry) (value : Int) : Prop where
  low : -2 ^ 63 ≤ entry.minValue
  min : entry.minValue ≤ value
  max : value ≤ entry.maxValue
  high : entry.maxValue < 2 ^ 63

def Word (value : Int) : Prop :=
  -2 ^ 63 ≤ value ∧ value < 2 ^ 63

instance : DecidablePred Word := fun value =>
  inferInstanceAs (Decidable (-2 ^ 63 ≤ value ∧ value < 2 ^ 63))

theorem Word.min {x y : Int} (left : Word x) (right : Word y) : Word (min x y) :=
  ⟨le_min left.1 right.1, (min_le_left x y).trans_lt left.2⟩

theorem Word.max {x y : Int} (left : Word x) (right : Word y) : Word (max x y) :=
  ⟨left.1.trans (le_max_left x y), max_lt left.2 right.2⟩

def Entry.Corner (entry : Entry) (value : Int) : Prop :=
  value = entry.minValue ∨ value = entry.maxValue

theorem kInf_eq : kPosInf = 2 ^ 63 - 1 ∧ kNegInf = -(2 ^ 63 - 1) := ⟨rfl, rfl⟩

theorem infAwareAdd_cases {x y z : Int} (run : infAwareAdd x y = .ok z) :
    (x = kPosInf ∧ z = kPosInf) ∨ (x = kNegInf ∧ z = kNegInf) ∨
      ((y = kPosInf ∨ y = kNegInf) ∧ z = y) ∨
      (0 < x ∧ (0 < y ∧ kPosInf - y < x ∨ y < 0 ∧ x < kNegInf - y) ∧ z = kPosInf) ∨
      (x ≤ 0 ∧ (0 < y ∧ kPosInf - y < x ∨ y < 0 ∧ x < kNegInf - y) ∧ z = kNegInf) ∨
      (-2 ^ 63 ≤ x + y ∧ x + y < 2 ^ 63 ∧ z = x + y) := by
  unfold infAwareAdd at run
  split at run
  next infinite =>
    simp only [bind_ok, pure_ok] at run
    exact .inl ⟨infinite, run.choose_spec.2.symm⟩
  · split at run
    next infinite =>
      simp only [bind_ok, pure_ok] at run
      exact .inr (.inl ⟨infinite, run.choose_spec.2.symm⟩)
    · split at run
      next infinite =>
        cases run
        exact .inr (.inr (.inl ⟨infinite, rfl⟩))
      · split at run
        next overflow =>
          simp only [willOverflowAdd, decide_eq_true_eq] at overflow
          cases run
          split
          next positive => exact .inr (.inr (.inr (.inl ⟨positive, overflow, rfl⟩)))
          next other =>
            exact .inr (.inr (.inr (.inr (.inl ⟨not_lt.1 other, overflow, rfl⟩))))
        · obtain ⟨fits, rfl⟩ := int64_ok.1 run
          exact .inr (.inr (.inr (.inr (.inr ⟨fits.1, fits.2, rfl⟩))))

theorem infAwareAdd_range {x y z : Int} (run : infAwareAdd x y = .ok z) (range : Word y) : Word z := by
  have limits := kInf_eq
  unfold Word at range ⊢
  rcases infAwareAdd_cases run with h | h | h | h | h | h <;> omega

section

variable {x y u w z : Int} (run : infAwareAdd x y = .ok z)

include run

theorem infAwareAdd_le (finiteX : x < kPosInf) (finiteY : y < kPosInf) (inside : kNegInf ≤ u + w) (minX : x ≤ u)
    (lowY : -2 ^ 63 ≤ y) (minY : y ≤ w) : -2 ^ 63 ≤ z ∧ z ≤ u + w := by
  have limits := kInf_eq
  rcases infAwareAdd_cases run with h | h | h | h | h | h <;> omega

theorem infAwareAdd_ge {t : Int} (finiteX : kNegInf < x) (finiteY : kNegInf < y) (inside : t ≤ kPosInf)
    (below : t ≤ u + w) (maxX : u ≤ x) (maxY : w ≤ y) (highY : y < 2 ^ 63) : t ≤ z ∧ z < 2 ^ 63 := by
  have limits := kInf_eq
  rcases infAwareAdd_cases run with h | h | h | h | h | h <;> omega

end

section

variable {dtype : DataType} {a b entry : Entry} {x y : Int}

theorem visitAdd_sound (run : visitAdd dtype a b = .ok entry) (boundsA : a.Bounds x)
    (boundsB : b.Bounds y) (properA : a.Proper) (properB : b.Proper) (inside : Inside (x + y)) :
    entry.Bounds (x + y) := by
  simp only [visitAdd, bind_ok, pure_ok] at run
  obtain ⟨minValue, lower, maxValue, upper, rfl⟩ := run
  obtain ⟨low, min⟩ := infAwareAdd_le lower properA.1 properB.1 inside.1 boundsA.min boundsB.low boundsB.min
  obtain ⟨max, high⟩ := infAwareAdd_ge upper properA.2 properB.2 inside.2 le_rfl boundsA.max boundsB.max boundsB.high
  exact ⟨low, min, max, high⟩

theorem visitSub_sound (run : visitSub dtype a b = .ok entry) (boundsA : a.Bounds x)
    (boundsB : b.Bounds y) (properA : a.Proper) (properB : b.Proper) (inside : Inside (x - y)) :
    entry.Bounds (x - y) := by
  simp only [visitSub, neg, bind_ok, pure_ok, int64_ok] at run
  obtain ⟨_, ⟨fitsMax, rfl⟩, minValue, lower, _, ⟨fitsMin, rfl⟩, maxValue, upper, rfl⟩ := run
  have limits := kInf_eq
  have negMax : -b.maxValue < kPosInf := by
    have := properB.2
    omega
  have negMin : kNegInf < -b.minValue := by
    have := properB.1
    omega
  obtain ⟨low, min⟩ := infAwareAdd_le lower properA.1 negMax inside.1 boundsA.min fitsMax.1
    (Int.neg_le_neg boundsB.max)
  obtain ⟨max, high⟩ := infAwareAdd_ge upper properA.2 negMin inside.2 le_rfl boundsA.max
    (Int.neg_le_neg boundsB.min) fitsMin.2
  exact ⟨low, min, max, high⟩

section

variable {op : Int → Int → Except Fault Int} (run : binaryOpBoundary op a b = .ok entry)

include run

theorem binaryOpBoundary_corner (cornerX : a.Corner x) (cornerY : b.Corner y) :
    ∃ v, op x y = .ok v ∧ entry.minValue ≤ v ∧ v ≤ entry.maxValue := by
  simp only [binaryOpBoundary, bind_ok, pure_ok] at run
  obtain ⟨v1, first, v2, second, v3, third, v4, fourth, rfl⟩ := run
  rcases cornerX with rfl | rfl <;> rcases cornerY with rfl | rfl
  · exact ⟨v1, first, by simp, by simp⟩
  · exact ⟨v3, third, by simp, by simp⟩
  · exact ⟨v4, fourth, by simp, by simp⟩
  · exact ⟨v2, second, by simp, by simp⟩

theorem binaryOpBoundary_range
    (range : ∀ {x y v}, a.Corner x → b.Corner y → op x y = .ok v → Word v) :
    Word entry.minValue ∧ Word entry.maxValue := by
  simp only [binaryOpBoundary, bind_ok, pure_ok] at run
  obtain ⟨v1, first, v2, second, v3, third, v4, fourth, rfl⟩ := run
  have word1 := range (.inl rfl) (.inl rfl) first
  have word2 := range (.inr rfl) (.inr rfl) second
  have word3 := range (.inl rfl) (.inr rfl) third
  have word4 := range (.inr rfl) (.inl rfl) fourth
  exact ⟨((word1.min word2).min word3).min word4, ((word1.max word2).max word3).max word4⟩

end

def clamp (value : Int) : Int :=
  max kNegInf (min kPosInf value)

theorem infAwareMul_eq (x y : Int) : infAwareMul x y = .ok (clamp (x * y)) := by
  have limits := kInf_eq
  have overflow : willOverflowMul x y kNegInf kPosInf = true ↔ _ := willOverflowMul_iff x y
  unfold infAwareMul clamp
  split
  next fits =>
    have range : ¬ (x * y < -(2 ^ 63 - 1) ∨ 2 ^ 63 - 1 < x * y) := by
      rw [← overflow, fits]
      simp
    rw [int64_ok]
    omega
  next exceeds =>
    rw [Bool.not_eq_false, overflow] at exceeds
    split
    next same =>
      have positive : 0 < x * y := same.elim (fun h => mul_pos h.1 h.2) (fun h => mul_pos_of_neg_of_neg h.1 h.2)
      rw [Except.ok.injEq]
      omega
    next differ =>
      have negative : x * y ≤ 0 := by
        by_contra positive
        exact differ (mul_pos_iff.1 (not_le.1 positive))
      rw [Except.ok.injEq]
      omega

theorem clamp_mono {x y : Int} (le : x ≤ y) : clamp x ≤ clamp y :=
  max_le_max le_rfl (min_le_min le_rfl le)

theorem clamp_inside {x : Int} (inside : Inside x) : clamp x = x := by
  rw [clamp, min_eq_right inside.2, max_eq_right inside.1]

theorem clamp_word (x : Int) : Word (clamp x) := by
  have limits := kInf_eq
  unfold clamp Word
  omega

theorem Entry.Bounds.mul (bounds : a.Bounds x) (y : Int) :
    (∃ u, a.Corner u ∧ u * y ≤ x * y) ∧ ∃ u, a.Corner u ∧ x * y ≤ u * y := by
  rcases le_total 0 y with nonneg | nonpos
  · exact ⟨⟨_, .inl rfl, mul_le_mul_of_nonneg_right bounds.min nonneg⟩,
      _, .inr rfl, mul_le_mul_of_nonneg_right bounds.max nonneg⟩
  · exact ⟨⟨_, .inr rfl, mul_le_mul_of_nonpos_right bounds.max nonpos⟩,
      _, .inl rfl, mul_le_mul_of_nonpos_right bounds.min nonpos⟩

theorem visitMul_sound (run : visitMul dtype a b = .ok entry) (boundsA : a.Bounds x)
    (boundsB : b.Bounds y) (inside : Inside (x * y)) : entry.Bounds (x * y) := by
  have corner : ∀ {u w}, a.Corner u → b.Corner w →
      entry.minValue ≤ clamp (w * u) ∧ clamp (w * u) ≤ entry.maxValue := by
    intro u w cornerU cornerW
    obtain ⟨v, product, between⟩ := binaryOpBoundary_corner run cornerU cornerW
    rw [infAwareMul_eq, Except.ok.injEq, mul_comm] at product
    rwa [product]
  have range := binaryOpBoundary_range run fun {u w v} _ _ product => by
    rw [infAwareMul_eq, Except.ok.injEq] at product
    exact product ▸ clamp_word _
  obtain ⟨⟨u, cornerU, least⟩, u', cornerU', greatest⟩ := boundsA.mul y
  obtain ⟨⟨w, cornerW, less⟩, -⟩ := boundsB.mul u
  obtain ⟨-, w', cornerW', greater⟩ := boundsB.mul u'
  rw [mul_comm y] at less greater
  refine ⟨range.1.1, ?_, ?_, range.2.2⟩
  · calc entry.minValue ≤ clamp (w * u) := (corner cornerU cornerW).1
      _ ≤ clamp (x * y) := clamp_mono (less.trans least)
      _ = x * y := clamp_inside inside
  · calc x * y = clamp (x * y) := (clamp_inside inside).symm
      _ ≤ clamp (w' * u') := clamp_mono (greatest.trans greater)
      _ ≤ entry.maxValue := (corner cornerU' cornerW').2

-- A rounded quotient: it grows with the dividend, lies between the quotients by the smallest and the
-- largest divisor, and is no further from zero than the dividend.
structure Rounded (f : Int → Int → Int) (Divisor : Int → Prop) : Prop where
  up : ∀ {y y'}, Divisor y → y ≤ y' → Divisor y'
  mono : ∀ {x x' y}, Divisor y → x ≤ x' → f x y ≤ f x' y
  anti : ∀ {x y y'}, 0 ≤ x → Divisor y → y ≤ y' → f x y' ≤ f x y
  rise : ∀ {x y y'}, x ≤ 0 → Divisor y → y ≤ y' → f x y ≤ f x y'
  below : ∀ {x y}, Divisor y → 0 ≤ x → f x y ≤ x
  above : ∀ {x y}, Divisor y → x ≤ 0 → x ≤ f x y

theorem ediv_anti {x y y' : Int} (nonneg : 0 ≤ x) (positive : 0 < y) (le : y ≤ y') : x / y' ≤ x / y := by
  have quotient : 0 ≤ x / y' := Int.ediv_nonneg nonneg (by omega)
  have product : x / y' * y' ≤ x := Int.ediv_mul_le x (by omega)
  exact Int.le_ediv_of_mul_le positive ((mul_le_mul_of_nonneg_left le quotient).trans product)

theorem ediv_rise {x y y' : Int} (nonpos : x ≤ 0) (positive : 0 < y) (le : y ≤ y') : x / y ≤ x / y' := by
  rcases nonpos.lt_or_eq with negative | zero
  · have quotient : x / y' + 1 ≤ 0 := Int.ediv_neg_of_neg_of_pos negative (by omega)
    have product : x < (x / y' + 1) * y' := Int.lt_ediv_add_one_mul_self x (by omega)
    have smaller : (x / y' + 1) * y' ≤ (x / y' + 1) * y := mul_le_mul_of_nonpos_left le quotient
    exact Int.lt_add_one_iff.1 ((Int.ediv_lt_iff_lt_mul positive).2 (product.trans_le smaller))
  · simp [zero]

theorem rounded_fdiv : Rounded Int.fdiv (0 < ·) where
  up := by
    intro y y' positive le
    omega
  mono := by
    intro x x' y positive le
    rw [Int.fdiv_eq_ediv_of_nonneg _ positive.le, Int.fdiv_eq_ediv_of_nonneg _ positive.le]
    exact Int.ediv_le_ediv positive le
  anti := by
    intro x y y' nonneg positive le
    rw [Int.fdiv_eq_ediv_of_nonneg _ (by omega), Int.fdiv_eq_ediv_of_nonneg _ positive.le]
    exact ediv_anti nonneg positive le
  rise := by
    intro x y y' nonpos positive le
    rw [Int.fdiv_eq_ediv_of_nonneg _ positive.le, Int.fdiv_eq_ediv_of_nonneg _ (by omega)]
    exact ediv_rise nonpos positive le
  below := by
    intro x y positive nonneg
    rw [Int.fdiv_eq_ediv_of_nonneg _ positive.le]
    exact Int.ediv_le_self y nonneg
  above := by
    intro x y positive nonpos
    rw [Int.fdiv_eq_ediv_of_nonneg _ positive.le]
    simpa using ediv_rise nonpos one_pos (show 1 ≤ y from positive)

theorem rounded_tdiv : Rounded Int.tdiv (0 < ·) where
  up := rounded_fdiv.up
  mono := fun positive le => Int.tdiv_le_tdiv positive le
  anti := by
    intro x y y' nonneg positive le
    rw [Int.tdiv_eq_ediv_of_nonneg nonneg, Int.tdiv_eq_ediv_of_nonneg nonneg]
    exact ediv_anti nonneg positive le
  rise := by
    intro x y y' nonpos positive le
    have anti := ediv_anti (show 0 ≤ -x by omega) positive le
    rw [← Int.tdiv_eq_ediv_of_nonneg (by omega), ← Int.tdiv_eq_ediv_of_nonneg (by omega),
      Int.neg_tdiv, Int.neg_tdiv] at anti
    omega
  below := by
    intro x y positive nonneg
    rw [Int.tdiv_eq_ediv_of_nonneg nonneg]
    exact Int.ediv_le_self y nonneg
  above := by
    intro x y positive nonpos
    have below := Int.ediv_le_self y (show 0 ≤ -x by omega)
    rw [← Int.tdiv_eq_ediv_of_nonneg (by omega), Int.neg_tdiv] at below
    omega

theorem rounded_shift : Rounded (fun x y => x.fdiv (2 ^ y.toNat)) (0 ≤ ·) := by
  have power : ∀ y : Int, (0 : Int) < 2 ^ y.toNat := fun y => by positivity
  have grows : ∀ {y y' : Int}, y ≤ y' → (2 : Int) ^ y.toNat ≤ 2 ^ y'.toNat := fun le =>
    pow_le_pow_right₀ (by norm_num) (Int.toNat_le_toNat le)
  exact {
    up := fun nonneg le => nonneg.trans le
    mono := fun _ le => rounded_fdiv.mono (power _) le
    anti := fun nonneg _ le => rounded_fdiv.anti nonneg (power _) (grows le)
    rise := fun nonpos _ le => rounded_fdiv.rise nonpos (power _) (grows le)
    below := fun _ nonneg => rounded_fdiv.below (power _) nonneg
    above := fun _ nonpos => rounded_fdiv.above (power _) nonpos }

def Computes (op : Int → Int → Except Fault Int) (f : Int → Int → Int) (Divisor : Int → Prop) :
    Prop :=
  ∀ {x y v}, Divisor y → op x y = .ok v → Word v ∧
    (v = f x y ∨ (x = kPosInf ∨ x = kNegInf) ∧ v = x)

section

variable {op : Int → Int → Except Fault Int} {f : Int → Int → Int} {Divisor : Int → Prop}
  (rounded : Rounded f Divisor) (computes : Computes op f Divisor)

include rounded computes

theorem computes_le {v : Int} (divisor : Divisor y) (run : op x y = .ok v) (finite : x < kPosInf) :
    v ≤ f x y := by
  have limits := kInf_eq
  rcases (computes divisor run).2 with rfl | ⟨infinite, rfl⟩
  · exact le_refl _
  · exact rounded.above divisor (by omega)

theorem computes_ge {v : Int} (divisor : Divisor y) (run : op x y = .ok v) (finite : kNegInf < x) :
    f x y ≤ v := by
  have limits := kInf_eq
  rcases (computes divisor run).2 with rfl | ⟨infinite, rfl⟩
  · exact le_refl _
  · exact rounded.below divisor (by omega)

theorem boundary_sound (run : binaryOpBoundary op a b = .ok entry) (minX : a.minValue ≤ x)
    (maxX : x ≤ a.maxValue) (proper : a.Proper) (divisor : Divisor b.minValue)
    (minY : b.minValue ≤ y) (maxY : y ≤ b.maxValue) : entry.Bounds (f x y) := by
  have divisorY := rounded.up divisor minY
  have divisorMax := rounded.up divisorY maxY
  have range := binaryOpBoundary_range run fun {u w v} _ corner value => by
    rcases corner with rfl | rfl
    · exact (computes divisor value).1
    · exact (computes divisorMax value).1
  refine ⟨range.1.1, ?_, ?_, range.2.2⟩
  · have grows := rounded.mono divisorY minX
    rcases le_total 0 a.minValue with nonneg | nonpos
    · obtain ⟨v, value, below, -⟩ := binaryOpBoundary_corner run (.inl rfl) (.inr rfl)
      calc entry.minValue ≤ v := below
        _ ≤ f a.minValue b.maxValue := computes_le rounded computes divisorMax value proper.1
        _ ≤ f a.minValue y := rounded.anti nonneg divisorY maxY
        _ ≤ f x y := grows
    · obtain ⟨v, value, below, -⟩ := binaryOpBoundary_corner run (.inl rfl) (.inl rfl)
      calc entry.minValue ≤ v := below
        _ ≤ f a.minValue b.minValue := computes_le rounded computes divisor value proper.1
        _ ≤ f a.minValue y := rounded.rise nonpos divisor minY
        _ ≤ f x y := grows
  · have grows := rounded.mono divisorY maxX
    rcases le_total 0 a.maxValue with nonneg | nonpos
    · obtain ⟨v, value, -, above⟩ := binaryOpBoundary_corner run (.inr rfl) (.inl rfl)
      calc f x y ≤ f a.maxValue y := grows
        _ ≤ f a.maxValue b.minValue := rounded.anti nonneg divisor minY
        _ ≤ v := computes_ge rounded computes divisor value proper.2
        _ ≤ entry.maxValue := above
    · obtain ⟨v, value, -, above⟩ := binaryOpBoundary_corner run (.inr rfl) (.inr rfl)
      calc f x y ≤ f a.maxValue y := grows
        _ ≤ f a.maxValue b.maxValue := rounded.rise nonpos divisorY maxY
        _ ≤ v := computes_ge rounded computes divisorMax value proper.2
        _ ≤ entry.maxValue := above

end

theorem infAwareRightShift_ok {v : Int} (run : infAwareRightShift x y = .ok v) :
    Word v ∧ ((x = kPosInf ∨ x = kNegInf) ∧ v = x ∨ 0 ≤ y ∧ v = x.fdiv (2 ^ y.toNat)) := by
  have limits := kInf_eq
  unfold infAwareRightShift at run
  split at run
  next infinite =>
    cases run
    exact ⟨⟨by omega, by omega⟩, .inl ⟨infinite, rfl⟩⟩
  · simp only [bind_ok, ensure_ok, decide_eq_true_eq, int64_ok] at run
    obtain ⟨-, amount, range, rfl⟩ := run
    exact ⟨range, .inr ⟨amount.1, rfl⟩⟩

theorem infAwareRightShift_computes :
    Computes infAwareRightShift (fun x y => x.fdiv (2 ^ y.toNat)) (0 ≤ ·) := fun _ run =>
  (infAwareRightShift_ok run).imp_right fun value => value.symm.imp_left And.right

theorem visitRightShift_sound (run : visitRightShift dtype a b = .ok entry) (boundsA : a.Bounds x)
    (boundsB : b.Bounds y) (proper : a.Proper) (inside : Inside (x.fdiv (2 ^ y.toNat))) :
    entry.Bounds (x.fdiv (2 ^ y.toNat)) := by
  by_cases nonneg : 0 ≤ b.minValue
  · exact boundary_sound (f := fun x y => x.fdiv (2 ^ y.toNat)) rounded_shift
      infAwareRightShift_computes run boundsA.min boundsA.max proper nonneg boundsB.min boundsB.max
  · -- A negative amount is only looked at if the dividend is unbounded on both sides.
    have limits := kInf_eq
    have ⟨finiteMin, finiteMax⟩ := proper
    have ⟨least, greatest⟩ := inside
    obtain ⟨low, lower, below, -⟩ := binaryOpBoundary_corner run (.inl rfl) (.inl rfl)
    obtain ⟨high, upper, -, above⟩ := binaryOpBoundary_corner run (.inr rfl) (.inl rfl)
    have range := binaryOpBoundary_range run fun _ _ value => (infAwareRightShift_ok value).1
    have lowCase := (infAwareRightShift_ok lower).2
    have highCase := (infAwareRightShift_ok upper).2
    exact ⟨range.1.1, by omega, by omega, range.2.2⟩

theorem infAwareDivide_ok {divide : Int → Int → Int} {v : Int} (run : infAwareDivide divide x y = .ok v) :
    y ≠ 0 ∧ Word v ∧ ((x = kPosInf ∨ x = kNegInf) ∧ v = (if 0 < y then x else -x) ∨ v = divide x y) := by
  have limits := kInf_eq
  simp only [infAwareDivide, bind_ok, ensure_ok, decide_eq_true_eq] at run
  obtain ⟨-, nonzero, run⟩ := run
  refine ⟨nonzero, ?_⟩
  split at run
  next infinite =>
    cases run
    refine ⟨?_, .inl ⟨infinite, rfl⟩⟩
    unfold Word
    split <;> omega
  · simp only [bind_ok, int64_ok] at run
    obtain ⟨-, -, range, rfl⟩ := run
    exact ⟨range, .inr rfl⟩

theorem infAwareDivide_computes (divide : Int → Int → Int) :
    Computes (infAwareDivide divide) divide (0 < ·) := by
  intro x y v positive run
  obtain ⟨-, word, value⟩ := infAwareDivide_ok run
  rw [if_pos positive] at value
  exact ⟨word, value.symm⟩

def Entry.neg (entry : Entry) : Entry :=
  ⟨-entry.maxValue, -entry.minValue⟩

theorem binaryOpBoundary_neg {op : Int → Int → Except Fault Int}
    (even : ∀ x y, op (-x) (-y) = op x y) (run : binaryOpBoundary op a b = .ok entry) :
    binaryOpBoundary op a.neg b.neg = .ok entry := by
  simp only [binaryOpBoundary, bind_ok, pure_ok] at run
  obtain ⟨v1, first, v2, second, v3, third, v4, fourth, rfl⟩ := run
  simp only [binaryOpBoundary, Entry.neg, even, first, second, third, fourth, ok_bind, pure_ok, Entry.mk.injEq]
  constructor <;> omega

theorem infAwareDivide_neg_neg {divide : Int → Int → Int}
    (even : ∀ x y, divide (-x) (-y) = divide x y) (x y : Int) :
    infAwareDivide divide (-x) (-y) = infAwareDivide divide x y := by
  have limits := kInf_eq
  by_cases zero : y = 0
  · simp [infAwareDivide, zero, ensure, error_bind]
  · have infinite : (-x = kPosInf ∨ -x = kNegInf) ↔ (x = kPosInf ∨ x = kNegInf) := by omega
    have sign : (if 0 < -y then -x else x) = if 0 < y then x else -x := by
      split <;> split <;> omega
    simp only [infAwareDivide, ne_eq, neg_eq_zero, infinite, Int.tdiv_neg, Int.neg_tdiv,
      neg_neg, even, sign]

theorem makeBound_bounds {low high value : Int} (least : -2 ^ 63 ≤ low) (min : low ≤ value)
    (max : value ≤ high) (greatest : high < 2 ^ 63) : (makeBound low high).Bounds value := by
  have limits := kInf_eq
  unfold makeBound
  constructor <;> dsimp only <;> split <;> omega

theorem divide_range {divide : Int → Int → Int}
    (run : binaryOpBoundary (infAwareDivide divide) a b = .ok entry) :
    Word entry.minValue ∧ Word entry.maxValue :=
  binaryOpBoundary_range run fun _ _ value => (infAwareDivide_ok value).2.1

theorem intersect_bounds {value : Int} (boundsA : a.Bounds value) (boundsB : b.Bounds value) :
    (intersect a b).Bounds value :=
  ⟨boundsA.low.trans (le_max_left _ _), max_le boundsA.min boundsB.min,
    le_min boundsA.max boundsB.max, (min_le_left _ _).trans_lt boundsA.high⟩

theorem union_bounds {value : Int} (lowA : -2 ^ 63 ≤ a.minValue) (lowB : -2 ^ 63 ≤ b.minValue)
    (highA : a.maxValue < 2 ^ 63) (highB : b.maxValue < 2 ^ 63)
    (either : a.Bounds value ∨ b.Bounds value) : (union a b).Bounds value := by
  refine ⟨le_min lowA lowB, ?_, ?_, max_lt highA highB⟩
  · exact either.elim (fun bounds => (min_le_left _ _).trans bounds.min)
      (fun bounds => (min_le_right _ _).trans bounds.min)
  · exact either.elim (fun bounds => bounds.max.trans (le_max_left _ _))
      (fun bounds => bounds.max.trans (le_max_right _ _))

section

variable {divide : Int → Int → Int} (rounded : Rounded divide (0 < ·))
  (even : ∀ x y, divide (-x) (-y) = divide x y)

include rounded

theorem divide_positive (run : binaryOpBoundary (infAwareDivide divide) a b = .ok entry)
    (boundsA : a.Bounds x) (proper : a.Proper) (positive : 0 < b.minValue)
    (minY : b.minValue ≤ y) (maxY : y ≤ b.maxValue) : entry.Bounds (divide x y) :=
  boundary_sound rounded (infAwareDivide_computes divide) run boundsA.min boundsA.max proper
    positive minY maxY

include even

theorem divide_negative (run : binaryOpBoundary (infAwareDivide divide) a b = .ok entry)
    (boundsA : a.Bounds x) (proper : a.Proper) (negative : b.maxValue < 0)
    (minY : b.minValue ≤ y) (maxY : y ≤ b.maxValue) : entry.Bounds (divide x y) := by
  have mirrored : a.neg.Proper := by
    simp only [Entry.Proper, Entry.neg, kNegInf] at proper ⊢
    omega
  have swapped := binaryOpBoundary_neg (infAwareDivide_neg_neg even) run
  have bounds := boundary_sound rounded (infAwareDivide_computes divide) swapped
    (neg_le_neg boundsA.max) (neg_le_neg boundsA.min) mirrored
    (show 0 < b.neg.minValue by simpa [Entry.neg] using negative)
    (neg_le_neg maxY) (neg_le_neg minY)
  rwa [even] at bounds

theorem handleDivision_sound
    (run : handleDivision (infAwareDivide divide) dtype a b = .ok entry) (boundsA : a.Bounds x)
    (boundsB : b.Bounds y) (proper : a.Proper) (nonzero : y ≠ 0)
    (signed : dtype.isInt = true ∨ 0 ≤ b.minValue) : entry.Bounds (divide x y) := by
  have minY := boundsB.min
  have maxY := boundsB.max
  unfold handleDivision at run
  split at run
  next around =>
    simp only [bind_ok, pure_ok] at run
    obtain ⟨eNeg, negative, ePos, positive, rfl⟩ := run
    have rangeNeg := divide_range negative
    have rangePos := divide_range positive
    have either : eNeg.Bounds (divide x y) ∨ ePos.Bounds (divide x y) := by
      rcases lt_or_gt_of_ne nonzero with below | above
      · have left : (makeBound b.minValue (-1)).Bounds y :=
          makeBound_bounds boundsB.low minY (by omega) (by norm_num)
        rw [if_pos (by omega)] at negative
        refine .inl (divide_negative rounded even negative boundsA proper ?_ left.min left.max)
        simp [makeBound, kInf_eq]
      · have right : (makeBound 1 b.maxValue).Bounds y :=
          makeBound_bounds (by norm_num) (by omega) maxY boundsB.high
        rw [if_pos (by omega)] at positive
        refine .inr (divide_positive rounded positive boundsA proper ?_ right.min right.max)
        simp [makeBound, kInf_eq]
    obtain ⟨low, min, max, high⟩ := union_bounds rangeNeg.1.1 rangePos.1.1 rangeNeg.2.2 rangePos.2.2 either
    exact makeBound_bounds low min max high
  next apart =>
    split at run
    next unsigned =>
      have first : (makeBound 1 b.maxValue).Bounds y :=
        makeBound_bounds (by norm_num) (by omega) maxY boundsB.high
      refine divide_positive rounded run boundsA proper ?_ first.min first.max
      simp [makeBound, kInf_eq]
    · by_cases positive : 0 < b.minValue
      · exact divide_positive rounded run boundsA proper positive minY maxY
      · by_cases negative : b.maxValue < 0
        · exact divide_negative rounded even run boundsA proper negative minY maxY
        · -- Only a divisor that starts at zero is left, which no corner accepts.
          have least : b.minValue = 0 := by
            have unsigned : ¬ dtype.isInt = true := fun int =>
              apart ⟨by omega, by omega, int⟩
            have := signed.resolve_left unsigned
            omega
          obtain ⟨v, value, -⟩ := binaryOpBoundary_corner run (.inl rfl) (.inl rfl)
          exact absurd least (infAwareDivide_ok value).1

end

theorem infAwareFloorDiv_eq : infAwareFloorDiv = infAwareDivide Int.fdiv := by
  funext x y
  by_cases zero : y = 0
  · simp [infAwareFloorDiv, infAwareDivide, zero, ensure, error_bind]
  · simp only [infAwareFloorDiv, infAwareDivide, (floordiv_floormod x zero).1]

theorem visitDiv_sound (run : visitDiv dtype a b = .ok entry) (boundsA : a.Bounds x)
    (boundsB : b.Bounds y) (proper : a.Proper) (nonzero : y ≠ 0)
    (signed : dtype.isInt = true ∨ 0 ≤ b.minValue) : entry.Bounds (x.tdiv y) := by
  simp only [visitDiv, bind_ok] at run
  obtain ⟨-, -, run⟩ := run
  exact handleDivision_sound rounded_tdiv (fun x y => by rw [Int.tdiv_neg, Int.neg_tdiv, neg_neg])
    run boundsA boundsB proper nonzero signed

theorem visitFloorDiv_sound (run : visitFloorDiv dtype a b = .ok entry) (boundsA : a.Bounds x)
    (boundsB : b.Bounds y) (proper : a.Proper) (nonzero : y ≠ 0)
    (signed : dtype.isInt = true ∨ 0 ≤ b.minValue) : entry.Bounds (x.fdiv y) := by
  simp only [visitFloorDiv, infAwareFloorDiv_eq, bind_ok] at run
  obtain ⟨-, -, run⟩ := run
  exact handleDivision_sound rounded_fdiv (fun x y => Int.neg_fdiv_neg x y) run boundsA boundsB
    proper nonzero signed

theorem narrow_power {n : Nat} (narrow : ¬63 ≤ n) : (1 : Int) ≤ 2 ^ n ∧ (2 : Int) ^ n ≤ 2 ^ 62 :=
  ⟨one_le_pow₀ (by norm_num), pow_le_pow_right₀ (by norm_num) (by omega)⟩

theorem everything_bounds {value : Int} (fits : dtype.Fits value) (inside : Inside value) :
    (everything dtype).Bounds value := by
  have limits := kInf_eq
  simp only [Inside] at inside
  obtain ⟨code, bits, small⟩ := dtype
  cases code with
  | int | uint =>
    simp only [DataType.Fits] at fits
    simp only [everything, DataType.isInt, DataType.isUInt]
    simp
    split
    · constructor <;> dsimp only <;> omega
    next narrow =>
      have := narrow_power narrow
      constructor <;> dsimp only <;> omega
  | float =>
    exact makeBound_bounds (by omega) (by omega) (by omega) (by omega)

theorem divisorCap {cap : Int} (run : infAwareAdd b.maxValue (-1) = .ok cap)
    (boundsB : b.Bounds y) (positive : 0 < y) : y - 1 ≤ cap ∧ cap < 2 ^ 63 := by
  have limits := kInf_eq
  have above := boundsB.max
  have high := boundsB.high
  exact infAwareAdd_ge run (by omega) (by omega) (by omega) le_rfl above le_rfl (by norm_num)

theorem tmod_positive (positive : 0 < y) :
    (0 ≤ x → 0 ≤ x.tmod y ∧ x.tmod y ≤ x) ∧ (x ≤ 0 → x ≤ x.tmod y ∧ x.tmod y ≤ 0) ∧
      -y < x.tmod y ∧ x.tmod y < y := by
  have size := Int.natAbs_tmod x y
  have below := Nat.mod_lt x.natAbs (show 0 < y.natAbs by omega)
  have least := Nat.mod_le x.natAbs y.natAbs
  refine ⟨fun nonneg => ?_, fun nonpos => ?_, by omega, by omega⟩
  · have := Int.tmod_nonneg y nonneg
    omega
  · have := Int.tmod_nonneg y (show 0 ≤ -x by omega)
    rw [Int.neg_tmod] at this
    omega

theorem visitMod_sound (run : visitMod dtype a b = .ok entry) (boundsA : a.Bounds x)
    (boundsB : b.Bounds y) (fits : dtype.Fits (x.tmod y))
    (inside : Inside (x.tmod y)) : entry.Bounds (x.tmod y) := by
  have ⟨lowA, minX, maxX, highA⟩ := boundsA
  have ⟨lowB, minY, maxY, highB⟩ := boundsB
  unfold visitMod at run
  split at run
  next positive =>
    simp only [bind_ok] at run
    obtain ⟨cap, capped, run⟩ := run
    have bound := divisorCap capped boundsB (by omega)
    have rest := @tmod_positive x y (by omega)
    split at run
    next nonneg =>
      split at run
      next small =>
        cases run
        rw [Int.tmod_eq_of_lt (by omega) (by omega)]
        exact boundsA
      · cases run
        exact makeBound_bounds (by norm_num) (by omega) (by omega) (by omega)
    · simp only [neg, bind_ok, pure_ok, int64_ok] at run
      obtain ⟨_, ⟨fits, rfl⟩, rfl⟩ := run
      rcases le_total 0 x with nonneg | nonpos
      · have := rest.1 nonneg
        exact makeBound_bounds (by omega) (by omega) (by omega) (by omega)
      · have := rest.2.1 nonpos
        exact makeBound_bounds (by omega) (by omega) (by omega) (by omega)
  · simp only [bind_ok, pure_ok] at run
    obtain ⟨-, -, rfl⟩ := run
    exact everything_bounds fits inside

theorem visitFloorMod_sound (run : visitFloorMod dtype a b = .ok entry) (boundsA : a.Bounds x)
    (boundsB : b.Bounds y) (nonzero : y ≠ 0) (fits : dtype.Fits (x.fmod y))
    (inside : Inside (x.fmod y)) : entry.Bounds (x.fmod y) := by
  have limits := kInf_eq
  have ⟨lowA, minX, maxX, highA⟩ := boundsA
  have ⟨lowB, minY, maxY, highB⟩ := boundsB
  unfold visitFloorMod at run
  split at run
  next positive =>
    simp only [bind_ok] at run
    obtain ⟨cap, capped, run⟩ := run
    have bound := divisorCap capped boundsB (by omega)
    rw [Int.fmod_eq_emod_of_nonneg _ (by omega)] at *
    have nonneg := Int.emod_nonneg x nonzero
    have below := Int.emod_lt_of_pos x (show 0 < y by omega)
    split at run
    next nonnegX =>
      split at run
      next small =>
        cases run
        rw [Int.emod_eq_of_lt (by omega) (by omega)]
        exact boundsA
      · cases run
        have least := ((@tmod_positive x y (by omega)).1 (by omega)).2
        rw [Int.tmod_eq_emod_of_nonneg (by omega)] at least
        exact makeBound_bounds (by norm_num) (by omega) (by omega) (by omega)
    · cases run
      exact makeBound_bounds (by norm_num) (by omega) (by omega) (by omega)
  · simp only [bind_ok, pure_ok] at run
    obtain ⟨-, -, minCap, lower, maxCap, upper, rfl⟩ := run
    refine intersect_bounds ?_ (everything_bounds fits inside)
    have lowest := (infAwareAdd_range lower (by decide)).1
    have highest := (infAwareAdd_range upper (by decide)).2
    rcases lt_or_gt_of_ne nonzero with negative | positive
    · have least : minCap ≤ y + 1 := (infAwareAdd_le lower (by omega) (by omega) (by omega) minY
        (by norm_num) le_rfl).2
      have rest := (Int.fdiv_fmod_unique' (a := x) negative).1 ⟨rfl, rfl⟩
      exact makeBound_bounds (by omega) (by omega) (by omega) (by omega)
    · have bound := divisorCap upper boundsB positive
      have rest := (Int.fdiv_fmod_unique (a := x) positive).1 ⟨rfl, rfl⟩
      exact makeBound_bounds (by omega) (by omega) (by omega) (by omega)

theorem visitMin_sound (run : visitMin dtype a b = .ok entry) (boundsA : a.Bounds x)
    (boundsB : b.Bounds y) : entry.Bounds (min x y) := by
  cases run
  exact ⟨le_min boundsA.low boundsB.low, min_le_min boundsA.min boundsB.min,
    min_le_min boundsA.max boundsB.max, (min_le_left _ _).trans_lt boundsA.high⟩

theorem visitMax_sound (run : visitMax dtype a b = .ok entry) (boundsA : a.Bounds x)
    (boundsB : b.Bounds y) : entry.Bounds (max x y) := by
  cases run
  exact ⟨boundsA.low.trans (le_max_left _ _), max_le_max boundsA.min boundsB.min,
    max_le_max boundsA.max boundsB.max, max_lt boundsA.high boundsB.high⟩

theorem ldiff_le (m n : Nat) : Nat.ldiff m n ≤ m := by
  have masked : Nat.ldiff m n &&& m = Nat.ldiff m n := by
    apply Nat.eq_of_testBit_eq
    intro i
    simp only [Nat.testBit_and, Nat.testBit_ldiff]
    cases m.testBit i <;> simp
  rw [← masked]
  exact Nat.and_le_right

theorem land_nonneg (x : Int) {y : Int} (nonneg : 0 ≤ y) : 0 ≤ Int.land x y ∧ Int.land x y ≤ y := by
  obtain ⟨n, rfl⟩ := Int.eq_ofNat_of_zero_le nonneg
  cases x with
  | ofNat m => exact ⟨Int.natCast_nonneg _, Int.ofNat_le.2 Nat.and_le_right⟩
  | negSucc m => exact ⟨Int.natCast_nonneg _, Int.ofNat_le.2 (ldiff_le n m)⟩

theorem land_comm (x y : Int) : Int.land x y = Int.land y x := by
  cases x <;> cases y <;> simp [Int.land, Nat.land_comm, Nat.lor_comm]

theorem visitBitwiseAnd_sound (run : visitBitwiseAnd dtype a b = .ok entry) (boundsA : a.Bounds x)
    (boundsB : b.Bounds y) (fits : dtype.Fits (Int.land x y)) (inside : Inside (Int.land x y)) :
    entry.Bounds (Int.land x y) := by
  have ⟨lowA, minX, maxX, highA⟩ := boundsA
  have ⟨lowB, minY, maxY, highB⟩ := boundsB
  have right := @land_nonneg x y
  have left := @land_nonneg y x
  rw [land_comm] at left
  unfold visitBitwiseAnd at run
  split at run
  next both =>
    cases run
    exact makeBound_bounds (by norm_num) (by omega) (by omega) (by omega)
  · split at run
    · cases run
      exact makeBound_bounds (by norm_num) (by omega) (by omega) (by omega)
    · split at run
      · cases run
        exact makeBound_bounds (by norm_num) (by omega) (by omega) (by omega)
      · cases run
        exact everything_bounds fits inside

theorem infAwareLeftShift_ok {v : Int} (run : infAwareLeftShift x y = .ok v) :
    Word v ∧ ((x = kPosInf ∨ x = kNegInf) ∧ v = x ∨
      0 ≤ x ∧ 0 ≤ y ∧ v = x * 2 ^ y.toNat ∨ 64 ≤ bitWidth x + y ∧ v = kPosInf) := by
  have limits := kInf_eq
  unfold infAwareLeftShift at run
  split at run
  next infinite =>
    cases run
    exact ⟨⟨by omega, by omega⟩, .inl ⟨infinite, rfl⟩⟩
  · simp only [bind_ok, int64_ok] at run
    obtain ⟨_, -, total, ⟨-, rfl⟩, run⟩ := run
    split at run
    · simp only [bind_ok, ensure_ok, decide_eq_true_eq, int64_ok] at run
      obtain ⟨-, signs, range, rfl⟩ := run
      exact ⟨range, .inr (.inl ⟨signs.1, signs.2, rfl⟩)⟩
    next wide =>
      cases run
      exact ⟨⟨by omega, by omega⟩, .inr (.inr ⟨not_lt.1 wide, rfl⟩)⟩

theorem shift_mono {x x' y y' : Int} (nonneg : 0 ≤ x) (le : x ≤ x') (amount : y ≤ y') :
    x * 2 ^ y.toNat ≤ x' * 2 ^ y'.toNat := by
  have power : (2 : Int) ^ y.toNat ≤ 2 ^ y'.toNat :=
    pow_le_pow_right₀ (by norm_num) (Int.toNat_le_toNat amount)
  exact mul_le_mul le power (by positivity) (by omega)

theorem wide_shift {x y : Int} (positive : 0 < x) (nonneg : 0 ≤ y) (wide : 64 ≤ bitWidth x + y) :
    2 ^ 63 ≤ x * 2 ^ y.toNat := by
  have some : 0 < x.natAbs.size := Nat.size_pos.2 (by omega)
  have least : 2 ^ (x.natAbs.size - 1) ≤ x.natAbs := Nat.lt_size.1 (by omega)
  have cast : (2 : Int) ^ (x.natAbs.size - 1) ≤ x := by
    have : ((2 ^ (x.natAbs.size - 1) : Nat) : Int) ≤ x.natAbs := by exact_mod_cast least
    rw [Int.natAbs_of_nonneg positive.le] at this
    exact_mod_cast this
  unfold bitWidth at wide
  calc (2 : Int) ^ 63 ≤ 2 ^ (x.natAbs.size - 1 + y.toNat) :=
        pow_le_pow_right₀ (by norm_num) (by omega)
    _ = 2 ^ (x.natAbs.size - 1) * 2 ^ y.toNat := pow_add _ _ _
    _ ≤ x * 2 ^ y.toNat := mul_le_mul_of_nonneg_right cast (by positivity)

theorem visitLeftShift_sound (run : visitLeftShift dtype a b = .ok entry) (boundsA : a.Bounds x)
    (boundsB : b.Bounds y) (proper : a.Proper) (amount : y < 64)
    (fits : dtype.Fits (x * 2 ^ y.toNat)) (inside : Inside (x * 2 ^ y.toNat)) :
    entry.Bounds (x * 2 ^ y.toNat) := by
  have ⟨lowA, minX, maxX, highA⟩ := boundsA
  have ⟨lowB, minY, maxY, highB⟩ := boundsB
  unfold visitLeftShift at run
  split at run
  · cases run
    exact everything_bounds fits inside
  next signs =>
    rw [not_or, not_lt, not_lt] at signs
    obtain ⟨low, lower, below, -⟩ := binaryOpBoundary_corner run (.inl rfl) (.inl rfl)
    obtain ⟨high, upper, -, above⟩ := binaryOpBoundary_corner run (.inr rfl) (.inr rfl)
    have range := binaryOpBoundary_range run fun _ _ value => (infAwareLeftShift_ok value).1
    have limits := kInf_eq
    have ⟨finiteMin, finiteMax⟩ := proper
    simp only [Inside] at inside
    refine ⟨range.1.1, below.trans ?_, le_trans ?_ above, range.2.2⟩
    · have corner := shift_mono signs.1 minX minY
      rcases (infAwareLeftShift_ok lower).2 with ⟨infinite, rfl⟩ | ⟨-, -, rfl⟩ | ⟨wide, rfl⟩
      · omega
      · exact corner
      · rcases signs.1.lt_or_eq with positive | zero
        · have := wide_shift positive signs.2 wide
          omega
        · rw [← zero] at wide
          simp [bitWidth] at wide
          omega
    · have corner := shift_mono (show 0 ≤ x by omega) maxX maxY
      rcases (infAwareLeftShift_ok upper).2 with ⟨infinite, rfl⟩ | ⟨-, -, rfl⟩ | ⟨-, rfl⟩
      · omega
      · exact corner
      · exact inside.2

-- What the bounds of the operands must be like for the step of the operator.
def Workable (dtype : DataType) (a b : Entry) : BinOp → Prop
  | .add | .sub => a.Proper ∧ b.Proper
  | .div | .floorDiv => a.Proper ∧ (dtype.isInt = true ∨ 0 ≤ b.minValue)
  | .shiftLeft | .shiftRight => a.Proper
  | _ => True

theorem visitor_sound {op : BinOp} {visit : DataType → Entry → Entry → Except Fault Entry}
    (found : visitor op = some visit) (run : visit dtype a b = .ok entry) (boundsA : a.Bounds x)
    (boundsB : b.Bounds y) (workable : Workable dtype a b op)
    (inside : Inside (op.apply x y)) (fits : dtype.Fits (op.apply x y)) (defined : op.Defined dtype y) :
    entry.Bounds (op.apply x y) := by
  cases op <;> cases found
  case add => exact visitAdd_sound run boundsA boundsB workable.1 workable.2 inside
  case sub => exact visitSub_sound run boundsA boundsB workable.1 workable.2 inside
  case mul => exact visitMul_sound run boundsA boundsB inside
  case div => exact visitDiv_sound run boundsA boundsB workable.1 defined workable.2
  case mod => exact visitMod_sound run boundsA boundsB fits inside
  case floorDiv => exact visitFloorDiv_sound run boundsA boundsB workable.1 defined workable.2
  case floorMod => exact visitFloorMod_sound run boundsA boundsB defined fits inside
  case min => exact visitMin_sound run boundsA boundsB
  case max => exact visitMax_sound run boundsA boundsB
  case shiftLeft =>
    have width := dtype.bits_le
    have amount := defined.2
    exact visitLeftShift_sound run boundsA boundsB workable (by omega) fits inside
  case shiftRight => exact visitRightShift_sound run boundsA boundsB workable inside
  case bitwiseAnd => exact visitBitwiseAnd_sound run boundsA boundsB fits inside

end

end Tlm.Arith.ConstIntBound
