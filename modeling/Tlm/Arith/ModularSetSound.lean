import Tlm.Shared.Division
import Tlm.Arith.ModularSet
import Mathlib.Data.Int.ModEq

set_option autoImplicit false

namespace Tlm.Arith.ModularSet

open Cpp

def Entry.Contains (entry : Entry) (value : Int) : Prop :=
  value ≡ entry.base [ZMOD entry.coeff]

theorem tmod_modEq (x y : Int) : x.tmod y ≡ x [ZMOD y] := by
  rw [Int.modEq_iff_dvd]
  exact ⟨x.tdiv y, by linarith [Int.mul_tdiv_add_tmod x y]⟩

theorem fmod_modEq (x y : Int) : x.fmod y ≡ x [ZMOD y] := by
  rw [Int.modEq_iff_dvd]
  exact ⟨x.fdiv y, by linarith [Int.mul_fdiv_add_fmod x y]⟩

theorem reduceBase_modEq (coeff base : Int) : Entry.reduceBase coeff base ≡ base [ZMOD coeff] := by
  unfold Entry.reduceBase
  split
  · split
    · exact Int.add_modEq_right.trans (tmod_modEq base coeff)
    · exact tmod_modEq base coeff
  · rfl

section

variable {a b entry : Entry} {coeff base x y : Int}

section

variable (run : Entry.make coeff base = .ok entry)

include run

theorem make_coeff : entry.coeff = |coeff| := by
  unfold Entry.make at run
  split at run
  next negative =>
    split at run
    · cases run
      exact (abs_of_neg negative).symm
    · cases run
  next nonneg =>
    split at run
    · cases run
      exact (abs_of_nonneg (not_lt.1 nonneg)).symm
    · cases run

theorem make_base :
    entry.base ≡ (if coeff < 0 then -base else base) [ZMOD coeff] := by
  unfold Entry.make at run
  split at run
  next negative =>
    split at run
    · cases run
      rw [if_pos negative, ← Int.modEq_neg]
      exact reduceBase_modEq (-coeff) (-base)
    · cases run
  next nonneg =>
    split at run
    · cases run
      rw [if_neg nonneg]
      exact reduceBase_modEq coeff base
    · cases run

theorem contains_iff :
    entry.Contains x ↔ x ≡ (if coeff < 0 then -base else base) [ZMOD coeff] := by
  rw [Entry.Contains, make_coeff run, Int.modEq_abs]
  exact ⟨fun h => h.trans (make_base run), fun h => h.trans (make_base run).symm⟩

theorem make_contains (nonneg : 0 ≤ coeff)
    (congruent : x ≡ base [ZMOD coeff]) : entry.Contains x := by
  rw [contains_iff run, if_neg (not_lt.2 nonneg)]
  exact congruent

end

theorem everything_contains (x : Int) : everything.Contains x :=
  Int.modEq_one

theorem gcd_ok {g : Int} (run : gcd x y = .ok g) : 0 ≤ g ∧ g ∣ x ∧ g ∣ y := by
  simp only [gcd, bind_ok, pure_ok] at run
  obtain ⟨_, -, _, -, rfl⟩ := run
  rw [zeroAwareGCD_eq]
  exact ⟨Int.natCast_nonneg _, Int.gcd_dvd_left x y, Int.gcd_dvd_right x y⟩

theorem union_sound (run : union a b = .ok entry) (either : a.Contains x ∨ b.Contains x) :
    entry.Contains x := by
  simp only [union, bind_ok] at run
  obtain ⟨coeff, divisor, run⟩ := run
  obtain ⟨nonneg, left, right⟩ := gcd_ok divisor
  split at run
  next zero =>
    rw [zero, zero_dvd_iff] at left right
    rw [pure_ok] at run
    split at run
    next same =>
      subst run
      simp only [Entry.Contains, left, right, ← same] at either ⊢
      exact either.elim id id
    · subst run
      exact everything_contains x
  · have remainder : x ≡ a.base.tmod coeff [ZMOD coeff] ∨ x ≡ b.base.tmod coeff [ZMOD coeff] :=
      either.imp (fun h => (h.of_dvd left).trans (tmod_modEq _ _).symm)
        (fun h => (h.of_dvd right).trans (tmod_modEq _ _).symm)
    split at run
    next same =>
      rw [same, or_self] at remainder
      rw [same] at run
      exact make_contains run nonneg remainder
    · simp only [bind_ok] at run
      obtain ⟨inner, first, outer, second, run⟩ := run
      obtain ⟨-, base0, base1⟩ := gcd_ok first
      obtain ⟨nonneg', within, divides⟩ := gcd_ok second
      refine make_contains run nonneg' ?_
      have zero0 := (within.trans base0).modEq_zero_int
      have zero1 := (within.trans base1).modEq_zero_int
      rcases remainder with h | h
      · exact h.of_dvd divides
      · exact (h.of_dvd divides).trans (zero1.trans zero0.symm)

theorem tdiv_gcd_mul (nonneg : 0 ≤ x) (nonneg' : 0 ≤ y) : x.tdiv (Int.gcd x y) * y = Int.lcm x y := by
  obtain ⟨m, factor⟩ := Int.gcd_dvd_left x y
  by_cases zero : Int.gcd x y = 0
  · simp [Int.gcd_eq_zero_iff.1 zero]
  · have positive : ((Int.gcd x y : Nat) : Int) ≠ 0 := by exact_mod_cast zero
    have quotient : x.tdiv (Int.gcd x y) = m := by
      nth_rewrite 1 [factor]
      exact Int.mul_tdiv_cancel_left m positive
    have product : ((Int.gcd x y : Nat) : Int) * Int.lcm x y = x * y := by
      rw [← Int.natCast_mul, Int.gcd_mul_lcm, ← Int.natAbs_mul,
        Int.natAbs_of_nonneg (mul_nonneg nonneg nonneg')]
    apply mul_left_cancel₀ positive
    rw [product, quotient, ← mul_assoc, ← factor]

theorem intersect_sound (run : intersect a b = .ok entry) (left : a.Contains x)
    (right : b.Contains x) : entry.Contains x := by
  obtain ⟨divisor, combination⟩ := extendedEuclidean_spec a.coeff b.nonneg
  simp only [intersect] at run
  generalize extendedEuclidean a.coeff b.coeff = result at run divisor combination
  obtain ⟨g, s, t⟩ := result
  dsimp only at run divisor combination
  have within : g ∣ b.base - a.base := by
    rw [divisor]
    exact ((left.symm.of_dvd (Int.gcd_dvd_left _ _)).trans (right.of_dvd (Int.gcd_dvd_right _ _))).dvd
  simp only [bind_ok] at run
  obtain ⟨_, -, v, difference, _, nonzero, run⟩ := run
  obtain ⟨-, rfl⟩ := int64_ok.1 difference
  rw [if_pos (Int.tmod_eq_zero_of_dvd within)] at run
  simp only [bind_ok, int64_ok] at run
  obtain ⟨_, ⟨-, rfl⟩, _, -, _, ⟨-, rfl⟩, _, ⟨-, rfl⟩, _, ⟨-, rfl⟩, run⟩ := run
  obtain ⟨k, multiple⟩ := within
  rw [ensure_ok, decide_eq_true_eq] at nonzero
  have quotient : (b.base - a.base).tdiv g = k := by
    rw [multiple, Int.mul_tdiv_cancel_left k nonzero]
  rw [quotient, divisor, tdiv_gcd_mul a.nonneg b.nonneg] at run
  refine make_contains run (Int.natCast_nonneg _) (Int.modEq_and_modEq_iff_modEq_lcm.1 ⟨?_, ?_⟩)
  · refine left.trans (Int.modEq_iff_dvd.2 ⟨k * s, ?_⟩)
    ring
  · refine right.trans (Int.modEq_iff_dvd.2 ⟨-(k * t), ?_⟩)
    linear_combination k * combination - multiple

theorem visitAdd_sound (run : visitAdd a b = .ok entry) (left : a.Contains x)
    (right : b.Contains y) : entry.Contains (x + y) := by
  simp only [visitAdd, bind_ok, int64_ok] at run
  obtain ⟨coeff, divisor, _, ⟨-, rfl⟩, run⟩ := run
  obtain ⟨nonneg, dvdA, dvdB⟩ := gcd_ok divisor
  exact make_contains run nonneg ((left.of_dvd dvdA).add (right.of_dvd dvdB))

theorem visitSub_sound (run : visitSub a b = .ok entry) (left : a.Contains x)
    (right : b.Contains y) : entry.Contains (x - y) := by
  simp only [visitSub, bind_ok, int64_ok] at run
  obtain ⟨coeff, divisor, _, ⟨-, rfl⟩, run⟩ := run
  obtain ⟨nonneg, dvdA, dvdB⟩ := gcd_ok divisor
  exact make_contains run nonneg ((left.of_dvd dvdA).sub (right.of_dvd dvdB))

theorem visitMul_sound (run : visitMul a b = .ok entry) (left : a.Contains x)
    (right : b.Contains y) : entry.Contains (x * y) := by
  simp only [visitMul, bind_ok, int64_ok] at run
  obtain ⟨_, ⟨-, rfl⟩, _, ⟨-, rfl⟩, _, ⟨-, rfl⟩, inner, first, coeff, second, _, ⟨-, rfl⟩, run⟩ :=
    run
  obtain ⟨-, pm, qn⟩ := gcd_ok first
  obtain ⟨nonneg, pq, rest⟩ := gcd_ok second
  refine make_contains run nonneg ?_
  obtain ⟨s, left⟩ := Int.modEq_iff_add_fac.1 left
  obtain ⟨t, right⟩ := Int.modEq_iff_add_fac.1 right
  rw [Int.modEq_iff_dvd]
  have expand : a.base * b.base - x * y =
      a.base * b.coeff * t + a.coeff * b.base * s - a.coeff * b.coeff * (s * t) := by
    rw [left, right]
    ring
  rw [expand]
  exact Int.dvd_sub (Int.dvd_add ((rest.trans qn).mul_right _) ((rest.trans pm).mul_right _)) (pq.mul_right _)

variable {proved roundDown : Bool} {val : Int}

theorem modByConst_sound (run : modByConst proved a val roundDown = .ok entry) (contains : a.Contains x)
    (congruent : y ≡ x [ZMOD val]) : entry.Contains y := by
  simp only [modByConst, bind_ok] at run
  obtain ⟨-, -, coeff, divisor, run⟩ := run
  obtain ⟨nonneg, dvdA, dvdVal⟩ := gcd_ok divisor
  split at run
  · refine make_contains run nonneg ?_
    exact ((congruent.of_dvd dvdVal).trans (contains.of_dvd dvdA)).trans (tmod_modEq _ _).symm
  · cases run
    exact everything_contains y

theorem divByConst_sound {divide : Int → Int → Int} (run : divByConst proved a val roundDown = .ok entry)
    (contains : a.Contains x) (exact : ∀ k, val ≠ 0 → divide (val * k) val = k)
    (rounds : (roundDown || proved) = true → 0 < val → divide x val = x.fdiv val) :
    entry.Contains (divide x val) := by
  simp only [divByConst, bind_ok, ensure_ok, decide_eq_true_eq] at run
  obtain ⟨-, nonzero, run⟩ := run
  split at run
  next multiple =>
    obtain ⟨m, multiple⟩ := Int.dvd_of_tmod_eq_zero multiple
    have quotient : a.coeff.tdiv val = m := by rw [multiple, Int.mul_tdiv_cancel_left m nonzero]
    obtain ⟨k, shape⟩ := Int.modEq_iff_add_fac.1 contains.symm
    rw [multiple] at shape
    split at run
    next zero =>
      rw [quotient] at run
      refine make_contains run (abs_nonneg m) ?_
      have whole : x = val * (m * k) := by rw [shape, zero]; ring
      rw [whole, exact _ nonzero, Int.modEq_abs]
      exact (dvd_mul_right m k).modEq_zero_int
    · split at run
      next signs =>
        obtain ⟨positive, above, rounded⟩ := signs
        rw [quotient] at run
        have nonneg : 0 ≤ m := by
          have := a.nonneg
          rw [multiple] at this
          exact nonneg_of_mul_nonneg_right this above
        refine make_contains run nonneg ?_
        have split : x.fdiv val = a.base.tdiv val + m * k := by
          rw [shape, Int.fdiv_eq_ediv_of_nonneg _ above.le, mul_assoc,
            Int.add_mul_ediv_left _ _ nonzero, Int.tdiv_eq_ediv_of_nonneg positive.le]
        rw [rounds rounded above, split]
        exact Int.modEq_add_fac_self
      · cases run
        exact everything_contains _
  · cases run
    exact everything_contains _

variable {amount : Int}

theorem shiftOne_ok (run : shiftOne amount = .ok val) :
    0 ≤ amount ∧ (val = 2 ^ amount.toNat ∨ val = -2 ^ 63 ∧ amount = 63) := by
  simp only [shiftOne, bind_ok, ensure_ok, decide_eq_true_eq, pure_ok] at run
  obtain ⟨-, range, rfl⟩ := run
  refine ⟨range.1, ?_⟩
  split
  next last => exact .inr ⟨rfl, last⟩
  · exact .inl rfl

theorem visitRightShift_sound (run : visitRightShift proved a amount = .ok entry)
    (contains : a.Contains x) : entry.Contains (x.fdiv (2 ^ amount.toNat)) := by
  simp only [visitRightShift, bind_ok] at run
  obtain ⟨val, shifted, run⟩ := run
  obtain ⟨-, rfl | ⟨rfl, rfl⟩⟩ := shiftOne_ok shifted
  · exact divByConst_sound run contains (fun k nonzero => Int.mul_fdiv_cancel_left k nonzero) fun _ _ => rfl
  · -- The shift by 63 is negative: only the coefficient 0 is a multiple of it.
    have nonneg := a.nonneg
    have small := a.coeff_lt
    simp only [divByConst, bind_ok] at run
    obtain ⟨-, -, run⟩ := run
    split at run
    next multiple =>
      have zero : a.coeff = 0 := by
        rw [Int.tmod_neg, Int.tmod_eq_of_lt nonneg small] at multiple
        exact multiple
      split at run
      next base =>
        rw [Entry.Contains, zero, base, Int.modEq_zero_iff] at contains
        refine make_contains run (abs_nonneg _) ?_
        rw [contains, Int.zero_fdiv]
      · rw [if_neg (by simp)] at run
        cases run
        exact everything_contains _
    · cases run
      exact everything_contains _

theorem land_modEq {m : Int} (n : Nat) (ones : m ≡ -1 [ZMOD 2 ^ n]) (x : Int) :
    Int.land x m ≡ x [ZMOD 2 ^ n] := by
  induction n generalizing m x with
  | zero => exact Int.modEq_one
  | succ n ih =>
    have decomposed := Int.bodd_add_div2 m
    have ends : (2 : Int) ∣ -1 - m := (Dvd.intro_left _ (pow_succ 2 n).symm).trans ones.dvd
    cases odd : m.bodd with
    | false =>
      simp only [odd, cond_false] at decomposed
      omega
    | true =>
      simp only [odd, cond_true] at decomposed
      have rest : m.div2 ≡ -1 [ZMOD 2 ^ n] := by
        obtain ⟨k, multiple⟩ := ones.dvd
        refine Int.modEq_iff_dvd.2 ⟨k, ?_⟩
        rw [pow_succ] at multiple
        linarith
      have bits : Int.land x m = 2 * Int.land x.div2 m.div2 + cond x.bodd 1 0 := by
        nth_rewrite 1 [← Int.bit_decomp x, ← Int.bit_decomp m]
        rw [Int.land_bit, odd, Bool.and_true, Int.bit_val]
      have shape : 2 * x.div2 + cond x.bodd 1 0 = x := by rw [← Int.bit_val, Int.bit_decomp]
      rw [bits, pow_succ']
      nth_rewrite 3 [← shape]
      exact (ih rest x.div2).mul_left'.add_right _

variable {shift n : Nat}

theorem powerLoop_ok {fuel val : Nat} (run : powerLoop fuel val shift = some n) : val * 2 ^ shift = 2 ^ n := by
  induction fuel generalizing val shift with
  | zero => simp [powerLoop] at run
  | succ fuel ih =>
    unfold powerLoop at run
    split at run
    · split at run
      next one =>
        cases run
        rw [one, one_mul]
      · cases run
    next even =>
      have half : val = val / 2 * 2 := by omega
      rw [half, mul_assoc, ← pow_succ']
      exact ih run

theorem maskWidth_ok (run : maskWidth base = .ok (some n)) : base ≡ -1 [ZMOD 2 ^ n] := by
  simp only [maskWidth, bind_ok, int64_ok, pure_ok] at run
  obtain ⟨_, ⟨-, rfl⟩, power⟩ := run
  unfold constPowerOfTwo at power
  split at power
  · cases power
  next positive =>
    have value := powerLoop_ok power
    have exact : (base + 1).bmod (2 ^ 32) = 2 ^ n := by
      have cast : ((2 ^ n : Nat) : Int) = 2 ^ n := Int.natCast_pow 2 n
      omega
    have small : n ≤ 32 := by
      have below : (base + 1).bmod (2 ^ 32) < (2 ^ 32 + 1) / 2 := Int.bmod_lt (by decide)
      have power : 2 ^ n < 2 ^ 32 := by omega
      exact ((Nat.pow_lt_pow_iff_right (by decide)).1 power).le
    have wrapped : (base + 1).bmod (2 ^ 32) ≡ base + 1 [ZMOD (2 ^ 32 : Nat)] := Int.bmod_emod
    rw [exact] at wrapped
    have narrow : (2 : Int) ^ n ≡ base + 1 [ZMOD 2 ^ n] := by
      refine wrapped.of_dvd ?_
      exact pow_dvd_pow 2 small
    have zero : base + 1 ≡ 0 [ZMOD 2 ^ n] := narrow.symm.trans Int.modulus_modEq_zero
    simpa using zero.sub_right 1

theorem visitBitwiseAnd_sound (run : visitBitwiseAnd proved a shift = .ok entry) (contains : a.Contains x)
    (ones : y ≡ -1 [ZMOD 2 ^ shift]) : entry.Contains (Int.land x y) := by
  simp only [visitBitwiseAnd, bind_ok] at run
  obtain ⟨val, shifted, run⟩ := run
  have congruent := land_modEq shift ones x
  refine modByConst_sound run contains ?_
  obtain ⟨-, rfl | ⟨rfl, last⟩⟩ := shiftOne_ok shifted
  · simpa using congruent
  · have width : shift = 63 := by exact_mod_cast last
    rw [width] at congruent
    exact Int.modEq_neg.2 congruent

theorem const_eq (const : b.isConst = true) (contains : b.Contains y) : y = b.base := by
  simp only [Entry.isConst, decide_eq_true_eq] at const
  rwa [Entry.Contains, const, Int.modEq_zero_iff] at contains

end

def State.Holds (state : State) (env : Env) : Prop :=
  ∀ v entry, state v = some entry → entry.Contains (env.var v)

def Answers (proves : PrimExpr → Bool) : Env → PrimExpr → Prop :=
  PrimExpr.Everywhere fun env e => proves e = true → 0 ≤ e.value env

-- A variable of a visited `Let` has no entry, or one that contains the value.
def State.Scoped (proves : PrimExpr → Bool) (state : State) (env : Env) : PrimExpr → Prop
  | .binary op a b =>
    op.isLogical = true ∨ (Scoped proves state env a ∧ Scoped proves state env b)
  | .select _ trueValue falseValue =>
    Scoped proves state env trueValue ∧ Scoped proves state env falseValue
  | .letIn v value body =>
    match state v with
    | some entry =>
      entry.Contains (value.value env) ∧ Scoped proves state (env.set v (value.value env)) body
    | none =>
      Scoped proves state env value ∧ ∀ entry, state.visitExpr proves value = .ok entry →
        Scoped proves (Function.update state v (some entry)) (env.set v (value.value env)) body
  | .cast _ value => Scoped proves state env value
  | _ => True

section

variable {proves : PrimExpr → Bool} {state : State} {env : Env} {v : Var}

theorem State.Holds.set {x : Int} (holds : state.Holds env)
    (contains : ∀ entry, state v = some entry → entry.Contains x) : state.Holds (env.set v x) := by
  intro w entry found
  by_cases same : w = v
  · subst same
    simpa [Env.set] using contains entry found
  · simpa [Env.set, same] using holds w entry found

theorem State.Holds.update {entry : Entry} {x : Int} (holds : state.Holds env)
    (contains : entry.Contains x) : State.Holds (Function.update state v (some entry)) (env.set v x) := by
  intro w other found
  by_cases same : w = v
  · subst same
    rw [Function.update_self, Option.some.injEq] at found
    simpa [Env.set, ← found] using contains
  · rw [Function.update_of_ne same] at found
    simpa [Env.set, same] using holds w other found

-- The operators that look at the first operand only if the second one is a constant.
theorem onlyConst {visitA visitB : Except Fault Entry} (apply : Entry → Int → Except Fault Entry)
    {entry : Entry} {y z : Int}
    (run : (do
      let entryB ← visitB
      if entryB.isConst then apply (← visitA) entryB.base else return everything) = .ok entry)
    (right : ∀ entryB, visitB = .ok entryB → entryB.Contains y)
    (sound : ∀ entryA, visitA = .ok entryA → apply entryA y = .ok entry → entry.Contains z) :
    entry.Contains z := by
  obtain ⟨entryB, runB, run⟩ := bind_ok.1 run
  split at run
  next const =>
    obtain ⟨entryA, runA, run⟩ := bind_ok.1 run
    rw [← const_eq const (right entryB runB)] at run
    exact sound entryA runA run
  · cases run
    exact everything_contains z

theorem visitBinary_contains {op : BinOp} {a b : PrimExpr} {entry : Entry} (arithmetic : ¬op.isLogical = true)
    (left : ∀ entryA, state.visitExpr proves a = .ok entryA → entryA.Contains (a.value env))
    (right : ∀ entryB, state.visitExpr proves b = .ok entryB → entryB.Contains (b.value env))
    (nonneg : proves a = true → 0 ≤ a.value env) (run : state.visitExpr proves (.binary op a b) = .ok entry) :
    entry.Contains (op.apply (a.value env) (b.value env)) := by
  cases op with
  | eq | ne | lt | le | gt | ge | and | or => simp [BinOp.isLogical] at arithmetic
  | add =>
    simp only [State.visitExpr, bind_ok] at run
    obtain ⟨entryA, runA, entryB, runB, run⟩ := run
    exact visitAdd_sound run (left entryA runA) (right entryB runB)
  | sub =>
    simp only [State.visitExpr, bind_ok] at run
    obtain ⟨entryA, runA, entryB, runB, run⟩ := run
    exact visitSub_sound run (left entryA runA) (right entryB runB)
  | mul =>
    simp only [State.visitExpr, bind_ok] at run
    obtain ⟨entryA, runA, entryB, runB, run⟩ := run
    exact visitMul_sound run (left entryA runA) (right entryB runB)
  | min =>
    simp only [State.visitExpr, bind_ok] at run
    obtain ⟨entryA, runA, entryB, runB, run⟩ := run
    refine union_sound run ?_
    simp only [BinOp.apply]
    rcases min_choice (a.value env) (b.value env) with least | least <;> rw [least]
    · exact .inl (left entryA runA)
    · exact .inr (right entryB runB)
  | max =>
    simp only [State.visitExpr, bind_ok] at run
    obtain ⟨entryA, runA, entryB, runB, run⟩ := run
    refine union_sound run ?_
    simp only [BinOp.apply]
    rcases max_choice (a.value env) (b.value env) with greatest | greatest <;> rw [greatest]
    · exact .inl (left entryA runA)
    · exact .inr (right entryB runB)
  | div =>
    refine onlyConst (divByConst (proves a) · · false) run right fun entryA runA run => ?_
    exact divByConst_sound run (left entryA runA) (fun k nonzero => Int.mul_tdiv_cancel_left k nonzero)
      fun proved positive => Division.tdiv_eq_fdiv (nonneg (by simpa using proved)) positive
  | floorDiv =>
    refine onlyConst (divByConst (proves a) · · true) run right fun entryA runA run => ?_
    exact divByConst_sound run (left entryA runA)
      (fun k nonzero => Int.mul_fdiv_cancel_left k nonzero) fun _ _ => rfl
  | mod =>
    refine onlyConst (modByConst (proves a) · · false) run right fun entryA runA run => ?_
    exact modByConst_sound run (left entryA runA) (tmod_modEq _ _)
  | floorMod =>
    refine onlyConst (modByConst (proves a) · · true) run right fun entryA runA run => ?_
    exact modByConst_sound run (left entryA runA) (fmod_modEq _ _)
  | shiftLeft =>
    cases run
    exact everything_contains _
  | shiftRight =>
    refine onlyConst (visitRightShift (proves a)) run right fun entryA runA run => ?_
    exact visitRightShift_sound run (left entryA runA)
  | bitwiseAnd =>
    obtain ⟨entryB, runB, run⟩ := bind_ok.1 run
    split at run
    next const =>
      obtain ⟨width, masked, run⟩ := bind_ok.1 run
      cases width with
      | none =>
        cases run
        exact everything_contains _
      | some shift =>
        obtain ⟨entryA, runA, run⟩ := bind_ok.1 run
        refine visitBitwiseAnd_sound run (left entryA runA) ?_
        rw [const_eq const (right entryB runB)]
        exact maskWidth_ok masked
    · cases run
      exact everything_contains _

theorem visitExpr_contains {e : PrimExpr} {entry : Entry} (holds : state.Holds env)
    (answers : Answers proves env e) (scope : state.Scoped proves env e)
    (run : state.visitExpr proves e = .ok entry) : entry.Contains (e.value env) := by
  induction e generalizing state env entry with
  | var v =>
    cases run
    cases found : state v with
    | none => exact everything_contains _
    | some known => exact holds v known found
  | intImm dtype value => exact make_contains run le_rfl Int.ModEq.rfl
  | binary op a b iha ihb =>
    by_cases logical : op.isLogical = true
    · have all : entry = everything := by cases op <;> simp_all [State.visitExpr, BinOp.isLogical]
      subst all
      exact everything_contains _
    · obtain ⟨scopeA, scopeB⟩ := scope.resolve_left logical
      exact visitBinary_contains logical (fun _ => iha holds answers.2.1 scopeA)
        (fun _ => ihb holds answers.2.2 scopeB) answers.2.1.here run
  | not a ih =>
    cases run
    exact everything_contains _
  | select condition trueValue falseValue ihc iht ihf =>
    simp only [State.visitExpr, bind_ok] at run
    obtain ⟨entryA, runA, entryB, runB, run⟩ := run
    refine union_sound run ?_
    simp only [PrimExpr.value]
    split
    · exact .inl (iht holds answers.2.2.1 scope.1 runA)
    · exact .inr (ihf holds answers.2.2.2 scope.2 runB)
  | letIn v value body ihv ihb =>
    simp only [State.visitExpr] at run
    simp only [State.Scoped] at scope
    cases found : state v with
    | some known =>
      rw [found] at run scope
      refine ihb (holds.set fun entry same => ?_) answers.2.2 scope.2 run
      rw [found, Option.some.injEq] at same
      exact same ▸ scope.1
    | none =>
      rw [found] at run scope
      obtain ⟨entryV, runV, run⟩ := bind_ok.1 run
      have contains := ihv holds answers.2.1 scope.1 runV
      exact ihb (holds.update contains) answers.2.2 (scope.2 entryV runV) run
  | cast dtype value ih => exact ih holds answers.2 scope run
  | atom dtype id =>
    cases run
    exact everything_contains _

end

def Fact.Admits (fact : Fact) (x : Int) : Prop :=
  x ≡ fact.base [ZMOD fact.coeff]

def Fact.Plain (fact : Fact) : Prop :=
  0 ≤ fact.coeff ∨ fact.coeff ∣ 2 * fact.base

variable {fact : Fact}

theorem make_fact {entry : Entry} {x : Int} (plain : fact.Plain)
    (run : Entry.make fact.coeff fact.base = .ok entry) (admits : fact.Admits x) : entry.Contains x := by
  rw [contains_iff run]
  split
  next negative =>
    refine Int.ModEq.trans admits (Int.modEq_iff_dvd.2 ?_)
    have twice : -fact.base - fact.base = -(2 * fact.base) := by ring
    rw [twice, Int.dvd_neg]
    exact plain.resolve_left (not_le.2 negative)
  · exact admits

theorem matchConstraint_admits {constraint : PrimExpr} {env : Env}
    (found : matchConstraint constraint = some fact) (holds : constraint.value env ≠ 0) :
    fact.Admits (env.var fact.var) := by
  unfold matchConstraint at found
  split at found <;> cases found <;> simp only [PrimExpr.value, BinOp.apply_eq_holds] at holds
  case h_1 =>
    rw [Fact.Admits, ← holds]
    exact (tmod_modEq _ _).symm
  case h_2 =>
    rw [Fact.Admits, ← holds]
    exact (fmod_modEq _ _).symm
  case h_3 | h_4 => exact Int.modEq_one

structure Frame where
  constraint : PrimExpr
  recovery : Recovery

-- The states that `Update`, `EnterConstraint` and the recovery functions lead to, with the scopes that
-- are open and the facts that have been given.
inductive Reachable : State → List Frame → List Fact → Prop
  | init : Reachable (fun _ => none) [] []
  | update {state state' : State} {frames : List Frame} {facts : List Fact} {fact : Fact}
    {allowOverride : Bool} (reached : Reachable state frames facts) (plain : fact.Plain)
    (run : state.update fact.var fact.coeff fact.base allowOverride = .ok state') :
    Reachable state' frames (fact :: facts)
  | enter {state inner : State} {frames : List Frame} {facts : List Fact} {constraint : PrimExpr}
    {recovery : Recovery} (reached : Reachable state frames facts)
    (plain : ∀ fact, matchConstraint constraint = some fact → fact.Plain)
    (run : state.enterConstraint constraint = .ok (inner, some recovery)) :
    Reachable inner (⟨constraint, recovery⟩ :: frames) facts
  | leave {state : State} {frame : Frame} {frames : List Frame} {facts : List Fact}
    (reached : Reachable state (frame :: frames) facts) :
    Reachable (frame.recovery.run state) frames facts

def Allowed (frames : List Frame) (facts : List Fact) (v : Var) (x : Int) : Prop :=
  (∀ fact ∈ facts, fact.var = v → fact.Admits x) ∧
    ∀ frame ∈ frames, ∀ fact, matchConstraint frame.constraint = some fact → fact.var = v →
      fact.Admits x

-- Every entry contains what is allowed, also the entries that the open scopes will write back.
structure Valid (state : State) (frames : List Frame) (facts : List Fact) : Prop where
  entry : ∀ v entry, state v = some entry → ∀ x, Allowed frames facts v x → entry.Contains x
  old : ∀ frame rest, frame :: rest <:+ frames → ∀ x, Allowed rest facts frame.recovery.var x →
    frame.recovery.old.Contains x
  target : ∀ frame ∈ frames, ∀ fact, matchConstraint frame.constraint = some fact →
    fact.var = frame.recovery.var

section

variable {state state' : State} {frames : List Frame} {facts : List Fact}

theorem Valid.known (valid : Valid state frames facts) {v : Var} {x : Int}
    (allowed : Allowed frames facts v x) : ((state v).getD everything).Contains x := by
  cases found : state v with
  | none => exact everything_contains x
  | some entry => exact valid.entry v entry found x allowed

theorem Valid.update {fact : Fact} {allowOverride : Bool} (valid : Valid state frames facts)
    (plain : fact.Plain) (run : state.update fact.var fact.coeff fact.base allowOverride = .ok state') :
    Valid state' frames (fact :: facts) := by
  simp only [State.update, bind_ok, pure_ok] at run
  obtain ⟨-, -, known, made, rfl⟩ := run
  have weaken : ∀ {rest v x}, Allowed rest (fact :: facts) v x → Allowed rest facts v x :=
    fun allowed => ⟨fun other mem => allowed.1 other (List.mem_cons_of_mem _ mem), allowed.2⟩
  constructor
  case entry =>
    intro v entry found x allowed
    by_cases same : v = fact.var
    · subst same
      rw [Function.update_self, Option.some.injEq] at found
      subst found
      exact make_fact plain made (allowed.1 fact List.mem_cons_self rfl)
    · rw [Function.update_of_ne same] at found
      exact valid.entry v entry found x (weaken allowed)
  case old =>
    intro frame rest inner x allowed
    exact valid.old frame rest inner x (weaken allowed)
  case target => exact valid.target

theorem Valid.enter {constraint : PrimExpr} {recovery : Recovery} (valid : Valid state frames facts)
    (plain : ∀ fact, matchConstraint constraint = some fact → fact.Plain)
    (run : state.enterConstraint constraint = .ok (state', some recovery)) :
    Valid state' (⟨constraint, recovery⟩ :: frames) facts := by
  rcases enterConstraint_cases run with
    ⟨-, -, none⟩ | ⟨fact, known, entry, found, made, common, rfl, captured⟩
  · cases none
  · cases captured
    have weaken : ∀ {frame v x}, Allowed (frame :: frames) facts v x → Allowed frames facts v x :=
      fun allowed => ⟨allowed.1, fun other mem => allowed.2 other (List.mem_cons_of_mem _ mem)⟩
    constructor
    case entry =>
      intro v other hit x allowed
      by_cases same : v = fact.var
      · subst same
        rw [Function.update_self, Option.some.injEq] at hit
        subst hit
        refine intersect_sound common (valid.known (weaken allowed)) (make_fact (plain fact found) made ?_)
        exact allowed.2 _ List.mem_cons_self fact found rfl
      · rw [Function.update_of_ne same] at hit
        exact valid.entry v other hit x (weaken allowed)
    case old =>
      intro frame rest inner x allowed
      rcases List.suffix_cons_iff.1 inner with same | inner
      · obtain ⟨rfl, rfl⟩ := same
        exact valid.known allowed
      · exact valid.old frame rest inner x allowed
    case target =>
      intro frame mem other hit
      rcases List.mem_cons.1 mem with rfl | mem
      · rw [found, Option.some.injEq] at hit
        rw [← hit]
      · exact valid.target frame mem other hit

theorem Valid.leave {frame : Frame} (valid : Valid state (frame :: frames) facts) :
    Valid (frame.recovery.run state) frames facts := by
  constructor
  case entry =>
    intro v entry found x allowed
    by_cases same : v = frame.recovery.var
    · subst same
      rw [Recovery.run, Function.update_self, Option.some.injEq] at found
      subst found
      exact valid.old frame frames List.suffix_rfl x allowed
    · rw [Recovery.run, Function.update_of_ne same] at found
      refine valid.entry v entry found x ⟨allowed.1, fun other mem fact hit target => ?_⟩
      rcases List.mem_cons.1 mem with rfl | mem
      · -- The scope that is left was about another variable.
        exact absurd (target.symm.trans (valid.target other List.mem_cons_self fact hit)) same
      · exact allowed.2 other mem fact hit target
  case old =>
    intro other rest inner x allowed
    exact valid.old other rest (inner.trans (List.suffix_cons _ _)) x allowed
  case target => exact fun other mem => valid.target other (List.mem_cons_of_mem _ mem)

theorem Reachable.valid (reached : Reachable state frames facts) : Valid state frames facts := by
  induction reached with
  | init => exact ⟨by simp, by simp, by simp⟩
  | update reached plain run valid => exact valid.update plain run
  | enter reached plain run valid => exact valid.enter plain run
  | leave reached valid => exact valid.leave

end

theorem visitExpr_congruent {proves : PrimExpr → Bool} {state : State} {frames : List Frame}
    {facts : List Fact} {env : Env} {e : PrimExpr} {entry : Entry}
    (reached : Reachable state frames facts)
    (given : ∀ fact ∈ facts, fact.Admits (env.var fact.var))
    (active : ∀ frame ∈ frames, frame.constraint.value env ≠ 0) (answers : Answers proves env e)
    (scope : state.Scoped proves env e) (run : state.visitExpr proves e = .ok entry) :
    e.value env ≡ entry.base [ZMOD entry.coeff] := by
  refine visitExpr_contains (fun v known found => ?_) answers scope run
  refine reached.valid.entry v known found _ ⟨?_, ?_⟩
  · rintro fact mem rfl
    exact given fact mem
  · rintro frame mem fact hit rfl
    exact matchConstraint_admits hit (active frame mem)

theorem visitExpr_congruent_odd :
    let x : Var := ⟨0, .int32, false⟩
    let y : Var := ⟨1, .int32, false⟩
    let env : Env := ⟨fun v => if v = x then 5 else 11, fun _ => 0⟩
    let e : PrimExpr := .binary .add (.binary .mul (.var x) (.intImm .int32 2)) (.var y)
    e.value env ≡ 1 [ZMOD 2] := by
  intro x y env e
  let first : State := Function.update (fun _ => none) x (some ⟨4, 1, by decide, by decide, by decide⟩)
  let second : State := Function.update first y (some ⟨6, 5, by decide, by decide, by decide⟩)
  let constraint : PrimExpr :=
    .binary .eq (.binary .floorMod (.var y) (.intImm .int32 6)) (.intImm .int32 5)
  have updated : State.update (fun _ => none) x 4 1 false = .ok first := rfl
  have entered : first.enterConstraint constraint = .ok (second, some ⟨y, everything⟩) := rfl
  have visited : second.visitExpr (fun _ => false) e =
      .ok ⟨2, 1, by decide, by decide, by decide⟩ := by decide +kernel
  have reached : Reachable second [⟨constraint, ⟨y, everything⟩⟩] [⟨x, 4, 1⟩] := by
    refine .enter (.update .init (.inl (by decide)) updated) (fun fact found => ?_) entered
    cases found
    exact .inl (by decide)
  have answers : Answers (fun _ => false) env e := by simp [e, Answers, PrimExpr.Everywhere]
  have scope : second.Scoped (fun _ => false) env e :=
    .inr ⟨.inr ⟨trivial, trivial⟩, trivial⟩
  exact visitExpr_congruent reached (by simp [Fact.Admits]; decide) (by simp; decide) answers scope visited

-- `floormod(x, -3) == -1` holds for 2, and the entry says that the variable is 1 modulo 3.
theorem negative_modulus_missed :
    let x : Var := ⟨0, .int32, false⟩
    let env : Env := ⟨fun _ => 2, fun _ => 0⟩
    let constraint : PrimExpr :=
      .binary .eq (.binary .floorMod (.var x) (.intImm .int32 (-3))) (.intImm .int32 (-1))
    ∃ state recovery entry, State.enterConstraint (fun _ => none) constraint = .ok (state, recovery) ∧
      constraint.value env ≠ 0 ∧ state.visitExpr (fun _ => false) (.var x) = .ok entry ∧
      (entry.coeff, entry.base) = (3, 1) ∧ ¬env.var x ≡ 1 [ZMOD 3] := by
  intro x env constraint
  let entry : Entry := ⟨3, 1, by decide, by decide, by decide⟩
  exact ⟨Function.update (fun _ => none) x (some entry), some ⟨x, everything⟩, entry, rfl,
    by decide, by decide +kernel, rfl, by decide⟩

end Tlm.Arith.ModularSet
