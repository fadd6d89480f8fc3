import Tlm.Arith.ConstIntBoundOps

set_option autoImplicit false

namespace Tlm.Arith.ConstIntBound

open Cpp

structure Entry.Stored (entry : Entry) : Prop where
  min : Word entry.minValue
  max : Word entry.maxValue

-- `InfAwareAdd` has no sum for these.
def Opposite (x y : Int) : Prop :=
  x = kPosInf ∧ y = kNegInf ∨ x = kNegInf ∧ y = kPosInf

instance (x y : Int) : Decidable (Opposite x y) :=
  inferInstanceAs (Decidable (_ ∨ _))

variable {value : Int}

theorem Word.int64 (word : Word value) : int64 value = .ok value :=
  int64_ok.2 ⟨word, rfl⟩

theorem word_neg (word : Word value) : Word (-value) ↔ value ≠ -2 ^ 63 := by
  simp only [Word] at word ⊢
  omega

variable {x y : Int}

theorem infAwareAdd_total (wordX : Word x) (wordY : Word y) (apart : ¬Opposite x y) :
    ∃ z, infAwareAdd x y = .ok z ∧ Word z := by
  have limits := kInf_eq
  suffices total : ∃ z, infAwareAdd x y = .ok z by
    obtain ⟨z, run⟩ := total
    exact ⟨z, run, infAwareAdd_range run wordY⟩
  simp only [Opposite, not_or, not_and] at apart
  unfold infAwareAdd
  split
  next infinite => exact ⟨kPosInf, by simp [apart.1 infinite]⟩
  · split
    next infinite => exact ⟨kNegInf, by simp [apart.2 infinite]⟩
    · split
      · exact ⟨y, rfl⟩
      · split
        · exact ⟨_, rfl⟩
        next fits =>
          simp only [willOverflowAdd, decide_eq_true_eq] at fits
          have word : Word (x + y) := by
            simp only [Word] at wordX wordY ⊢
            omega
          exact ⟨x + y, word.int64⟩

theorem not_opposite {z : Int} (run : infAwareAdd x y = .ok z) : ¬Opposite x y := by
  rintro (⟨rfl, rfl⟩ | ⟨rfl, rfl⟩)
  · exact absurd run (by simp [infAwareAdd])
  · exact absurd run (by simp [infAwareAdd, kNegInf, kPosInf])

-- The one quotient that overflows.
def Overflowing (x y : Int) : Prop :=
  x = -2 ^ 63 ∧ y = -1

instance (x y : Int) : Decidable (Overflowing x y) :=
  inferInstanceAs (Decidable (_ ∧ _))

theorem tdiv_half (one : y ≠ 1) (minus : y ≠ -1) : (x.tdiv y).natAbs ≤ x.natAbs / 2 := by
  rw [show (x.tdiv y).natAbs = x.natAbs / y.natAbs from Int.natAbs_tdiv x y]
  rcases Nat.eq_zero_or_pos y.natAbs with zero | positive
  · rw [zero, Nat.div_zero]
    exact Nat.zero_le _
  · exact Nat.div_le_div_left (by omega) (by decide)

theorem word_divide (word : Word x) (fits : ¬Overflowing x y) : Word (x.tdiv y) ∧ Word (floordiv x y) := by
  by_cases one : y = 1
  · subst one
    simpa [floordiv, isFloorDiv] using word
  · simp only [Word, Overflowing] at word fits
    by_cases minus : y = -1
    · subst minus
      simp only [floordiv, isFloorDiv, Int.tdiv_neg, Int.tdiv_one, Int.tmod_neg, Int.tmod_one, Word]
      refine ⟨by omega, ?_⟩
      simp only [Int.reduceNeg, le_refl, and_true, Int.reduceLT, or_true, decide_true, if_true]
      omega
    · have half := tdiv_half (x := x) one minus
      simp only [Word, floordiv]
      refine ⟨by omega, ?_⟩
      split <;> omega

theorem infAwareDivide_total {divide : Int → Int → Int}
    (stored : ∀ {x y}, Word x → ¬Overflowing x y → Word (divide x y))
    (word : Word x) (nonzero : y ≠ 0) (fits : ¬Overflowing x y) :
    ∃ z, infAwareDivide divide x y = .ok z ∧ Word z := by
  have limits := kInf_eq
  unfold infAwareDivide
  simp only [ne_eq, nonzero]
  split
  next infinite =>
    refine ⟨_, rfl, ?_⟩
    split
    · exact word
    · exact (word_neg word).2 (by omega)
  · rw [(word_divide word fits).1.int64, ok_bind]
    exact ⟨_, (stored word fits).int64, stored word fits⟩

theorem not_overflowing {divide : Int → Int → Int} {z : Int} (run : infAwareDivide divide x y = .ok z) :
    ¬Overflowing x y := by
  rintro ⟨rfl, rfl⟩
  simp only [infAwareDivide, bind_ok] at run
  obtain ⟨-, -, run⟩ := run
  rw [if_neg (by decide), bind_ok] at run
  obtain ⟨_, overflow, -⟩ := run
  cases overflow

section

variable {dtype : DataType} {a b : Entry}

theorem makeBound_stored {low high : Int} (left : Word low) (right : Word high) : (makeBound low high).Stored := by
  have limits := kInf_eq
  simp only [Word] at left right
  constructor <;> simp only [makeBound, Word] <;> split <;> omega

theorem everything_stored : (everything dtype).Stored := by
  have limits := kInf_eq
  unfold everything
  split
  · exact makeBound_stored (by decide) (by decide)
  · generalize dtype.bits - (if dtype.isInt = true then 1 else 0) = vbits
    by_cases narrow : 63 ≤ vbits
    · constructor <;> dsimp only [Word]
      · split <;> omega
      · omega
    · have := narrow_power narrow
      constructor <;> dsimp only [Word]
      · split <;> omega
      · omega

theorem Entry.Stored.intersect (left : a.Stored) (right : b.Stored) : (intersect a b).Stored :=
  ⟨left.min.max right.min, left.max.min right.max⟩

theorem Entry.Stored.union (left : a.Stored) (right : b.Stored) : (union a b).Stored :=
  ⟨left.min.min right.min, left.max.max right.max⟩

theorem binaryOpBoundary_total {op : Int → Int → Except Fault Int}
    (total : ∀ {x y}, a.Corner x → b.Corner y → ∃ z, op x y = .ok z ∧ Word z) :
    ∃ entry, binaryOpBoundary op a b = .ok entry ∧ entry.Stored := by
  obtain ⟨v1, first, range1⟩ := total (.inl rfl) (.inl rfl)
  obtain ⟨v2, second, range2⟩ := total (.inr rfl) (.inr rfl)
  obtain ⟨v3, third, range3⟩ := total (.inl rfl) (.inr rfl)
  obtain ⟨v4, fourth, range4⟩ := total (.inr rfl) (.inl rfl)
  simp only [binaryOpBoundary, first, second, third, fourth]
  exact ⟨_, rfl, ((range1.min range2).min range3).min range4, ((range1.max range2).max range3).max range4⟩

end

-- What the bounds of the operands must be like for the step of the operator.
def Adequate (a b : Entry) : BinOp → Prop
  | .add => ¬Opposite a.minValue b.minValue ∧ ¬Opposite a.maxValue b.maxValue
  | .sub => b.maxValue ≠ -2 ^ 63 ∧ b.minValue ≠ -2 ^ 63 ∧ ¬Opposite a.minValue (-b.maxValue) ∧
      ¬Opposite a.maxValue (-b.minValue)
  | .div | .floorDiv => ∀ x y, a.Corner x → b.Corner y → ¬Overflowing x y
  | _ => True

section

variable {dtype : DataType} {a b : Entry}

theorem visitAdd_total (storedA : a.Stored) (storedB : b.Stored) (adequate : Adequate a b .add) :
    ∃ entry, visitAdd dtype a b = .ok entry ∧ entry.Stored := by
  obtain ⟨low, lower, lowRange⟩ := infAwareAdd_total storedA.min storedB.min adequate.1
  obtain ⟨high, upper, highRange⟩ := infAwareAdd_total storedA.max storedB.max adequate.2
  simp only [visitAdd, lower, upper]
  exact ⟨_, rfl, lowRange, highRange⟩

theorem visitSub_total (storedA : a.Stored) (storedB : b.Stored) (adequate : Adequate a b .sub) :
    ∃ entry, visitSub dtype a b = .ok entry ∧ entry.Stored := by
  obtain ⟨most, least, apart, apart'⟩ := adequate
  have negMax := (word_neg storedB.max).2 most
  have negMin := (word_neg storedB.min).2 least
  obtain ⟨low, lower, lowRange⟩ := infAwareAdd_total storedA.min negMax apart
  obtain ⟨high, upper, highRange⟩ := infAwareAdd_total storedA.max negMin apart'
  simp only [visitSub, neg, negMax.int64, negMin.int64, lower, upper, ok_bind]
  exact ⟨_, rfl, lowRange, highRange⟩

theorem visitMul_total : ∃ entry, visitMul dtype a b = .ok entry ∧ entry.Stored :=
  binaryOpBoundary_total fun _ _ => ⟨_, infAwareMul_eq _ _, clamp_word _⟩

def Entry.Signed (entry : Entry) : Prop :=
  (0 < entry.minValue ∧ 0 < entry.maxValue) ∨ (entry.minValue < 0 ∧ entry.maxValue < 0)

variable {c : Int}

theorem makeBound_signed (nonzero : c ≠ 0) : (makeBound c c).Signed := by
  have limits := kInf_eq
  simp only [Entry.Signed, makeBound]
  split <;> split <;> omega

theorem Entry.Signed.not_zero (signed : b.Signed) : b.isConst 0 = false := by
  simp only [Entry.Signed] at signed
  simp only [Entry.isConst, decide_eq_false_iff_not]
  omega

theorem Entry.Signed.handleDivision (signed : b.Signed) (op : Int → Int → Except Fault Int) :
    handleDivision op dtype a b = binaryOpBoundary op a b := by
  simp only [Entry.Signed] at signed
  rw [ConstIntBound.handleDivision, if_neg (by omega), if_neg (by omega)]

theorem divide_total {divide : Int → Int → Int}
    (stored : ∀ {x y}, Word x → ¬Overflowing x y → Word (divide x y)) (storedA : a.Stored) (signed : b.Signed)
    (fits : ∀ x y, a.Corner x → b.Corner y → ¬Overflowing x y) :
    ∃ entry, binaryOpBoundary (infAwareDivide divide) a b = .ok entry ∧ entry.Stored := by
  refine binaryOpBoundary_total fun {x y} corner divisor => ?_
  have nonzero : y ≠ 0 := by
    simp only [Entry.Signed, Entry.Corner] at signed divisor
    omega
  refine infAwareDivide_total stored ?_ nonzero (fits x y corner divisor)
  rcases corner with rfl | rfl
  · exact storedA.min
  · exact storedA.max

theorem visitDiv_total (storedA : a.Stored) (signed : b.Signed) (adequate : Adequate a b .div) :
    ∃ entry, visitDiv dtype a b = .ok entry ∧ entry.Stored := by
  simp only [visitDiv, signed.not_zero, signed.handleDivision]
  exact divide_total (fun word fits => (word_divide word fits).1) storedA signed adequate

theorem visitFloorDiv_total (storedA : a.Stored) (signed : b.Signed) (adequate : Adequate a b .floorDiv) :
    ∃ entry, visitFloorDiv dtype a b = .ok entry ∧ entry.Stored := by
  simp only [visitFloorDiv, signed.not_zero, signed.handleDivision]
  exact divide_total (fun word fits => (word_divide word fits).2) storedA signed adequate

-- The step fails in no other case.
theorem adequate_of_visit {op : BinOp} {visit : DataType → Entry → Entry → Except Fault Entry} {entry : Entry}
    (found : visitor op = some visit) (signed : op.isDivision = true → b.Signed)
    (run : visit dtype a b = .ok entry) : Adequate a b op := by
  have corners : ∀ {divide : Int → Int → Int} {entry}, binaryOpBoundary (infAwareDivide divide) a b = .ok entry →
      ∀ x y, a.Corner x → b.Corner y → ¬Overflowing x y := by
    intro divide entry run x y cornerX cornerY
    obtain ⟨_, value, -⟩ := binaryOpBoundary_corner run cornerX cornerY
    exact not_overflowing value
  cases op <;> cases found
  case add =>
    simp only [visitAdd, bind_ok] at run
    obtain ⟨_, lower, _, upper, -⟩ := run
    exact ⟨not_opposite lower, not_opposite upper⟩
  case sub =>
    simp only [visitSub, neg, bind_ok, int64_ok] at run
    obtain ⟨_, ⟨fitsMax, rfl⟩, _, lower, _, ⟨fitsMin, rfl⟩, _, upper, -⟩ := run
    exact ⟨by omega, by omega, not_opposite lower, not_opposite upper⟩
  case div =>
    simp only [visitDiv, (signed rfl).handleDivision, bind_ok] at run
    obtain ⟨_, -, run⟩ := run
    exact corners run
  case floorDiv =>
    simp only [visitFloorDiv, (signed rfl).handleDivision, bind_ok] at run
    obtain ⟨_, -, run⟩ := run
    exact corners run
  all_goals trivial

theorem small_not_opposite (least : -1 ≤ y) (greatest : y ≤ 1) : ¬Opposite x y := by
  have limits := kInf_eq
  simp only [Opposite]
  omega

theorem divisorCap_total (stored : b.Stored) :
    ∃ cap, infAwareAdd b.maxValue (-1) = .ok cap ∧ Word cap ∧ (0 < b.maxValue → 0 ≤ cap) := by
  have limits := kInf_eq
  obtain ⟨cap, run, word⟩ := infAwareAdd_total stored.max (by decide) (small_not_opposite le_rfl (by decide))
  refine ⟨cap, run, word, fun positive => ?_⟩
  rcases infAwareAdd_cases run with h | h | h | h | h | h <;> omega

section

variable (storedA : a.Stored) (storedB : b.Stored)

include storedA storedB

theorem visitMod_total (signed : b.Signed) : ∃ entry, visitMod dtype a b = .ok entry ∧ entry.Stored := by
  have zero : Word 0 := by decide
  obtain ⟨cap, capped, word, nonneg⟩ := divisorCap_total storedB
  unfold visitMod
  split
  next positive =>
    have negated : Word (-cap) := by
      simp only [Entry.Signed] at signed
      exact (word_neg word).2 (by omega)
    simp only [capped, ok_bind, neg, negated.int64]
    split
    · split
      · exact ⟨a, rfl, storedA⟩
      · exact ⟨_, rfl, makeBound_stored zero (storedA.max.min word)⟩
    · exact ⟨_, rfl, makeBound_stored (storedA.min.max negated) ((storedA.max.max zero).min word)⟩
  · simp only [signed.not_zero]
    exact ⟨_, rfl, everything_stored⟩

theorem visitFloorMod_total (signed : b.Signed) : ∃ entry, visitFloorMod dtype a b = .ok entry ∧ entry.Stored := by
  have zero : Word 0 := by decide
  obtain ⟨cap, capped, word, -⟩ := divisorCap_total storedB
  obtain ⟨floor, floored, below⟩ := infAwareAdd_total storedB.min (by decide)
    (small_not_opposite (show -1 ≤ 1 by decide) le_rfl)
  unfold visitFloorMod
  split
  · simp only [capped]
    split
    · split
      · exact ⟨a, rfl, storedA⟩
      · exact ⟨_, rfl, makeBound_stored zero (storedA.max.min word)⟩
    · exact ⟨_, rfl, makeBound_stored zero word⟩
  · simp only [signed.not_zero, capped, floored]
    exact ⟨_, rfl, (makeBound_stored (zero.min below) (zero.max word)).intersect everything_stored⟩

theorem visitBitwiseAnd_total : ∃ entry, visitBitwiseAnd dtype a b = .ok entry ∧ entry.Stored := by
  have zero : Word 0 := by decide
  unfold visitBitwiseAnd
  split
  · exact ⟨_, rfl, makeBound_stored zero (storedA.max.min storedB.max)⟩
  · split
    · exact ⟨_, rfl, makeBound_stored zero storedB.max⟩
    · split
      · exact ⟨_, rfl, makeBound_stored zero storedA.max⟩
      · exact ⟨_, rfl, everything_stored⟩

theorem visitor_total {op : BinOp} {visit : DataType → Entry → Entry → Except Fault Entry}
    (found : visitor op = some visit) (plain : op.isShift = false) (signed : op.isDivision = true → b.Signed)
    (adequate : Adequate a b op) : ∃ entry, visit dtype a b = .ok entry ∧ entry.Stored := by
  cases op <;> cases found
  case add => exact visitAdd_total storedA storedB adequate
  case sub => exact visitSub_total storedA storedB adequate
  case mul => exact visitMul_total
  case div => exact visitDiv_total storedA (signed rfl) adequate
  case mod => exact visitMod_total storedA storedB (signed rfl)
  case floorDiv => exact visitFloorDiv_total storedA (signed rfl) adequate
  case floorMod => exact visitFloorMod_total storedA storedB (signed rfl)
  case min => exact ⟨_, rfl, storedA.min.min storedB.min, storedA.max.min storedB.max⟩
  case max => exact ⟨_, rfl, storedA.min.max storedB.min, storedA.max.max storedB.max⟩
  case shiftLeft | shiftRight => contradiction
  case bitwiseAnd => exact visitBitwiseAnd_total storedA storedB

end

end

-- The expressions that are meant, with divisors that are constants other than zero.
def Total : PrimExpr → Prop
  | .binary op a b =>
    op.isLogical = true ∨ (op.isShift = false ∧ Total a ∧ Total b ∧
      (op.isDivision = true → ∃ dtype c, b = .intImm dtype c ∧ c ≠ 0))
  | .intImm _ value => Word value
  | .select _ trueValue falseValue => Total trueValue ∧ Total falseValue
  | .letIn _ _ _ => False
  | .cast _ value => Total value
  | .var _ | .not _ | .atom _ _ => True

structure State.Stored (state : State) : Prop where
  bound : ∀ v entry, state.varMap v = some entry → entry.Stored
  info : ∀ info ∈ state.additionalInfo, info.bound.Stored
  constant : ∀ info ∈ state.additionalInfo, ∀ dtype c, info.expr ≠ .intImm dtype c

-- Every step is given bounds that it can work on.
def State.Steps (state : State) : PrimExpr → Prop
  | .binary op a b =>
    op.isLogical = true ∨ (state.Steps a ∧ state.Steps b ∧
      ∀ entryA entryB, state.visitExpr a = .ok entryA → state.visitExpr b = .ok entryB → Adequate entryA entryB op)
  | .select _ trueValue falseValue => state.Steps trueValue ∧ state.Steps falseValue
  | .cast _ value => state.Steps value
  | _ => True

section

variable {state : State}

theorem State.Stored.refine (stored : state.Stored) {e : PrimExpr} {entry : Entry}
    (range : entry.Stored) : (state.refine e entry).Stored := by
  have infos := stored.info
  unfold State.refine
  generalize state.additionalInfo = list at infos
  induction list generalizing entry with
  | nil => exact range
  | cons info rest ih =>
    have refined : (if e = info.expr then intersect entry info.bound else entry).Stored := by
      split
      · exact range.intersect (infos info List.mem_cons_self)
      · exact range
    exact ih refined fun other mem => infos other (List.mem_cons_of_mem _ mem)

theorem State.Stored.refine_intImm (stored : state.Stored) (dtype : DataType) (c : Int)
    (entry : Entry) : state.refine (.intImm dtype c) entry = entry := by
  have constants := stored.constant
  unfold State.refine
  generalize state.additionalInfo = list at constants
  induction list with
  | nil => rfl
  | cons info rest ih =>
    rw [List.foldl_cons, if_neg (constants info List.mem_cons_self dtype c).symm]
    exact ih fun other mem => constants other (List.mem_cons_of_mem _ mem)

theorem State.Stored.visitVar (stored : state.Stored) (v : Var) : (state.visitVar v).Stored := by
  unfold State.visitVar
  split
  next entry found => exact stored.bound v entry found
  · split
    · exact makeBound_stored (by decide) (by decide)
    · exact everything_stored

variable {e : PrimExpr}

theorem divisor_signed {b : PrimExpr} {op : BinOp} (stored : state.Stored)
    (constant : op.isDivision = true → ∃ dtype c, b = .intImm dtype c ∧ c ≠ 0) {entry : Entry}
    (run : state.visitExpr b = .ok entry) (division : op.isDivision = true) : entry.Signed := by
  obtain ⟨dtype, c, rfl, nonzero⟩ := constant division
  rw [State.visitExpr, stored.refine_intImm, Except.ok.injEq] at run
  rw [← run]
  exact makeBound_signed nonzero

theorem visitExpr_returns (stored : state.Stored) (total : Total e) (steps : state.Steps e) :
    ∃ entry, state.visitExpr e = .ok entry ∧ entry.Stored := by
  induction e with
  | var v => exact ⟨_, rfl, stored.refine (stored.visitVar v)⟩
  | intImm dtype value => exact ⟨_, rfl, stored.refine (makeBound_stored total total)⟩
  | binary op a b iha ihb =>
    cases found : visitor op with
    | none =>
      simp only [State.visitExpr, found]
      exact ⟨_, rfl, stored.refine everything_stored⟩
    | some visit =>
      have arithmetic : ¬op.isLogical = true := by
        cases op <;> simp_all [visitor, BinOp.isLogical]
      obtain ⟨plain, totalA, totalB, constant⟩ := total.resolve_left arithmetic
      obtain ⟨stepsA, stepsB, adequate⟩ := steps.resolve_left arithmetic
      obtain ⟨entryA, runA, storedA⟩ := iha totalA stepsA
      obtain ⟨entryB, runB, storedB⟩ := ihb totalB stepsB
      obtain ⟨entry, run, range⟩ : ∃ entry, visit a.dtype entryA entryB = .ok entry ∧ entry.Stored :=
        visitor_total storedA storedB found plain (divisor_signed stored constant runB)
          (adequate entryA entryB runA runB)
      simp only [State.visitExpr, found, runA, runB, run, ok_bind]
      exact ⟨_, rfl, stored.refine range⟩
  | not a ih => exact ⟨_, rfl, stored.refine everything_stored⟩
  | select condition trueValue falseValue ihc iht ihf =>
    obtain ⟨entryA, runA, storedA⟩ := iht total.1 steps.1
    obtain ⟨entryB, runB, storedB⟩ := ihf total.2 steps.2
    simp only [State.visitExpr, runA, runB]
    exact ⟨_, rfl, stored.refine (storedA.union storedB)⟩
  | letIn v value body ihv ihb => exact absurd total id
  | cast dtype value ih =>
    obtain ⟨entry, run, range⟩ := ih total steps
    simp only [State.visitExpr, run]
    exact ⟨_, rfl, stored.refine (range.intersect everything_stored)⟩
  | atom dtype id => exact ⟨_, rfl, stored.refine everything_stored⟩

theorem steps_of_visitExpr (stored : state.Stored) (total : Total e) {entry : Entry}
    (run : state.visitExpr e = .ok entry) : state.Steps e := by
  induction e generalizing entry with
  | binary op a b iha ihb =>
    cases found : visitor op with
    | none => exact .inl (by cases op <;> simp_all [visitor, BinOp.isLogical])
    | some visit =>
      refine total.imp_right fun kept => ?_
      obtain ⟨-, totalA, totalB, constant⟩ := kept
      simp only [State.visitExpr, found, bind_ok] at run
      obtain ⟨entryA, runA, entryB, runB, _, run, -⟩ := run
      refine ⟨iha totalA runA, ihb totalB runB, fun first second visitedA visitedB => ?_⟩
      cases runA.symm.trans visitedA
      cases runB.symm.trans visitedB
      exact adequate_of_visit found (divisor_signed stored constant runB) run
  | select condition trueValue falseValue ihc iht ihf =>
    simp only [State.visitExpr, bind_ok] at run
    obtain ⟨_, runA, _, runB, -⟩ := run
    exact ⟨iht total.1 runA, ihf total.2 runB⟩
  | cast dtype value ih =>
    simp only [State.visitExpr, bind_ok] at run
    obtain ⟨_, run, -⟩ := run
    exact ih total run
  | letIn v value body ihv ihb => exact absurd total id
  | var | intImm | not | atom => trivial

theorem stored_empty : State.Stored ⟨fun _ => none, []⟩ :=
  ⟨by simp, by simp, by simp⟩

theorem least_bound_negated :
    let x : PrimExpr := .var ⟨0, .int64, false⟩
    let y : Var := ⟨1, .int64, false⟩
    State.visitExpr ⟨Function.update (fun _ => none) y (some ⟨-2 ^ 63, 0⟩), []⟩
      (.binary .sub x (.var y)) = .error .undefined := by
  decide +kernel

end

end Tlm.Arith.ConstIntBound
