import Tlm.Arith.RewriteDivisionSound

set_option autoImplicit false

namespace Tlm.Arith.RewriteSimplifier

open Traced Division

-- A constant handed to an operator that takes an `int`.
def asInt (value : Int) : Int :=
  value.bmod (2 ^ 32)

def int (c : CVar) : Pattern :=
  .num fun consts => asInt (consts c)

-- The patterns, each with what stands for `y` when it has matched.
def residueSources : List (Pattern × Pattern) :=
  [(floordiv (x * c1 + y) c2, y), (floordiv (x * c1) c2, 0), (floordiv (y + x * c1) c2, y)]

def residue (rest : Pattern) : Pattern :=
  floordiv (x * floormod c1 (int .c2) + floormod rest (int .c2)) (int .c2)

section

variable (queries : Queries) (dtype : DataType) (e : PrimExpr)

def eliminateResidue (rest : Pattern) (s : Bindings) : Folding (Option Outcome) :=
  let c1val := s.consts .c1
  let c2val := s.consts .c2
  if c2val = 0 then return some ⟨e, false⟩
  else do
    note (asInt c2val = c2val)
    let residue ← (residue rest).eval queries.sameAs dtype s
    let quotient ← (floordiv rest (int .c2)).eval queries.sameAs dtype s
    let yDiv := if queries.canProveEqual quotient 0 then .intImm dtype 0 else quotient
    let bound := queries.constIntBound residue
    if bound.maxValue = bound.minValue then
      note (asInt c1val = c1val ∧ asInt bound.maxValue = bound.maxValue)
      let head ← (x * floordiv (int .c1) c2).eval queries.sameAs dtype s
      let tail ← build queries.sameAs .add yDiv (.intImm dtype (asInt bound.maxValue))
      return some ⟨← build queries.sameAs .add head tail, false⟩
    else if 0 < c1val ∧ 0 < c2val ∧ c2val.tmod c1val = 0 then
      let remainder ← (floormod rest (int .c2)).eval queries.sameAs dtype s
      if queries.canProveLess remainder c1val then
        note (asInt (Arith.floordiv c2val c1val) = Arith.floordiv c2val c1val)
        let divisor := Pattern.num fun c => asInt (Arith.floordiv (c .c2) (c .c1))
        let head ← (floordiv x divisor).eval queries.sameAs dtype s
        return some ⟨← build queries.sameAs .add head yDiv, false⟩
      else return none
    else return none

def floorDivResidueFrom : List (Pattern × Pattern) → Folding (Option Outcome)
  | [] => return none
  | (source, rest) :: others =>
    match source.matchExpr e .empty with
    | some s => eliminateResidue queries dtype e rest s
    | none => floorDivResidueFrom others

end

def floorDivResidue : Step :=
  fun queries dtype e => floorDivResidueFrom queries dtype e residueSources

def modModular : Step := fun queries dtype e =>
  match e with
  | .binary .mod a (.intImm type c1val) => do
    let mod := queries.modularSet a
    if mod.coeff.tmod c1val = 0 ∧ 0 < c1val ∧ queries.canProveGreaterEqual a 0 then
      let base ← makeConst dtype mod.base
      return some ⟨← build queries.sameAs .mod base (.intImm type c1val), false⟩
    else return none
  | _ => return none

def floorModAnalysis : Step := fun queries dtype e =>
  match e with
  | .binary .floorMod a (.intImm type c1val) => do
    let mod := queries.modularSet a
    let bound := queries.constIntBound a
    if 0 < c1val then
      if mod.coeff.tmod c1val = 0 then
        let base ← makeConst dtype mod.base
        return some ⟨← build queries.sameAs .floorMod base (.intImm type c1val), false⟩
      else if 0 ≤ bound.minValue ∧ bound.maxValue < c1val then return some ⟨a, false⟩
      else return none
    else return none
  | _ => return none

def minBounds : Step := fun queries _ e =>
  match e with
  | .binary .min a b =>
    let aBound := queries.constIntBound a
    let bBound := queries.constIntBound b
    return if aBound.maxValue ≤ bBound.minValue then some ⟨a, false⟩
      else if bBound.maxValue ≤ aBound.minValue then some ⟨b, false⟩
      else none
  | _ => return none

def maxBounds : Step := fun queries _ e =>
  match e with
  | .binary .max a b =>
    let aBound := queries.constIntBound a
    let bBound := queries.constIntBound b
    return if bBound.maxValue ≤ aBound.minValue then some ⟨a, false⟩
      else if aBound.maxValue ≤ bBound.minValue then some ⟨b, false⟩
      else none
  | _ => return none

open ConstIntBound in
theorem Encloses.le {p q : ConstIntBound.Entry} {u v : Int} (first : Encloses p u)
    (second : Encloses q v) (order : p.maxValue ≤ q.minValue) : u ≤ v := by
  have positive : kNegInf < kPosInf := by decide
  rcases first.2 with unbounded | ⟨_, above⟩ <;> rcases second.1 with unbounded' | ⟨_, below⟩ <;>
    omega

open ConstIntBound in
theorem Encloses.eq {p : ConstIntBound.Entry} {u : Int} (inside : Encloses p u)
    (single : p.maxValue = p.minValue) : u = p.maxValue := by
  have positive : kNegInf < kPosInf := by decide
  rcases inside.1 with unbounded | ⟨_, above⟩ <;> rcases inside.2 with unbounded' | ⟨_, below⟩ <;>
    omega

open ConstIntBound in
theorem Encloses.range {p : ConstIntBound.Entry} {u c : Int} (inside : Encloses p u)
    (low : 0 ≤ p.minValue) (high : p.maxValue < c) (small : c ≤ kPosInf) : 0 ≤ u ∧ u < c := by
  have negative : kNegInf < 0 := by decide
  rcases inside.1 with unbounded | ⟨_, above⟩ <;> rcases inside.2 with unbounded' | ⟨_, below⟩ <;>
    omega

section

variable {setting : Setting} {kind : Kind} {e : PrimExpr} {v w : Int} {facts : Prop}

theorem keeps_of_means (means : setting.Means kind e w) (same : facts → w = v) : setting.Keeps facts kind v e :=
  ⟨w, means, same⟩

theorem minBounds_sound : Step.Sound minBounds := by
  intro setting queries kind e v means
  unfold minBounds
  split
  next a b =>
    obtain ⟨operand, signature, left, right, -, -, -, value⟩ := means.operands
    cases signature
    apply returns_pure
    intro outcome chosen
    simp only [BinOp.apply] at value
    split at chosen
    next order =>
      cases chosen
      refine keeps_of_means left fun sound => ?_
      rw [← value, min_eq_left ((sound.bound a left.defined).le (sound.bound b right.defined) order)]
    · split at chosen
      next order =>
        cases chosen
        refine keeps_of_means right fun sound => ?_
        rw [← value, min_eq_right ((sound.bound b right.defined).le (sound.bound a left.defined) order)]
      · simp at chosen
  · exact returns_pure (by simp)

theorem maxBounds_sound : Step.Sound maxBounds := by
  intro setting queries kind e v means
  unfold maxBounds
  split
  next a b =>
    obtain ⟨operand, signature, left, right, -, -, -, value⟩ := means.operands
    cases signature
    apply returns_pure
    intro outcome chosen
    simp only [BinOp.apply] at value
    split at chosen
    next order =>
      cases chosen
      refine keeps_of_means left fun sound => ?_
      rw [← value, max_eq_left ((sound.bound b right.defined).le (sound.bound a left.defined) order)]
    · split at chosen
      next order =>
        cases chosen
        refine keeps_of_means right fun sound => ?_
        rw [← value, max_eq_right ((sound.bound a left.defined).le (sound.bound b right.defined) order)]
      · simp at chosen
  · exact returns_pure (by simp)

theorem fmod_eq_of_contains {entry : ModularSet.Entry} {u c : Int} (inside : entry.Contains u)
    (divides : entry.coeff.tmod c = 0) : entry.base.fmod c = u.fmod c :=
  fmod_congr ((Int.dvd_of_tmod_eq_zero divides).trans inside.dvd)

theorem base_nonneg {entry : ModularSet.Entry} {u : Int} (inside : entry.Contains u)
    (nonneg : 0 ≤ u) : 0 ≤ entry.base := by
  by_cases zero : entry.coeff = 0
  · rw [ModularSet.Entry.Contains, zero, Int.modEq_zero_iff] at inside
    omega
  · exact (entry.reduced zero).1

theorem modModular_sound : Step.Sound modModular := by
  intro setting queries kind e v means
  unfold modModular
  split
  next a type c1val =>
    obtain ⟨operand, signature, left, right, allowed, constant, divisor, value⟩ := means.operands
    cases signature
    simp only
    split
    next holds =>
      obtain ⟨divides, positive, asked⟩ := holds
      refine returns_bind (Setting.makeConst_returns _) fun base baseMeans => ?_
      refine returns_bind (Setting.build_returns baseMeans right queries.eq_of_sameAs rfl (by simp)
        allowed constant divisor) fun out outMeans => returns_pure ?_
      rintro _ ⟨⟩
      refine keeps_of_means outMeans fun sound => ?_
      have nonneg := sound.greaterEqual a left.defined 0 asked
      have inside := sound.modular a left.defined
      simp only [BinOp.apply, PrimExpr.value] at value ⊢
      rw [← value, tmod_eq_fmod (base_nonneg inside nonneg) positive, tmod_eq_fmod nonneg positive,
        fmod_eq_of_contains inside divides]
    · exact returns_pure (by simp)
  · exact returns_pure (by simp)

theorem floorModAnalysis_sound : Step.Sound floorModAnalysis := by
  intro setting queries kind e v means
  unfold floorModAnalysis
  split
  next a type c1val =>
    obtain ⟨operand, signature, left, right, allowed, constant, divisor, value⟩ := means.operands
    cases signature
    simp only [BinOp.apply, PrimExpr.value] at value ⊢
    split
    next positive =>
      split
      next divides =>
        refine returns_bind (Setting.makeConst_returns _) fun base baseMeans => ?_
        refine returns_bind (Setting.build_returns baseMeans right queries.eq_of_sameAs rfl
          (by simp) allowed constant divisor) fun out outMeans => returns_pure ?_
        rintro _ ⟨⟩
        refine keeps_of_means outMeans fun sound => ?_
        rw [← value]
        exact fmod_eq_of_contains (sound.modular a left.defined) divides
      · split
        next range =>
          apply returns_pure
          rintro _ ⟨⟩
          refine keeps_of_means left fun sound => ?_
          have small : c1val ≤ ConstIntBound.kPosInf := by
            have fits := (fits_iff setting.isIndex c1val).1 right.hasKind.2
            rcases (isIndexType_cases setting.isIndex).2 with bits | bits <;>
              simp [bits, ConstIntBound.kPosInf] at fits ⊢ <;> omega
          have inside := (sound.bound a left.defined).range range.1 range.2 small
          rw [← value, Int.fmod_eq_emod_of_nonneg _ positive.le, Int.emod_eq_of_lt inside.1 inside.2]
        · exact returns_pure (by simp)
    · exact returns_pure (by simp)
  · exact returns_pure (by simp)

structure Divides (source rest : Pattern) : Prop where
  node : source.isNode = true
  kinded : source.hasKind source.rootKind = true
  index : source.rootKind = .index
  residue : admits source .index (residue rest) = true
  quotient : admits source .index (floordiv rest (int .c2)) = true
  head : admits source .index (x * floordiv (int .c1) c2) = true
  remainder : admits source .index (floormod rest (int .c2)) = true
  divisor : admits source .index
    (floordiv x (.num fun c => asInt (Arith.floordiv (c .c2) (c .c1)))) = true
  defined : ∀ σ, source.Defined σ → σ.const .c2 ≠ 0 ∧ rest.Defined σ
  value : ∀ σ, source.value σ =
    (σ.expr .x * σ.const .c1 + rest.value σ).fdiv (σ.const .c2)

theorem residueSources_divide : ∀ pair ∈ residueSources, Divides pair.1 pair.2 := by
  simp only [residueSources, List.forall_mem_cons, List.not_mem_nil, false_imp_iff, implies_true, and_true]
  and_intros
  all_goals
    refine ⟨by decide, by decide, by decide, by decide, by decide, by decide, by decide, by decide,
      ?_, ?_⟩ <;> intro σ
  · simp only [pattern_cases, and_true, imp_self]
  · simp only [pattern_cases]
  · simp only [pattern_cases, and_true, imp_self]
  · simp only [pattern_cases, add_zero]
  · simp only [pattern_cases, and_true, imp_self]
  · simp only [pattern_cases, add_comm]

section

variable {setting : Setting} {queries : Queries} {source rest : Pattern} {s : Bindings} {v : Int}
  {e : PrimExpr}

theorem fits_asInt (value : Int) : setting.dtype.Fits (asInt value) := by
  have low := Int.le_bmod (x := value) (m := 2 ^ 32) (by decide)
  have high := Int.bmod_lt (x := value) (m := 2 ^ 32) (by decide)
  rw [fits_iff setting.isIndex]
  rcases (isIndexType_cases setting.isIndex).2 with bits | bits <;> simp [bits, asInt] at * <;> omega

theorem eliminateResidue_returns (divides : Divides source rest)
    (matched : source.Matched setting source.rootKind v .empty s) :
    Returns setting.fine (eliminateResidue queries setting.dtype e rest s) fun answer =>
      ∀ outcome, answer = some outcome → setting.Keeps (queries.Sound setting.env) .index v outcome.expr := by
  obtain ⟨nonzero, restDefined⟩ := divides.defined _ (matched.defined s (.refl s))
  have value := matched.value s (.refl s)
  rw [divides.value] at value
  set σ := s.values setting.env
  have evaluate : ∀ p, admits source .index p = true → p.Defined σ →
      Returns setting.fine (p.eval queries.sameAs setting.dtype s)
        (setting.Means .index · (p.value σ)) :=
    fun p admitted defined => eval_admitted matched (by simp [divides.index]) admitted (by simp) defined
  have consts : ∀ c, s.consts c = σ.const c := fun _ => rfl
  simp only [eliminateResidue, consts, if_neg nonzero]
  refine returns_bind Setting.note_returns fun _ exact => ?_
  have c2 : (int .c2).value σ = σ.const .c2 := exact
  have number : ∀ c, (int c).Defined σ := fun _ => trivial
  have residueDefined : (residue rest).Defined σ := by
    simp only [residue, pattern_cases, c2, number, and_true, true_and]
    exact ⟨nonzero, nonzero, nonzero, restDefined⟩
  have quotientDefined : (floordiv rest (int .c2)).Defined σ := by
    simp only [pattern_cases, c2, number, and_true]
    exact ⟨nonzero, restDefined⟩
  refine returns_bind (evaluate _ divides.residue residueDefined) fun res resMeans => ?_
  refine returns_bind (evaluate _ divides.quotient quotientDefined) fun quotient quotientMeans => ?_
  -- Whether it was replaced by zero or not, `y_div` is the quotient of the rest.
  have yDiv : setting.Keeps (queries.Sound setting.env) .index ((rest.value σ).fdiv (σ.const .c2))
      (if queries.canProveEqual quotient 0 then .intImm setting.dtype 0 else quotient) := by
    simp only [pattern_cases, c2] at quotientMeans
    split
    next asked =>
      refine keeps_of_means (Setting.means_intImm (fits_asInt 0)) fun sound => ?_
      rw [← quotientMeans.value]
      exact (sound.equal quotient quotientMeans.defined 0 asked).symm
    · exact keeps_of_means quotientMeans fun _ => rfl
  obtain ⟨w, yDivMeans, yDivValue⟩ := yDiv
  have addition : ∀ {a b : PrimExpr} {u w : Int}, setting.Means .index a u →
      setting.Means .index b w → Returns setting.fine (build queries.sameAs .add a b)
        (setting.Means .index · (u + w)) := fun left right =>
    Setting.build_returns left right queries.eq_of_sameAs rfl (by simp) (by simp [BinOp.truncates])
      (by simp [BinOp.isDivision]) (by simp [BinOp.isDivision])
  split
  next single =>
    refine returns_bind Setting.note_returns fun _ exact => ?_
    obtain ⟨exactC1, exactBound⟩ := exact
    have c1 : (int .c1).value σ = σ.const .c1 := exactC1
    have headDefined : (x * floordiv (int .c1) RewriteSimplifier.c2).Defined σ := by
      simp only [pattern_cases, number, and_true, true_and]
      exact nonzero
    refine returns_bind (evaluate _ divides.head headDefined) fun head headMeans => ?_
    refine returns_bind (addition yDivMeans (Setting.means_intImm (fits_asInt _))) ?_
    intro tail tailMeans
    refine returns_bind (addition headMeans tailMeans) fun out outMeans => returns_pure ?_
    rintro _ ⟨⟩
    refine keeps_of_means outMeans fun sound => ?_
    have fixed := (sound.bound res resMeans.defined).eq single
    simp only [resMeans.value, residue, pattern_cases, c2] at fixed
    simp only [pattern_cases, c1]
    rw [yDivValue sound, exactBound, ← fixed, ← value]
    exact (mul_add_fdiv_residue _ _ _ nonzero).symm
  · split
    next factor =>
      obtain ⟨positive, positive', divisible⟩ := factor
      have divisible := Int.dvd_of_tmod_eq_zero divisible
      have remainderDefined : (floormod rest (int .c2)).Defined σ := by
        simp only [pattern_cases, c2, number, and_true]
        exact ⟨nonzero, restDefined⟩
      refine returns_bind (evaluate _ divides.remainder remainderDefined) fun rem remMeans => ?_
      split
      next asked =>
        refine returns_bind Setting.note_returns fun _ exact => ?_
        rw [← (floordiv_floormod _ positive.ne').1] at exact
        have divisor : (Pattern.num fun c => asInt (Arith.floordiv (c .c2) (c .c1))).value σ =
            (σ.const .c2).fdiv (σ.const .c1) := by
          simp only [pattern_cases, ← (floordiv_floormod _ positive.ne').1, exact]
        have headDefined :
            (floordiv x (.num fun c => asInt (Arith.floordiv (c .c2) (c .c1)))).Defined σ := by
          simp only [pattern_cases, divisor, and_true]
          exact (fdiv_pos_of_dvd positive' positive divisible).ne'
        refine returns_bind (evaluate _ divides.divisor headDefined) fun head headMeans => ?_
        refine returns_bind (addition headMeans yDivMeans) fun out outMeans => returns_pure ?_
        rintro _ ⟨⟩
        refine keeps_of_means outMeans fun sound => ?_
        have small := sound.less rem remMeans.defined _ asked
        simp only [remMeans.value, pattern_cases, c2] at small
        simp only [pattern_cases, divisor]
        rw [yDivValue sound, ← value, mul_add_fdiv_small _ positive' positive divisible small]
      · exact returns_pure (by simp)
    · exact returns_pure (by simp)

theorem floorDivResidueFrom_returns {kind : Kind} (means : setting.Means kind e v)
    {sources : List (Pattern × Pattern)} (divide : ∀ pair ∈ sources, Divides pair.1 pair.2) :
    Returns setting.fine (floorDivResidueFrom queries setting.dtype e sources) fun answer =>
      ∀ outcome, answer = some outcome → setting.Keeps (queries.Sound setting.env) kind v outcome.expr := by
  induction sources with
  | nil => exact returns_pure (by simp)
  | cons pair others ih =>
    obtain ⟨source, rest⟩ := pair
    rw [List.forall_mem_cons] at divide
    rw [floorDivResidueFrom]
    split
    next s found =>
      obtain rfl := (Pattern.rootKind_eq found divide.1.node means).trans divide.1.index
      have matched := source.matchExpr_matched found (divide.1.index ▸ divide.1.kinded)
        (by simp [Bindings.empty]) means
      exact eliminateResidue_returns divide.1 (divide.1.index.symm ▸ matched)
    · exact ih divide.2

theorem floorDivResidue_sound : Step.Sound floorDivResidue :=
  fun _ _ _ _ _ means => floorDivResidueFrom_returns means residueSources_divide

end

end

end Tlm.Arith.RewriteSimplifier
