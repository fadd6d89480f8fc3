import Tlm.Arith.Expr
import Tlm.Arith.IntOperator

set_option autoImplicit false

namespace Tlm.Arith.ModularSet

open Cpp

structure Entry where
  coeff : Int
  base : Int
  nonneg : 0 ≤ coeff
  coeff_lt : coeff < 2 ^ 63
  reduced : coeff ≠ 0 → 0 ≤ base ∧ base < coeff
  deriving DecidableEq, Repr

namespace Entry

def reduceBase (coeff base : Int) : Int :=
  if coeff ≠ 0 then
    if base.tmod coeff < 0 then base.tmod coeff + coeff else base.tmod coeff
  else base

theorem reduceBase_range {coeff : Int} (base : Int) (nonneg : 0 ≤ coeff) (nonzero : coeff ≠ 0) :
    0 ≤ reduceBase coeff base ∧ reduceBase coeff base < coeff := by
  have small := natAbs_tmod_lt base nonzero
  rw [reduceBase, if_pos nonzero]
  split <;> omega

-- The constructor. The sign of a negative coefficient goes to the base.
def make (coeff base : Int) : Except Fault Entry :=
  if negative : coeff < 0 then
    if range : -2 ^ 63 < coeff ∧ -2 ^ 63 < base then
      .ok ⟨-coeff, reduceBase (-coeff) (-base), by omega, by omega,
        reduceBase_range (-base) (by omega)⟩
    else .error .undefined
  else if range : coeff < 2 ^ 63 then
    .ok ⟨coeff, reduceBase coeff base, by omega, range, reduceBase_range base (by omega)⟩
  else .error .undefined

def isConst (entry : Entry) : Bool :=
  entry.coeff = 0

end Entry

def everything : Entry := ⟨1, 0, by decide, by decide, by decide⟩

def nothing : Entry := ⟨0, 1, by decide, by decide, by decide⟩

-- `ZeroAwareGCD` takes absolute values first.
def gcd (a b : Int) : Except Fault Int := do
  let _ ← int64 a.natAbs
  let _ ← int64 b.natAbs
  return zeroAwareGCD a b

def union (a b : Entry) : Except Fault Entry := do
  let coeff ← gcd a.coeff b.coeff
  if coeff = 0 then return if a.base = b.base then a else everything
  else
    let base0 := a.base.tmod coeff
    let base1 := b.base.tmod coeff
    if base0 = base1 then Entry.make coeff base0
    else Entry.make (← gcd (← gcd base0 base1) coeff) base0

-- What `*y = (old_r - (*x) * a) / b` computes on the way.
def secondFactor (divisor x a b : Int) : Except Fault Int :=
  if b ≠ 0 then do int64 (divisor - (← int64 (x * a))) else .ok 0

def intersect (a b : Entry) : Except Fault Entry := do
  let (divisor, x, y) := extendedEuclidean a.coeff b.coeff
  let _ ← secondFactor divisor x a.coeff b.coeff
  let v ← int64 (b.base - a.base)
  ensure .undefined (divisor ≠ 0)
  if v.tmod divisor = 0 then
    let x ← int64 (v.tdiv divisor * x)
    let _ ← int64 (v.tdiv divisor * -y)
    let coeff ← int64 (a.coeff.tdiv divisor * b.coeff)
    Entry.make coeff (← int64 ((← int64 (x * a.coeff)) + a.base))
  else return nothing

def visitAdd (a b : Entry) : Except Fault Entry := do
  Entry.make (← gcd a.coeff b.coeff) (← int64 (a.base + b.base))

def visitSub (a b : Entry) : Except Fault Entry := do
  Entry.make (← gcd a.coeff b.coeff) (← int64 (a.base - b.base))

def visitMul (a b : Entry) : Except Fault Entry := do
  let pq ← int64 (a.coeff * b.coeff)
  let pm ← int64 (a.coeff * b.base)
  let qn ← int64 (a.base * b.coeff)
  Entry.make (← gcd pq (← gcd pm qn)) (← int64 (a.base * b.base))

-- `proved` is the answer of the parent to `CanProveGreaterEqual(lhs, 0)`.
def divByConst (proved : Bool) (a : Entry) (val : Int) (roundDown : Bool) : Except Fault Entry := do
  ensure .check (val ≠ 0)
  if a.coeff.tmod val = 0 then
    if a.base = 0 then Entry.make |a.coeff.tdiv val| 0
    else if 0 < a.base ∧ 0 < val ∧ (roundDown || proved) then
      Entry.make (a.coeff.tdiv val) (a.base.tdiv val)
    else return everything
  else return everything

def modByConst (proved : Bool) (a : Entry) (val : Int) (roundDown : Bool) : Except Fault Entry := do
  ensure .check (val ≠ 0)
  let coeff ← gcd a.coeff val
  if a.base.tmod coeff = 0 ∨ (0 < a.base ∧ (roundDown || proved)) then
    Entry.make coeff (a.base.tmod coeff)
  else return everything

-- `static_cast<int64_t>(1) << amount`
def shiftOne (amount : Int) : Except Fault Int := do
  ensure .undefined (0 ≤ amount ∧ amount < 64)
  return if amount = 63 then -2 ^ 63 else 2 ^ amount.toNat

def powerLoop : (fuel val shift : Nat) → Option Nat
  | 0, _, _ => none
  | fuel + 1, val, shift =>
    if val % 2 = 1 then if val = 1 then some shift else none
    else powerLoop fuel (val / 2) (shift + 1)

-- `is_const_power_of_two_integer` of an `int`.
def constPowerOfTwo (val : Int) : Option Nat :=
  if val ≤ 0 then none else powerLoop 32 val.toNat 0

def visitRightShift (proved : Bool) (a : Entry) (amount : Int) : Except Fault Entry := do
  divByConst proved a (← shiftOne amount) true

def visitBitwiseAnd (proved : Bool) (a : Entry) (shift : Nat) : Except Fault Entry := do
  modByConst proved a (← shiftOne shift) true

-- `Integer(base + 1)` keeps 32 bits.
def maskWidth (base : Int) : Except Fault (Option Nat) := do
  return constPowerOfTwo ((← int64 (base + 1)).bmod (2 ^ 32))

abbrev State := Var → Option Entry

namespace State

-- `proves` answers `CanProveGreaterEqual(lhs, 0)` for the parent.
def visitExpr (proves : PrimExpr → Bool) (state : State) : PrimExpr → Except Fault Entry
  | .var v => .ok ((state v).getD everything)
  | .intImm _ value => Entry.make 0 value
  | .binary op a b =>
    match op with
    | .add => do visitAdd (← state.visitExpr proves a) (← state.visitExpr proves b)
    | .sub => do visitSub (← state.visitExpr proves a) (← state.visitExpr proves b)
    | .mul => do visitMul (← state.visitExpr proves a) (← state.visitExpr proves b)
    | .min | .max => do union (← state.visitExpr proves a) (← state.visitExpr proves b)
    | .div => do
      let entryB ← state.visitExpr proves b
      if entryB.isConst then
        divByConst (proves a) (← state.visitExpr proves a) entryB.base false
      else return everything
    | .floorDiv => do
      let entryB ← state.visitExpr proves b
      if entryB.isConst then
        divByConst (proves a) (← state.visitExpr proves a) entryB.base true
      else return everything
    | .mod => do
      let entryB ← state.visitExpr proves b
      if entryB.isConst then
        modByConst (proves a) (← state.visitExpr proves a) entryB.base false
      else return everything
    | .floorMod => do
      let entryB ← state.visitExpr proves b
      if entryB.isConst then
        modByConst (proves a) (← state.visitExpr proves a) entryB.base true
      else return everything
    | .shiftRight => do
      let entryB ← state.visitExpr proves b
      if entryB.isConst then
        visitRightShift (proves a) (← state.visitExpr proves a) entryB.base
      else return everything
    | .bitwiseAnd => do
      let entryB ← state.visitExpr proves b
      if entryB.isConst then
        match ← maskWidth entryB.base with
        | some shift => visitBitwiseAnd (proves a) (← state.visitExpr proves a) shift
        | none => return everything
      else return everything
    | .shiftLeft | .eq | .ne | .lt | .le | .gt | .ge | .and | .or => .ok everything
  | .not _ => .ok everything
  | .select _ trueValue falseValue => do
    union (← state.visitExpr proves trueValue) (← state.visitExpr proves falseValue)
  | .letIn v value body =>
    match state v with
    | some _ => state.visitExpr proves body
    | none => do
      let entry ← state.visitExpr proves value
      visitExpr proves (Function.update state v (some entry)) body
  | .cast _ value => state.visitExpr proves value
  | .atom _ _ => .ok everything

def update (state : State) (v : Var) (coeff base : Int) (allowOverride : Bool) :
    Except Fault State := do
  ensure .check
    (allowOverride || (state v).all fun entry => entry.coeff = coeff ∧ entry.base = base)
  return Function.update state v (some (← Entry.make coeff base))

end State

structure Recovery where
  var : Var
  old : Entry

structure Fact where
  var : Var
  coeff : Int
  base : Int

def matchConstraint : PrimExpr → Option Fact
  | .binary .eq (.binary .mod (.var v) (.intImm _ coeff)) (.intImm _ base) => some ⟨v, coeff, base⟩
  | .binary .eq (.binary .floorMod (.var v) (.intImm _ coeff)) (.intImm _ base) =>
    some ⟨v, coeff, base⟩
  | .binary .eq (.var v) (.intImm _ base) => some ⟨v, 1, base⟩
  | .binary .eq (.intImm _ base) (.var v) => some ⟨v, 1, base⟩
  | _ => none

def State.updateByIntersect (state : State) (v : Var) (entry : Entry) :
    Except Fault (State × Recovery) := do
  let old := (state v).getD everything
  return (Function.update state v (some (← intersect old entry)), ⟨v, old⟩)

def State.enterConstraint (state : State) (constraint : PrimExpr) :
    Except Fault (State × Option Recovery) :=
  match matchConstraint constraint with
  | some fact => do
    let (inner, recovery) ← state.updateByIntersect fact.var (← Entry.make fact.coeff fact.base)
    return (inner, some recovery)
  | none => .ok (state, none)

def Recovery.run (recovery : Recovery) (state : State) : State :=
  Function.update state recovery.var (some recovery.old)

theorem enterConstraint_cases {state inner : State} {constraint : PrimExpr} {recovery : Option Recovery}
    (entered : state.enterConstraint constraint = .ok (inner, recovery)) :
    (matchConstraint constraint = none ∧ inner = state ∧ recovery = none) ∨
      ∃ fact known entry, matchConstraint constraint = some fact ∧
        Entry.make fact.coeff fact.base = .ok known ∧
        intersect ((state fact.var).getD everything) known = .ok entry ∧
        inner = Function.update state fact.var (some entry) ∧
        recovery = some ⟨fact.var, (state fact.var).getD everything⟩ := by
  unfold State.enterConstraint at entered
  split at entered
  next fact found =>
    simp only [State.updateByIntersect, bind_ok, Prod.exists] at entered
    obtain ⟨known, made, _, _, ⟨entry, common, rfl, rfl⟩, rfl, rfl⟩ := entered
    exact .inr ⟨fact, known, entry, found, made, common, rfl, rfl⟩
  next missing =>
    cases entered
    exact .inl ⟨missing, rfl, rfl⟩

end Tlm.Arith.ModularSet
