import Tlm.Arith.Expr
import Tlm.Arith.IntOperator

set_option autoImplicit false

namespace Tlm.Arith.ConstIntBound

open Cpp

def kPosInf : Int := 2 ^ 63 - 1

def kNegInf : Int := -kPosInf

structure Entry where
  minValue : Int
  maxValue : Int
  deriving DecidableEq, Repr

def Entry.isConst (entry : Entry) (value : Int) : Bool :=
  entry.minValue = entry.maxValue ∧ entry.minValue = value

structure BoundInfo where
  expr : PrimExpr
  bound : Entry

structure State where
  varMap : Var → Option Entry
  additionalInfo : List BoundInfo

def infAwareAdd (x y : Int) : Except Fault Int :=
  if x = kPosInf then do
    ensure .check (y ≠ kNegInf)
    return kPosInf
  else if x = kNegInf then do
    ensure .check (y ≠ kPosInf)
    return kNegInf
  else if y = kPosInf ∨ y = kNegInf then .ok y
  else if willOverflowAdd x y kNegInf kPosInf then .ok (if 0 < x then kPosInf else kNegInf)
  else int64 (x + y)

def infAwareMul (x y : Int) : Except Fault Int :=
  if willOverflowMul x y kNegInf kPosInf = false then int64 (x * y)
  else if (0 < x ∧ 0 < y) ∨ (x < 0 ∧ y < 0) then .ok kPosInf
  else .ok kNegInf

-- `InfAwareDiv` and `InfAwareFloorDiv`; both evaluate `x / y`.
def infAwareDivide (divide : Int → Int → Int) (x y : Int) : Except Fault Int := do
  ensure .check (y ≠ 0)
  if x = kPosInf ∨ x = kNegInf then return if 0 < y then x else -x
  else
    let _ ← int64 (x.tdiv y)
    int64 (divide x y)

def infAwareDiv : Int → Int → Except Fault Int :=
  infAwareDivide Int.tdiv

def infAwareFloorDiv : Int → Int → Except Fault Int :=
  infAwareDivide floordiv

def bitWidth (value : Int) : Nat :=
  Nat.size value.natAbs

def infAwareLeftShift (x y : Int) : Except Fault Int :=
  if x = kPosInf ∨ x = kNegInf then .ok x
  else do
    let _ ← int64 |x|
    if (← int64 (bitWidth x + y)) < 64 then
      ensure .undefined (0 ≤ x ∧ 0 ≤ y)
      int64 (x * 2 ^ y.toNat)
    else return kPosInf

def infAwareRightShift (x y : Int) : Except Fault Int :=
  if x = kPosInf ∨ x = kNegInf then .ok x
  else do
    ensure .undefined (0 ≤ y ∧ y < 64)
    int64 (x.fdiv (2 ^ y.toNat))

def neg (x : Int) : Except Fault Int :=
  int64 (-x)

def makeBound (minValue maxValue : Int) : Entry :=
  ⟨if minValue = kPosInf then minValue - 1 else minValue,
    if maxValue = kNegInf then maxValue + 1 else maxValue⟩

def union (a b : Entry) : Entry :=
  ⟨min a.minValue b.minValue, max a.maxValue b.maxValue⟩

def intersect (a b : Entry) : Entry :=
  ⟨max a.minValue b.minValue, min a.maxValue b.maxValue⟩

def everything (dtype : DataType) : Entry :=
  if !dtype.isInt ∧ !dtype.isUInt then makeBound kNegInf kPosInf
  else
    let vbits := dtype.bits - if dtype.isInt then 1 else 0
    ⟨if dtype.isUInt then 0 else if 63 ≤ vbits then kNegInf else -2 ^ vbits,
      if 63 ≤ vbits then kPosInf else 2 ^ vbits - 1⟩

def binaryOpBoundary (op : Int → Int → Except Fault Int) (a b : Entry) : Except Fault Entry := do
  let v1 ← op a.minValue b.minValue
  let v2 ← op a.maxValue b.maxValue
  let v3 ← op a.minValue b.maxValue
  let v4 ← op a.maxValue b.minValue
  return ⟨min (min (min v1 v2) v3) v4, max (max (max v1 v2) v3) v4⟩

def handleDivision (op : Int → Int → Except Fault Int) (dtype : DataType) (a b : Entry) :
    Except Fault Entry :=
  if b.minValue ≤ 0 ∧ 0 ≤ b.maxValue ∧ dtype.isInt then do
    let bNeg := if b.minValue < 0 then makeBound b.minValue (-1) else everything dtype
    let bPos := if 0 < b.maxValue then makeBound 1 b.maxValue else everything dtype
    let eNeg ← binaryOpBoundary op a bNeg
    let ePos ← binaryOpBoundary op a bPos
    return makeBound (min eNeg.minValue ePos.minValue) (max eNeg.maxValue ePos.maxValue)
  else if b.minValue = 0 ∧ dtype.isUInt then binaryOpBoundary op a (makeBound 1 b.maxValue)
  else binaryOpBoundary op a b

def visitAdd (_ : DataType) (a b : Entry) : Except Fault Entry := do
  return ⟨← infAwareAdd a.minValue b.minValue, ← infAwareAdd a.maxValue b.maxValue⟩

def visitSub (_ : DataType) (a b : Entry) : Except Fault Entry := do
  let minValue ← infAwareAdd a.minValue (← neg b.maxValue)
  let maxValue ← infAwareAdd a.maxValue (← neg b.minValue)
  return ⟨minValue, maxValue⟩

def visitMul (_ : DataType) : Entry → Entry → Except Fault Entry :=
  binaryOpBoundary infAwareMul

def visitDiv (dtype : DataType) (a b : Entry) : Except Fault Entry := do
  ensure .check (!b.isConst 0)
  handleDivision infAwareDiv dtype a b

def visitFloorDiv (dtype : DataType) (a b : Entry) : Except Fault Entry := do
  ensure .check (!b.isConst 0)
  handleDivision infAwareFloorDiv dtype a b

def visitMod (dtype : DataType) (a b : Entry) : Except Fault Entry :=
  if 0 < b.minValue then do
    let bMaxCap ← infAwareAdd b.maxValue (-1)
    if 0 ≤ a.minValue then
      if a.maxValue < b.minValue then return a else return makeBound 0 (min a.maxValue bMaxCap)
    else return makeBound (max a.minValue (← neg bMaxCap)) (min (max a.maxValue 0) bMaxCap)
  else do
    ensure .check (!b.isConst 0)
    return everything dtype

def visitFloorMod (dtype : DataType) (a b : Entry) : Except Fault Entry :=
  if 0 < b.minValue then do
    let bMaxCap ← infAwareAdd b.maxValue (-1)
    if 0 ≤ a.minValue then
      if a.maxValue < b.minValue then return a else return makeBound 0 (min a.maxValue bMaxCap)
    else return makeBound 0 bMaxCap
  else do
    ensure .check (!b.isConst 0)
    let bMinCap ← infAwareAdd b.minValue 1
    let bMaxCap ← infAwareAdd b.maxValue (-1)
    return intersect (makeBound (min 0 bMinCap) (max 0 bMaxCap)) (everything dtype)

def visitMin (_ : DataType) (a b : Entry) : Except Fault Entry :=
  .ok ⟨min a.minValue b.minValue, min a.maxValue b.maxValue⟩

def visitMax (_ : DataType) (a b : Entry) : Except Fault Entry :=
  .ok ⟨max a.minValue b.minValue, max a.maxValue b.maxValue⟩

def visitLeftShift (dtype : DataType) (a b : Entry) : Except Fault Entry :=
  if a.minValue < 0 ∨ b.minValue < 0 then .ok (everything dtype)
  else binaryOpBoundary infAwareLeftShift a b

def visitRightShift (_ : DataType) : Entry → Entry → Except Fault Entry :=
  binaryOpBoundary infAwareRightShift

def visitBitwiseAnd (dtype : DataType) (a b : Entry) : Except Fault Entry :=
  if 0 ≤ a.minValue ∧ 0 ≤ b.minValue then .ok (makeBound 0 (min a.maxValue b.maxValue))
  else if 0 ≤ b.minValue then .ok (makeBound 0 b.maxValue)
  else if 0 ≤ a.minValue then .ok (makeBound 0 a.maxValue)
  else .ok (everything dtype)

-- The operators whose operands are visited; the others are left to `VisitExprDefault_`.
def visitor : BinOp → Option (DataType → Entry → Entry → Except Fault Entry)
  | .add => some visitAdd
  | .sub => some visitSub
  | .mul => some visitMul
  | .div => some visitDiv
  | .mod => some visitMod
  | .floorDiv => some visitFloorDiv
  | .floorMod => some visitFloorMod
  | .min => some visitMin
  | .max => some visitMax
  | .shiftLeft => some visitLeftShift
  | .shiftRight => some visitRightShift
  | .bitwiseAnd => some visitBitwiseAnd
  | .eq | .ne | .lt | .le | .gt | .ge | .and | .or => none

namespace State

def set (state : State) (v : Var) (entry : Option Entry) : State :=
  { state with varMap := Function.update state.varMap v entry }

def refine (state : State) (expr : PrimExpr) (entry : Entry) : Entry :=
  state.additionalInfo.foldl
    (fun entry info => if expr = info.expr then intersect entry info.bound else entry) entry

def visitVar (state : State) (v : Var) : Entry :=
  match state.varMap v with
  | some entry => entry
  | none => if v.isSize then makeBound 0 kPosInf else everything v.dtype

def visitExpr (state : State) : PrimExpr → Except Fault Entry
  | .var v => .ok (state.refine (.var v) (state.visitVar v))
  | .intImm dtype value => .ok (state.refine (.intImm dtype value) (makeBound value value))
  | .binary op a b =>
    match visitor op with
    | some visit => do
      let entryA ← state.visitExpr a
      let entryB ← state.visitExpr b
      let entry ← visit a.dtype entryA entryB
      return state.refine (.binary op a b) entry
    | none => .ok (state.refine (.binary op a b) (everything .bool))
  | .not a => .ok (state.refine (.not a) (everything .bool))
  | .select condition trueValue falseValue => do
    let a ← state.visitExpr trueValue
    let b ← state.visitExpr falseValue
    return state.refine (.select condition trueValue falseValue) (union a b)
  | .letIn v value body =>
    match state.varMap v with
    | some _ => do return state.refine (.letIn v value body) (← state.visitExpr body)
    | none => do
      let bound ← state.visitExpr value
      return state.refine (.letIn v value body) (← (state.set v bound).visitExpr body)
  | .cast dtype value => do
    let a ← state.visitExpr value
    return state.refine (.cast dtype value) (intersect a (everything dtype))
  | .atom dtype id => .ok (state.refine (.atom dtype id) (everything dtype))

def updateEntry (state : State) (v : Var) (info : Entry) (allowOverride : Bool) :
    Except Fault State := do
  ensure .check (allowOverride || (state.varMap v).all (· = info))
  return state.set v info

def update (state : State) (v : Var) (minValue maxValue : Int) (allowOverride : Bool) :
    Except Fault State :=
  state.updateEntry v (makeBound minValue maxValue) allowOverride

def bind (state : State) (v : Var) (rangeMin extent : PrimExpr) (allowOverride : Bool) :
    Except Fault State := do
  let a ← state.visitExpr rangeMin
  let b ← state.visitExpr extent
  let maxValue ← infAwareAdd a.maxValue (← infAwareAdd b.maxValue (-1))
  state.updateEntry v ⟨a.minValue, maxValue⟩ allowOverride

end State

-- `ExtractConstraints`, which keeps the conjunctions themselves.
def extractConstraints : PrimExpr → List PrimExpr
  | .binary .and a b => .binary .and a b :: (extractConstraints a ++ extractConstraints b)
  | e => [e]

def addInfo (expr : PrimExpr) (minValue maxValue : Int) : List BoundInfo :=
  match expr with
  | .intImm _ _ => []
  | _ => [⟨expr, makeBound minValue maxValue⟩]

-- The patterns in the order of the source; the first that matches decides.
def detectPart : PrimExpr → Except Fault (List BoundInfo)
  | .binary .le (.intImm _ c) x => .ok (addInfo x c kPosInf)
  | .binary .ge x (.intImm _ c) => .ok (addInfo x c kPosInf)
  | .binary .lt (.intImm _ c) x => do return addInfo x (← int64 (c + 1)) kPosInf
  | .binary .gt x (.intImm _ c) => do return addInfo x (← int64 (c + 1)) kPosInf
  | .binary .le x (.intImm _ c) => .ok (addInfo x kNegInf c)
  | .binary .lt x (.intImm _ c) => do return addInfo x kNegInf (← int64 (c - 1))
  | .binary .gt (.intImm _ c) x => do return addInfo x kNegInf (← int64 (c - 1))
  | .binary .eq x (.intImm _ c) => .ok (addInfo x c c)
  | .binary .eq (.intImm _ c) x => .ok (addInfo x c c)
  | _ => .ok []

def detectBoundInfo (condition : PrimExpr) : Except Fault (List BoundInfo) := do
  return (← (extractConstraints condition).mapM detectPart).flatten

def State.enterConstraint (state : State) (constraint : PrimExpr) : Except Fault State := do
  return { state with additionalInfo := state.additionalInfo ++ (← detectBoundInfo constraint) }

def State.recover (state : State) (oldSize newSize : Nat) : Except Fault State := do
  ensure .check (state.additionalInfo.length = newSize)
  return { state with additionalInfo := state.additionalInfo.take oldSize }

end Tlm.Arith.ConstIntBound
