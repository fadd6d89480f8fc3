import Tlm.Arith.RewriteAnalysis
import Tlm.Arith.RewriteLogicRules

set_option autoImplicit false

namespace Tlm.Arith.RewriteSimplifier

open Traced

-- A constraint of the context. While it is being simplified, it has been entered only in the analyzers
-- that come before the simplifier.
structure Entered where
  constraint : PrimExpr
  complete : Bool
  deriving DecidableEq, Repr

structure Analyzer where
  dtype : DataType
  varMap : Var → Option PrimExpr
  queries : List Entered → Nat → Queries
  -- `kApplyConstraintsToBooleanBranches`.
  applyConstraints : Bool

structure State where
  scope : List Entered
  literals : List PrimExpr

def kMaxRecurDepth : Nat := 5

def indexSteps : BinOp → List Step
  | .add => addRules.map Rule.apply
  | .sub => subRules.map Rule.apply
  | .mul => mulRules.map Rule.apply
  | .div => divRules.map Rule.apply
  | .mod => modRules.map Rule.apply ++ [modModular]
  | .floorDiv =>
    floorDivNested.map Rule.apply ++ [floorDivResidue] ++
      (floorDivSplit ++ floorDivCancellation).map Rule.apply
  | .floorMod => floorModRules.map Rule.apply ++ [floorModAnalysis]
  | .min => minSame.map Rule.apply ++ [minBounds] ++ minRules.map Rule.apply
  | .max => maxSame.map Rule.apply ++ [maxBounds] ++ maxRules.map Rule.apply
  | _ => []

section

variable (queries : Queries) (dtype : DataType) (again : PrimExpr → Folding PrimExpr)

-- `again` is `RecursiveRewrite`.
def applySteps (steps : List Step) (e : PrimExpr) : Folding PrimExpr := do
  match ← firstOf steps queries dtype e with
  | some outcome => if outcome.recursive then again outcome.expr else return outcome.expr
  | none => return e

def rewriteIndex (op : BinOp) (a b : PrimExpr) : Folding PrimExpr := do
  match ← tryConstFold queries.sameAs op a b with
  | some e => return e
  | none =>
    if a.dtype.isIndexType then applySteps queries dtype again (indexSteps op) (.binary op a b)
    else return .binary op a b

def visitIndex (varMap : Var → Option PrimExpr) : PrimExpr → Folding PrimExpr
  | .var v => return (varMap v).getD (.var v)
  | .binary op a b => do
    rewriteIndex queries dtype again op (← visitIndex varMap a) (← visitIndex varMap b)
  | e => return e

end

def visitIndexAt (dtype : DataType) (varMap : Var → Option PrimExpr) (queries : Nat → Queries) :
    Nat → PrimExpr → Folding PrimExpr
  | 0 => visitIndex (queries 0) dtype pure varMap
  | n + 1 => visitIndex (queries (n + 1)) dtype (visitIndexAt dtype varMap queries n) varMap

def decided (truth : Bool) : PrimExpr :=
  .intImm .bool truth.toInt

-- `TryCompare` with a constant, once the expression has been visited.
def compareValue (queries : Queries) (diff : PrimExpr) (val : Int) : CompareResult :=
  match diff.asIntImm with
  | some value => if value = val then .eq else if val < value then .gt else .lt
  | none =>
    let dbound := queries.constIntBound diff
    if dbound.minValue = val ∧ dbound.maxValue = val then .eq
    else if val < dbound.minValue then .gt
    else if dbound.maxValue < val then .lt
    else if val ≤ dbound.minValue then .ge
    else if dbound.maxValue ≤ val then .le
    else if val = 0 ∧ (queries.modularSet diff).base ≠ 0 then .ne
    else .unknown

def extractConstantOffset : PrimExpr → PrimExpr × Int
  | .binary .add x (.intImm _ c1) => (x, c1)
  | .binary .sub x (.intImm _ c1) => (x, -c1)
  | .binary .sub (.intImm _ c1) x => (x, c1)
  | e => (e, 0)

def mergeConstants : Step := fun queries dtype e =>
  match e with
  | .binary .lt a b =>
    let (lhs, lhsOffset) := extractConstantOffset a
    let (rhs, rhsOffset) := extractConstantOffset b
    let diff := rhsOffset - lhsOffset
    if lhsOffset = 0 ∧ rhsOffset = 0 then return none
    else do
      -- The offsets are `int64_t`.
      bounded lhsOffset
      bounded rhsOffset
      bounded diff
      if diff = 0 then return some ⟨← build queries.sameAs .lt lhs rhs, true⟩
      else if diff = 1 then return some ⟨← build queries.sameAs .le lhs rhs, true⟩
      else if diff < 0 ∧ rhsOffset ≠ 0 then
        let moved ← build queries.sameAs .add lhs (← makeConst dtype (-diff))
        return some ⟨← build queries.sameAs .lt moved rhs, true⟩
      else if 0 < diff ∧ lhsOffset ≠ 0 then
        let moved ← build queries.sameAs .add rhs (← makeConst dtype diff)
        return some ⟨← build queries.sameAs .lt lhs moved, true⟩
      else return none
  | _ => return none

def notNot : Step := fun _ _ e =>
  match e with
  | .not (.not a) => return some ⟨a, false⟩
  | _ => return none

section

variable (queries : Queries) (dtype : DataType) (visit again : PrimExpr → Folding PrimExpr)

def tryCompare (x y : PrimExpr) : Folding CompareResult := attempt (· ≠ .unknown) do
  let diff ← visit (← build queries.sameAs .sub x y)
  let output := compareValue queries diff 0
  if output = .eq ∨ output = .lt ∨ output = .gt then return output
  else return output &&& queries.knownInequality x y

def applyRewriteRulesLT (a b : PrimExpr) : Folding PrimExpr :=
  if a.dtype.isIndexType then do
    let result ← tryCompare queries visit a b
    if result = .lt then return decided true
    else if result = .eq ∨ result = .gt ∨ result = .ge then return decided false
    else
      applySteps queries dtype again (ltRules.map Rule.apply ++ [mergeConstants]) (.binary .lt a b)
  else return .binary .lt a b

def applyRewriteRulesEQ (a b : PrimExpr) : Folding PrimExpr :=
  if a.dtype.isIndexType then do
    let result ← tryCompare queries visit a b
    if result = .eq then return decided true
    else if result = .ne ∨ result = .gt ∨ result = .lt then return decided false
    else applySteps queries dtype again (eqRules.map Rule.apply) (.binary .eq a b)
  else return .binary .eq a b

def applyRewriteRulesNot (a : PrimExpr) : Folding PrimExpr :=
  applySteps queries dtype again (notNot :: notRules.map Rule.apply) (.not a)

def applyRewriteRulesNE (a b : PrimExpr) : Folding PrimExpr := do
  let fallback := do
    applyRewriteRulesNot queries dtype again (← applyRewriteRulesEQ queries dtype visit again a b)
  if a.dtype.isIndexType then
    let result ← tryCompare queries visit a b
    if result = .ne ∨ result = .gt ∨ result = .lt then return decided true
    else if result = .eq then return decided false
    else if result = .ge then applyRewriteRulesLT queries dtype visit again b a
    else if result = .le then applyRewriteRulesLT queries dtype visit again a b
    else fallback
  else fallback

-- The rules come first, and only a remaining `<=` is compared.
def applyRewriteRulesLE (a b : PrimExpr) : Folding PrimExpr := do
  let negated ← applyRewriteRulesLT queries dtype visit again b a
  match ← applyRewriteRulesNot queries dtype again negated with
  | .binary .le a b =>
    if a.dtype.isIndexType then
      let result ← tryCompare queries visit a b
      if result = .le ∨ result = .lt ∨ result = .eq then return decided true
      else if result = .gt then return decided false
      else if result = .ne then applyRewriteRulesLT queries dtype visit again a b
      else if result = .ge then applyRewriteRulesEQ queries dtype visit again a b
      else return .binary .le a b
    else return .binary .le a b
  | e => return e

-- `TryMatchLiteralConstraint`.
def tryMatchLiteralConstraint (literals : List PrimExpr) (e : PrimExpr) : Option PrimExpr :=
  literals.findSome? fun constraint =>
    if constraint = e then some (decided true)
    else if constraint = .not e then some (decided false)
    else none

def visitComparison (literals : List PrimExpr) (op : BinOp) (a b : PrimExpr) :
    Folding PrimExpr := do
  let a ← visit a
  let b ← visit b
  match ← tryConstFold queries.sameAs op a b with
  | some e => return e
  | none =>
    match tryMatchLiteralConstraint literals (.binary op a b) with
    | some e => return e
    | none =>
      match op with
      | .eq => applyRewriteRulesEQ queries dtype visit again a b
      | .ne => applyRewriteRulesNE queries dtype visit again a b
      | .lt => applyRewriteRulesLT queries dtype visit again a b
      | .le => applyRewriteRulesLE queries dtype visit again a b
      | _ => return .binary op a b

-- `a > b` is visited as `b < a`, and `a >= b` as `b <= a`.
def visitSwapped (literals : List PrimExpr) (op : BinOp) (a b : PrimExpr) : Folding PrimExpr := do
  match ← build queries.sameAs op b a with
  | .binary _ x y => visitComparison queries dtype visit again literals op x y
  | e => return e

end

mutual

def normalizeBooleanOperators (sameAs : PrimExpr → PrimExpr → Bool) : PrimExpr → Folding PrimExpr
  | .not a => normalizeNot sameAs a
  | .binary .ge a b => build sameAs .le b a
  | .binary .gt a b => build sameAs .lt b a
  | e => return e

-- The normal form of `Not(a)`.
def normalizeNot (sameAs : PrimExpr → PrimExpr → Bool) : PrimExpr → Folding PrimExpr
  | .not a => normalizeBooleanOperators sameAs a
  | .binary .or a b => do
    build sameAs .and (← (foldNot a).elim (normalizeNot sameAs a) pure)
      (← (foldNot b).elim (normalizeNot sameAs b) pure)
  | .binary .and a b => do
    build sameAs .or (← (foldNot a).elim (normalizeNot sameAs a) pure)
      (← (foldNot b).elim (normalizeNot sameAs b) pure)
  | .binary .lt a b => build sameAs .le b a
  | .binary .gt a b => build sameAs .le a b
  | .binary .le a b => build sameAs .lt b a
  | .binary .ge a b => build sameAs .lt a b
  | .binary .eq a b => build sameAs .ne a b
  | .binary .ne a b => build sameAs .eq a b
  | e => return .not e

end

def literalsOf (sameAs : PrimExpr → PrimExpr → Bool) : List PrimExpr → Folding (List PrimExpr)
  | [] => return []
  | part :: rest => do
    let negation ← normalizeBooleanOperators sameAs (.not part)
    return part :: .not negation :: (← literalsOf sameAs rest)

section

variable (analyzer : Analyzer) (depth : Nat) (revisit again : PrimExpr → State → Folding PrimExpr)

def State.queries (state : State) : Queries :=
  analyzer.queries state.scope depth

-- `With<ConstraintContext>`. The constraint is simplified when the first analyzers know it.
def enterConstraint (state : State) (constraint : PrimExpr) : Folding State := do
  let simplified ← revisit constraint { state with scope := ⟨constraint, false⟩ :: state.scope }
  let literals ←
    literalsOf (state.queries analyzer depth).sameAs (extractConstraints simplified)
  return ⟨⟨constraint, true⟩ :: state.scope, state.literals ++ literals⟩

def branchConstraint (state : State) (op : BinOp) (other : PrimExpr) : Folding PrimExpr :=
  match op with
  | .or => normalizeBooleanOperators (state.queries analyzer depth).sameAs (.not other)
  | _ => return other

def enterBranch (state : State) (op : BinOp) (other : PrimExpr) : Folding State := do
  enterConstraint analyzer depth revisit state (← branchConstraint analyzer depth state op other)

def visitBranches (state : State) (op : BinOp) (a b : PrimExpr)
    (visitA visitB : State → Folding PrimExpr) : Folding (PrimExpr × PrimExpr) := do
  let sameAs := (state.queries analyzer depth).sameAs
  let enter := enterBranch analyzer depth revisit state op
  let a₁ ← visitA (← enter b)
  let b₁ ← visitB (← enter a₁)
  if sameAs a a₁ ∧ sameAs b b₁ then return (a₁, b₁)
  else
    let a₂ ← revisit a₁ (← enter b₁)
    if sameAs b b₁ ∧ sameAs a₁ a₂ then return (a₂, b₁)
    else
      let b₂ ← revisit b₁ (← enter a₂)
      return (a₂, b₂)

def applyRewriteRulesLogic (state : State) (op : BinOp) (rules : List Rule) (a b : PrimExpr) :
    Folding PrimExpr := do
  let queries := state.queries analyzer depth
  match ← tryConstFold queries.sameAs op a b with
  | some e => return e
  | none =>
    match tryMatchLiteralConstraint state.literals (.binary op a b) with
    | some e => return e
    | none =>
      applySteps queries analyzer.dtype (again · state) (rules.map Rule.apply) (.binary op a b)

def visitOperands (state : State) (op : BinOp) (a b : PrimExpr)
    (visitA visitB : State → Folding PrimExpr) : Folding (PrimExpr × PrimExpr) :=
  if analyzer.applyConstraints then visitBranches analyzer depth revisit state op a b visitA visitB
  else do return (← visitA state, ← visitB state)

def visitConnective (state : State) (op : BinOp) (rules : List Rule) (a b : PrimExpr)
    (visitA visitB : State → Folding PrimExpr) : Folding PrimExpr := do
  let (a, b) ← visitOperands analyzer depth revisit state op a b visitA visitB
  applyRewriteRulesLogic analyzer depth again state op rules a b

def visitNot (state : State) (a : PrimExpr) : Folding PrimExpr :=
  match foldNot a with
  | some e => return e
  | none =>
    match tryMatchLiteralConstraint state.literals (.not a) with
    | some e => return e
    | none =>
      applyRewriteRulesNot (state.queries analyzer depth) analyzer.dtype (again · state) a

-- One level of `VisitExpr`.
def visitExpr : PrimExpr → State → Folding PrimExpr
  | .not a, state => do
    visitNot analyzer depth again state (← visitExpr a state)
  | .binary op a b, state =>
    let queries := state.queries analyzer depth
    let index :=
      visitIndexAt analyzer.dtype analyzer.varMap (analyzer.queries state.scope) depth
    match op with
    | .and =>
      visitConnective analyzer depth revisit again state .and andRules a b (visitExpr a)
        (visitExpr b)
    | .or =>
      visitConnective analyzer depth revisit again state .or orRules a b (visitExpr a)
        (visitExpr b)
    | .gt => visitSwapped queries analyzer.dtype index (again · state) state.literals .lt a b
    | .ge => visitSwapped queries analyzer.dtype index (again · state) state.literals .le a b
    | .eq | .ne | .lt | .le =>
      visitComparison queries analyzer.dtype index (again · state) state.literals op a b
    | _ => index (.binary op a b)
  | e, state =>
    visitIndexAt analyzer.dtype analyzer.varMap (analyzer.queries state.scope) depth e

end

section

variable (analyzer : Analyzer)

def visitDepth (revisit : Nat → PrimExpr → State → Folding PrimExpr) :
    Nat → PrimExpr → State → Folding PrimExpr
  | 0 => visitExpr analyzer 0 (revisit 0) fun e _ => return e
  | n + 1 => visitExpr analyzer (n + 1) (revisit (n + 1)) (visitDepth revisit n)

-- `VisitExpr`. Visits under a constraint of what a visit has returned are followed to a depth of `fuel`.
def visit : Nat → Nat → PrimExpr → State → Folding PrimExpr
  | 0 => visitDepth analyzer fun _ e _ => return e
  | fuel + 1 => visitDepth analyzer (visit fuel)

-- `RewriteSimplifier::operator()`.
def simplify (fuel : Nat) (state : State) (e : PrimExpr) : Folding PrimExpr := do
  let sameAs := (analyzer.queries state.scope kMaxRecurDepth).sameAs
  let first ← visit analyzer fuel kMaxRecurDepth e state
  if sameAs first e then return e
  else
    let second ← visit analyzer fuel kMaxRecurDepth first state
    return if sameAs second first then first else second

end

end Tlm.Arith.RewriteSimplifier
