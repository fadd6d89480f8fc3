import Tlm.Shared.Worklist
import Tlm.Arith.Operators

set_option autoImplicit false

namespace Tlm.Arith

def CompareResult.reverse : CompareResult → CompareResult
  | .inconsistent => .inconsistent
  | .eq => .eq
  | .lt => .gt
  | .le => .ge
  | .gt => .lt
  | .ge => .le
  | .ne => .ne
  | .unknown => .unknown

namespace TransitiveComparison

abbrev Key := PrimExpr

-- `lhs OP rhs + offset`, where the operator is never `<` or `>`.
structure Comparison where
  lhs : Key
  rhs : Key
  offset : Int
  result : CompareResult
  normalized : result ≠ .lt ∧ result ≠ .gt
  deriving DecidableEq

def Comparison.make (lhs rhs : Key) (offset : Int) (result : CompareResult) : Comparison :=
  if less : result = .lt then ⟨lhs, rhs, offset - 1, .le, by decide⟩
  else if greater : result = .gt then ⟨lhs, rhs, offset + 1, .ge, by decide⟩
  else ⟨lhs, rhs, offset, result, less, greater⟩

def Comparison.withLHS (cmp : Comparison) (newLhs : Key) : Option Comparison :=
  if newLhs = cmp.lhs then some cmp
  else if newLhs = cmp.rhs then some (.make cmp.rhs cmp.lhs (-cmp.offset) cmp.result.reverse)
  else none

def Comparison.implies (cmp other : Comparison) : Bool :=
  (cmp.result = other.result ∧ cmp.offset = other.offset) ∨
  (other.result = .le ∧ cmp.offset ≤ other.offset ∧ (cmp.result = .eq ∨ cmp.result = .le)) ∨
  (other.result = .ge ∧ cmp.offset ≥ other.offset ∧ (cmp.result = .eq ∨ cmp.result = .ge)) ∨
  (other.result = .ne ∧
    (cmp.result = .eq ∧ cmp.offset ≠ other.offset ∨ cmp.result = .le ∧ cmp.offset < other.offset ∨
      cmp.result = .ge ∧ cmp.offset > other.offset))

def extractOffset : PrimExpr → PrimExpr × Int
  | .binary .add x (.intImm _ c) => (x, c)
  | .binary .sub x (.intImm _ c) => (x, -c)
  | .intImm _ c => (.intImm .int32 0, c)
  | e => (e, 0)

def resultOf : BinOp → Option CompareResult
  | .le => some .le
  | .ge => some .ge
  | .lt => some .lt
  | .gt => some .gt
  | .eq => some .eq
  | .ne => some .ne
  | _ => none

def fromExpr : PrimExpr → Option Comparison
  | .binary op x y =>
    if x.asIntImm.isSome ∧ y.asIntImm.isSome then none
    else
      let lhs := extractOffset x
      let rhs := extractOffset y
      (resultOf op).map (.make lhs.1 rhs.1 (rhs.2 - lhs.2))
  | _ => none

structure State where
  registered : List Key
  prevBindings : Var → Option Range
  knowns : List Comparison
  scopedKnowns : List Comparison

def State.empty : State := ⟨[], fun _ => none, [], []⟩

section

-- `SideEffect(expr) <= CallEffectKind::kPure`.
variable (isPure : PrimExpr → Bool)

-- `AddKnown`: the comparisons that are added.
def comparisonsOf (e : PrimExpr) : List Comparison :=
  if isPure e then (extractConstraints e).filterMap fromExpr else []

-- `ExprToKey`, for both sides of each comparison.
def State.register (state : State) (comparisons : List Comparison) : State :=
  { state with registered := state.registered ++ comparisons.flatMap fun cmp => [cmp.lhs, cmp.rhs] }

def State.addKnown (state : State) (e : PrimExpr) : State :=
  let comparisons := comparisonsOf isPure e
  { state.register comparisons with knowns := state.knowns ++ comparisons }

def State.forget (state : State) (v : Var) (range : Range) (allowOverride : Bool) :
    Folding State :=
  match state.prevBindings v with
  | none => return state
  | some previous =>
    if previous = range then return state
    else if allowOverride then
      return { state with
        knowns := if .var v ∈ state.registered then state.knowns.filter (·.lhs ≠ .var v)
          else state.knowns }
    else Traced.fail .check

def State.bind (state : State) (v : Var) (range : Range) (allowOverride : Bool) :
    Folding State := do
  let state ← state.forget v range allowOverride
  let state := { state with prevBindings := Function.update state.prevBindings v (some range) }
  if range.extent.asIntImm = some 1 then
    return state.addKnown isPure (← binaryOp .eq (.var v) range.min)
  else
    let state := state.addKnown isPure (← binaryOp .ge (.var v) range.min)
    return state.addKnown isPure (← binaryOp .lt (.var v) (← binaryOp .add range.min range.extent))

def State.enterConstraint (state : State) (constraint : PrimExpr) : State :=
  let comparisons := comparisonsOf isPure constraint
  { state.register comparisons with scopedKnowns := state.scopedKnowns ++ comparisons }

end

structure Search where
  seen : List Key
  toVisit : List Key
  compared : Key → List Comparison

abbrev Arrangement := (keys : List Key) → { arranged : List Key // arranged.Perm keys }

section

def replaceWeaker (cmp : Comparison) : List Comparison → List Comparison
  | [] => [cmp]
  | previous :: rest =>
    if cmp.implies previous then cmp :: rest else previous :: replaceWeaker cmp rest

variable (lhsKey rhsKey : Key)

def Search.declareKnown (search : Search) (cmp : Comparison) : Search :=
  let knowns := search.compared cmp.rhs
  if knowns.any (·.implies cmp) then search
  else
    let isNew := cmp.rhs ≠ rhsKey ∧ cmp.rhs ∉ search.seen
    { seen := if isNew then cmp.rhs :: search.seen else search.seen
      toVisit := if isNew then cmp.rhs :: search.toVisit else search.toVisit
      compared := Function.update search.compared cmp.rhs (replaceWeaker cmp knowns) }

def Search.declareAll (search : Search) (comparisons : List Comparison) : Search :=
  comparisons.foldl (Search.declareKnown rhsKey) search

-- `lhs OP1 middle + c1` and `middle OP2 right + c2` as one comparison.
def combine (previous cmp : Comparison) : Option Comparison :=
  let offset := previous.offset + cmp.offset
  if previous.result = .eq then
    if cmp.result = .unknown then none else some (.make lhsKey cmp.rhs offset cmp.result)
  else if cmp.result = .eq then
    if previous.result = .unknown then none else some (.make lhsKey cmp.rhs offset previous.result)
  else if previous.result = cmp.result ∧ (previous.result = .le ∨ previous.result = .ge) then
    some (.make lhsKey cmp.rhs offset previous.result)
  else none

def attemptTransitive (previous : List Comparison) (cmp : Comparison) : List Comparison :=
  if cmp.rhs = lhsKey then [] else previous.filterMap (combine lhsKey · cmp)

variable (knowns : List Comparison)

def Search.visit (middle : Key) (search : Search) : Search :=
  let transitive := (knowns.filterMap (·.withLHS middle)).flatMap
    (attemptTransitive lhsKey (search.compared middle))
  search.declareAll rhsKey transitive

def Search.take (arrange : Arrangement) (search : Search) : Option (Key × Search) :=
  match (arrange search.toVisit).val with
  | [] => none
  | middle :: rest => some (middle, { search with toVisit := rest })

def sidesOf (knowns : List Comparison) : List Key :=
  knowns.flatMap fun cmp => [cmp.lhs, cmp.rhs]

def Search.start : Search :=
  Search.declareAll rhsKey ⟨[], [], fun _ => []⟩ (knowns.filterMap (·.withLHS lhsKey))

def dfsFromLHS (arrange : Arrangement) : List Comparison :=
  let search := Worklist.drain (Search.take arrange) (Search.visit lhsKey rhsKey knowns)
    (sidesOf knowns).length (Search.start lhsKey rhsKey knowns)
  search.compared rhsKey

def collectDirectComparisons : List Comparison :=
  (knowns.filterMap (·.withLHS lhsKey)).filter (·.rhs = rhsKey)

def collectIndirectComparisons (arrange : Arrangement) : List Comparison :=
  dfsFromLHS lhsKey rhsKey knowns arrange ++
    (dfsFromLHS rhsKey lhsKey knowns arrange).filterMap (·.withLHS lhsKey)

end

def mergeComparison (offset : Int) (result : CompareResult) (cmp : Comparison) : CompareResult :=
  match cmp.result with
  | .inconsistent => .inconsistent
  | .eq => if offset = cmp.offset then result &&& .eq else result &&& .ne
  | .le =>
    if cmp.offset < offset then result &&& .lt
    else if cmp.offset ≤ offset then result &&& .le
    else result
  | .ge =>
    if cmp.offset > offset then result &&& .gt
    else if cmp.offset ≥ offset then result &&& .ge
    else result
  | .ne => if offset = cmp.offset then result &&& .ne else result
  -- The last two are excluded.
  | .unknown | .lt | .gt => result

def mergeComparisons (comparisons : List Comparison) (offset : Int) : CompareResult :=
  comparisons.foldl (mergeComparison offset) .unknown

def State.tryCompare (arrange : Arrangement) (state : State) (lhsExpr rhsExpr : PrimExpr)
    (propagateInequalities : Bool) : CompareResult :=
  if ¬(lhsExpr.dtype.isInt ∧ rhsExpr.dtype.isInt) then .unknown
  else
    match lhsExpr.asIntImm, rhsExpr.asIntImm with
    | some x, some y => if x < y then .lt else if y < x then .gt else .eq
    | _, _ =>
      let lhs := extractOffset lhsExpr
      let rhs := extractOffset rhsExpr
      if lhs.1 ∈ state.registered ∧ rhs.1 ∈ state.registered then
        let knowns := state.knowns ++ state.scopedKnowns
        let comparisons :=
          if propagateInequalities then collectIndirectComparisons lhs.1 rhs.1 knowns arrange
          else collectDirectComparisons lhs.1 rhs.1 knowns
        mergeComparisons comparisons (rhs.2 - lhs.2)
      else .unknown

structure Scope where
  constraint : PrimExpr
  oldSize : Nat
  newSize : Nat
  active : Bool

structure Session where
  state : State
  scopes : List Scope

inductive Operation where
  | bind (v : Var) (range : Range) (allowOverride : Bool)
  | enter (constraint : PrimExpr)
  -- The recovery function of a scope, counted from the first one.
  | exit (scope : Nat)

section

variable (isPure : PrimExpr → Bool)

def Session.start : Session := ⟨State.empty, []⟩

def Session.exit (session : Session) (index : Nat) : Folding Session :=
  match session.scopes[index]? with
  | none => return session
  | some scope =>
    if session.state.scopedKnowns.length = scope.newSize then
      return {
        state := { session.state with
          scopedKnowns := session.state.scopedKnowns.take scope.oldSize }
        scopes := session.scopes.set index { scope with active := false } }
    else Traced.fail .check

def Session.step (session : Session) : Operation → Folding Session
  | .bind v range allowOverride => do
    return { session with state := ← session.state.bind isPure v range allowOverride }
  | .enter constraint =>
    let entered := session.state.enterConstraint isPure constraint
    return {
      state := entered
      scopes := session.scopes ++
        [⟨constraint, session.state.scopedKnowns.length, entered.scopedKnowns.length, true⟩] }
  | .exit index => session.exit index

def Session.run (session : Session) : List Operation → Folding Session
  | [] => return session
  | operation :: rest => do
    let next ← session.step isPure operation
    next.run rest

end

end TransitiveComparison

end Tlm.Arith
