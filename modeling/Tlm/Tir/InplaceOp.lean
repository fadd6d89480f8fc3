import Mathlib.Logic.Function.Basic
import Tlm.Shared.Fault

set_option autoImplicit false

namespace Tlm.Tir.InplaceOp

open Cpp

variable {Var DType Op : Type}

mutual

inductive PrimExpr (Var DType Op : Type) where
  | var (v : Var) (dtype : DType)
  | op (op : Op) (dtype : DType) (args : PrimExprs Var DType Op)
  | load (buffer : Var) (dtype : DType) (indices : PrimExprs Var DType Op)
  deriving DecidableEq

inductive PrimExprs (Var DType Op : Type) where
  | nil
  | cons (head : PrimExpr Var DType Op) (tail : PrimExprs Var DType Op)
  deriving DecidableEq

end

def PrimExpr.dtype : PrimExpr Var DType Op → DType
  | .var _ dtype | .op _ dtype _ | .load _ dtype _ => dtype

def PrimExprs.size : PrimExprs Var DType Op → Nat
  | .nil => 0
  | .cons _ tail => tail.size + 1

inductive ForKind where
  | serial
  | parallel
  | vectorized
  | unrolled
  | threadBinding
  deriving DecidableEq, Repr

inductive AttrKey where
  | externScope
  | volatileScope
  | threadExtent
  | other
  deriving DecidableEq, Repr

inductive Stmt (Var DType Op : Type) where
  | store (buffer : Var) (indices : PrimExprs Var DType Op) (value : PrimExpr Var DType Op)
  | seq (first second : Stmt Var DType Op)
  | forLoop (loopVar : Var) (min extent : PrimExpr Var DType Op) (kind : ForKind)
      (body : Stmt Var DType Op)
  | ifThen (condition : PrimExpr Var DType Op) (thenCase : Stmt Var DType Op)
  | ifThenElse (condition : PrimExpr Var DType Op) (thenCase elseCase : Stmt Var DType Op)
  | whileLoop (condition : PrimExpr Var DType Op) (body : Stmt Var DType Op)
  | letStmt (v : Var) (value : PrimExpr Var DType Op) (body : Stmt Var DType Op)
  | attr (key : AttrKey) (node : Var) (value : PrimExpr Var DType Op) (body : Stmt Var DType Op)

section

variable [DecidableEq Var] [DecidableEq DType] [DecidableEq Op] (dst src : Var)

-- `result_` is false, and nothing more is visited.
def reject : Except Stop Unit :=
  .error .leave

-- A load from the source has the type and the indices of the store it is in.
def matchStore (store : Option (PrimExprs Var DType Op × DType)) (buffer : Var) (dtype : DType)
    (indices : PrimExprs Var DType Op) : Except Stop Unit :=
  if buffer ≠ src then .ok ()
  else
    match store with
    | none => reject
    | some (storeIndices, storeType) =>
      if storeType ≠ dtype then reject
      else if storeIndices.size ≠ indices.size then .error (.fault .check)
      else if storeIndices ≠ indices then reject
      else .ok ()

mutual

def visitExpr (store : Option (PrimExprs Var DType Op × DType)) (memNest : Nat) :
    PrimExpr Var DType Op → Except Stop Unit
  | .var v _ => if v = dst ∨ v = src then reject else return
  | .op _ _ args => visitExprs store memNest args
  | .load buffer dtype indices =>
    if buffer = dst ∨ memNest ≠ 0 then reject
    else do
      matchStore src store buffer dtype indices
      visitExprs store (memNest + 1) indices

def visitExprs (store : Option (PrimExprs Var DType Op × DType)) (memNest : Nat) :
    PrimExprs Var DType Op → Except Stop Unit
  | .nil => return
  | .cons head tail => do
    visitExpr store memNest head
    visitExprs store memNest tail

end

def visitStmt : Stmt Var DType Op → Except Stop Unit
  | .store buffer indices value => do
    visitExprs dst src none 1 indices
    visitExpr dst src (if buffer = dst then some (indices, value.dtype) else none) 0 value
  | .seq first second => do
    visitStmt first
    visitStmt second
  | .forLoop _ min extent _ body => do
    visitExpr dst src none 0 min
    visitExpr dst src none 0 extent
    visitStmt body
  | .ifThen condition thenCase => do
    visitExpr dst src none 0 condition
    visitStmt thenCase
  | .ifThenElse condition thenCase elseCase => do
    visitExpr dst src none 0 condition
    visitStmt thenCase
    visitStmt elseCase
  | .whileLoop condition body => do
    visitExpr dst src none 0 condition
    visitStmt body
  | .letStmt _ value body => do
    visitExpr dst src none 0 value
    visitStmt body
  | .attr key _ value body =>
    if key = .externScope ∨ key = .volatileScope then reject
    else do
      visitExpr dst src none 0 value
      visitStmt body

def check (stmt : Stmt Var DType Op) : Except Stop Unit :=
  match stmt with
  | .seq .. | .letStmt .. => reject
  | _ => visitStmt dst src stmt

end

structure Semantics (DType Op Value Location Cell : Type) where
  apply : Op → DType → List Value → Value
  locate : List Value → List Location
  gather : List Cell → Value
  lane : Value → Nat → Cell
  truth : Value → Bool
  iterations : Value → Value → List Value
  threads : Value → List Value

inductive Code (Var DType Op Value : Type) where
  | done
  | run (env : Var → Value) (stmt : Stmt Var DType Op)
  | seq (first second : Code Var DType Op Value)
  | par (left right : Code Var DType Op Value)

abbrev Memory (Var Location Cell : Type) := Var → Location → Cell

structure Config (Var DType Op Value Location Cell : Type) where
  code : Code Var DType Op Value
  memory : Memory Var Location Cell
  -- The stores so far, the latest last.
  stores : List (Var × Location)

section

variable {Value Location Cell : Type} [DecidableEq Var] [DecidableEq Location]
  (sem : Semantics DType Op Value Location Cell) (array : Var → Var)

mutual

def eval (memory : Memory Var Location Cell) (env : Var → Value) : PrimExpr Var DType Op → Value
  | .var v _ => env v
  | .op op dtype args => sem.apply op dtype (evals memory env args)
  | .load buffer _ indices =>
    sem.gather ((sem.locate (evals memory env indices)).map (memory (array buffer)))

def evals (memory : Memory Var Location Cell) (env : Var → Value) :
    PrimExprs Var DType Op → List Value
  | .nil => []
  | .cons head tail => eval memory env head :: evals memory env tail

end

def writeCells (cells : Location → Cell) (entries : List (Location × Cell)) : Location → Cell :=
  entries.foldl (fun cells entry => Function.update cells entry.1 entry.2) cells

def iterate (concurrent : Bool) (env : Var → Value) (v : Var) (values : List Value)
    (body : Stmt Var DType Op) : Code Var DType Op Value :=
  values.foldr (fun value rest =>
    (if concurrent then Code.par else Code.seq) (.run (Function.update env v value) body) rest) .done

def start (memory : Memory Var Location Cell) (env : Var → Value) :
    Stmt Var DType Op → Config Var DType Op Value Location Cell
  | .store buffer indices value =>
    let locations := sem.locate (evals sem array memory env indices)
    let written := eval sem array memory env value
    let entries := locations.zipIdx.map fun entry => (entry.1, sem.lane written entry.2)
    ⟨.done, Function.update memory (array buffer) (writeCells (memory (array buffer)) entries),
      locations.map (buffer, ·)⟩
  | .seq first second => ⟨.seq (.run env first) (.run env second), memory, []⟩
  | .forLoop loopVar min extent kind body =>
    let values := sem.iterations (eval sem array memory env min) (eval sem array memory env extent)
    ⟨iterate (kind ≠ .serial ∧ kind ≠ .unrolled) env loopVar values body, memory, []⟩
  | .ifThen condition thenCase =>
    ⟨if sem.truth (eval sem array memory env condition) then .run env thenCase else .done, memory, []⟩
  | .ifThenElse condition thenCase elseCase =>
    ⟨.run env (if sem.truth (eval sem array memory env condition) then thenCase else elseCase),
      memory, []⟩
  | .whileLoop condition body =>
    ⟨if sem.truth (eval sem array memory env condition) then
        .seq (.run env body) (.run env (.whileLoop condition body))
      else .done, memory, []⟩
  | .letStmt v value body =>
    ⟨.run (Function.update env v (eval sem array memory env value)) body, memory, []⟩
  | .attr .threadExtent node value body =>
    ⟨iterate true env node (sem.threads (eval sem array memory env value)) body, memory, []⟩
  | .attr _ _ _ body => ⟨.run env body, memory, []⟩

def step (memory : Memory Var Location Cell) :
    List Bool → Code Var DType Op Value → Config Var DType Op Value Location Cell
  | _, .done => ⟨.done, memory, []⟩
  | _, .run env stmt => start sem array memory env stmt
  | _, .seq .done second => ⟨second, memory, []⟩
  | choice, .seq first second =>
    let next := step memory choice first
    { next with code := .seq next.code second }
  | _, .par .done right => ⟨right, memory, []⟩
  | true :: choice, .par left right =>
    let next := step memory choice right
    { next with code := .par left next.code }
  | choice, .par left right =>
    let next := step memory choice.tail left
    { next with code := .par next.code right }

def advance (config : Config Var DType Op Value Location Cell) (choice : List Bool) :
    Config Var DType Op Value Location Cell :=
  let next := step sem array config.memory choice config.code
  { next with stores := config.stores ++ next.stores }

def run (schedule : List (List Bool)) (env : Var → Value) (stmt : Stmt Var DType Op)
    (memory : Memory Var Location Cell) : Config Var DType Op Value Location Cell :=
  schedule.foldl (advance sem array) ⟨.run env stmt, memory, []⟩

end

end Tlm.Tir.InplaceOp
