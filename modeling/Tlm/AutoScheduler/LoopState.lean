import Tlm.AutoScheduler.Step
import Mathlib.Data.List.Basic

set_option autoImplicit false

namespace Tlm.AutoScheduler

open Cpp

inductive PrimExpr where
  | imm (value : Int32)
  | var (name : String)
  | add (a b : PrimExpr)
  | sub (a b : PrimExpr)
  | mul (a b : PrimExpr)
  | floorDiv (a b : PrimExpr)
  deriving DecidableEq, Repr

-- The operators below fold constants as `TryConstFold` does.
def PrimExpr.plus : PrimExpr → PrimExpr → PrimExpr
  | .imm a, .imm b => .imm (a + b)
  | a, b => if a = .imm 0 then b else if b = .imm 0 then a else .add a b

def PrimExpr.minus : PrimExpr → PrimExpr → PrimExpr
  | .imm a, .imm b => .imm (a - b)
  | a, b => if b = .imm 0 then a else .sub a b

def PrimExpr.times : PrimExpr → PrimExpr → PrimExpr
  | .imm a, .imm b => .imm (a * b)
  | a, b =>
    if a = .imm 1 then b else if a = .imm 0 then a
    else if b = .imm 1 then a else if b = .imm 0 then b else .mul a b

def PrimExpr.indexdiv : PrimExpr → PrimExpr → Except Fault PrimExpr
  | .imm a, .imm b => do
      ensure .check (b ≠ 0)
      return .imm (Int32.ofInt (a.toInt.fdiv b.toInt))
  | a, b => do
      if a = .imm 0 then return a
      if b = .imm 1 then return a
      ensure .check (b ≠ .imm 0)
      return .floorDiv a b

structure Range where
  min : PrimExpr
  extent : PrimExpr
  deriving DecidableEq, Repr

structure Iterator where
  obj : Nat
  name : String
  range : Option Range
  iterKind : IteratorKind
  annotationKind : IteratorAnnotation
  deriving DecidableEq, Repr

def Iterator.getExtent (iter : Iterator) : Int64 :=
  match iter.range with
  | some ⟨_, .imm value⟩ => value.toInt64
  | _ => -1

structure IterVar where
  nameHint : String
  dom : Range
  deriving DecidableEq, Repr

inductive OperationKind where
  | compute (axis reduceAxis : List IterVar)
  | placeholder
  | unsupported
  deriving DecidableEq, Repr

structure Operation where
  obj : Nat
  kind : OperationKind
  alwaysUnrollInner : Option (List String)
  deriving DecidableEq, Repr

inductive StageKind where
  | placeholder
  | compute
  deriving DecidableEq, Repr

inductive ComputeAtKind where
  | root
  | inlined
  | iter
  deriving DecidableEq, Repr

structure Stage where
  op : Operation
  iters : List Iterator
  opType : StageKind
  computeAt : ComputeAtKind
  autoUnrollMaxStep : Int32
  storageOffset : Int32
  deriving DecidableEq, Repr

-- `StrReplace`: the search resumes behind each replacement.
def strReplaceAux (old new : List Char) : Nat → List Char → List Char
  | _, [] => []
  | skip + 1, _ :: rest => strReplaceAux old new skip rest
  | 0, c :: rest =>
    if old.isPrefixOf (c :: rest) then new ++ strReplaceAux old new (old.length - 1) rest
    else c :: strReplaceAux old new 0 rest

def strReplace (base old new : String) : String :=
  .ofList (strReplaceAux old.toList new.toList 0 base.toList)

def cleanName (str : String) : String :=
  strReplace (strReplace (strReplace (strReplace str "." "_") "@" "_") "outer" "o") "inner" "i"

def Iterator.ofAxis (kind : IteratorKind) (obj : Nat) (axis : IterVar) : Iterator :=
  ⟨obj, cleanName axis.nameHint, some axis.dom, kind, .none⟩

-- The iterators of a new stage take the addresses from `obj` on.
def Stage.ofOp (obj : Nat) (op : Operation) : Except Fault Stage :=
  match op.kind with
  | .compute axis reduceAxis =>
    let spatial := axis.mapIdx fun i => Iterator.ofAxis .spatial (obj + i)
    let reduction := reduceAxis.mapIdx fun i => Iterator.ofAxis .reduction (obj + axis.length + i)
    .ok ⟨op, spatial ++ reduction, .compute, .root, 0, 0⟩
  | .placeholder => .ok ⟨op, [], .placeholder, .root, 0, 0⟩
  | .unsupported => .error .check

abbrev StageKey := Int
abbrev IterKey := Int × Int

structure AttachMap where
  stageToAttachIter : StageKey → Option IterKey
  iterToAttachedStages : IterKey → Option (List StageKey)

namespace AttachMap

def empty : AttachMap := ⟨fun _ => none, fun _ => none⟩

-- `DeleteStageEntry` follows an entry of the first map into the second without a check.
def deleteStage (map : AttachMap) (stageId : StageKey) : Except Fault AttachMap :=
  match map.stageToAttachIter stageId with
  | none => .ok map
  | some key => do
      let stages ← found .undefined (map.iterToAttachedStages key)
      let left := stages.erase stageId
      let entry := if left.isEmpty then none else some left
      return ⟨fun stage => if stage = stageId then none else map.stageToAttachIter stage,
        fun iter => if iter = key then entry else map.iterToAttachedStages iter⟩

def setComputeAtIter (map : AttachMap) (stageId : StageKey) (target : IterKey) :
    Except Fault AttachMap := do
  let cleared ← map.deleteStage stageId
  let stages := (cleared.iterToAttachedStages target).getD [] ++ [stageId]
  return ⟨fun stage => if stage = stageId then some target else cleared.stageToAttachIter stage,
    fun iter => if iter = target then some stages else cleared.iterToAttachedStages iter⟩

def moveIter (step : AttachMap × (IterKey → Option (List StageKey))) (move : IterKey × IterKey) :
    AttachMap × (IterKey → Option (List StageKey)) :=
  let (map, added) := step
  match map.iterToAttachedStages move.1 with
  | none => (map, added)
  | some stages =>
    (⟨fun stage => if stage ∈ stages then some move.2 else map.stageToAttachIter stage,
      fun iter => if iter = move.1 then none else map.iterToAttachedStages iter⟩,
      fun iter => if iter = move.2 then some stages else added iter)

-- `UpdateIters`, on the pairs of its two vectors.
def updateIters (map : AttachMap) (moves : List (IterKey × IterKey)) : AttachMap :=
  let (moved, added) := moves.foldl moveIter (map, fun _ => none)
  { moved with
    iterToAttachedStages := fun iter => (added iter).or (moved.iterToAttachedStages iter) }

def applyStageIdOffset (map : AttachMap) (startId offset : Int) : AttachMap :=
  let shift (stage : StageKey) : StageKey := if stage < startId then stage else stage + offset
  let back (stage : StageKey) : Option StageKey :=
    if stage < startId then some stage
    else if stage < startId + offset then none else some (stage - offset)
  ⟨fun stage => do
      let (target, iter) ← map.stageToAttachIter (← back stage)
      return (shift target, iter),
    fun (stage, iter) => do
      let stages ← map.iterToAttachedStages (← back stage, iter)
      return stages.map shift⟩

end AttachMap

-- The part of `AccessAnalyzerNode` that the rules read, by the operation's address.
structure ComputeDAG where
  ops : List Operation
  readBy : Nat → Option (List Nat)
  needsMultiLevelTiling : Nat → Option Bool

structure State where
  stages : List Stage
  transformSteps : List Step
  attachMap : AttachMap
  currentComputeDag : Option ComputeDAG
  concrete : Bool

namespace State

def freshObj (s : State) : Nat :=
  (s.stages.flatMap Stage.iters).foldr (fun iter next => max (iter.obj + 1) next) 0

def push (s : State) (step : Step) : State :=
  { s with transformSteps := s.transformSteps ++ [step] }

def setStage (s : State) (i : Nat) (stage : Stage) : State :=
  { s with stages := s.stages.set i stage }

@[simp] theorem push_stages (s : State) (step : Step) : (s.push step).stages = s.stages := rfl

@[simp] theorem push_transformSteps (s : State) (step : Step) :
    (s.push step).transformSteps = s.transformSteps ++ [step] := rfl

theorem push_length (s : State) (step : Step) :
    (s.push step).transformSteps.length = s.transformSteps.length + 1 := by
  simp

@[simp] theorem push_attachMap (s : State) (step : Step) :
    (s.push step).attachMap = s.attachMap := rfl

@[simp] theorem setStage_stages (s : State) (i : Nat) (stage : Stage) :
    (s.setStage i stage).stages = s.stages.set i stage := rfl

@[simp] theorem setStage_transformSteps (s : State) (i : Nat) (stage : Stage) :
    (s.setStage i stage).transformSteps = s.transformSteps := rfl

@[simp] theorem setStage_attachMap (s : State) (i : Nat) (stage : Stage) :
    (s.setStage i stage).attachMap = s.attachMap := rfl

theorem obj_lt_freshObj {s : State} {stage : Stage} {iter : Iterator} (present : stage ∈ s.stages)
    (member : iter ∈ stage.iters) : iter.obj < s.freshObj := by
  have listed : iter ∈ s.stages.flatMap Stage.iters := List.mem_flatMap.mpr ⟨stage, present, member⟩
  have bound : ∀ iters : List Iterator, iter ∈ iters →
      iter.obj < iters.foldr (fun iter next => max (iter.obj + 1) next) 0 := by
    intro iters
    induction iters with
    | nil => simp
    | cons head tail ih =>
      intro inside
      rw [List.foldr_cons]
      rcases List.mem_cons.mp inside with rfl | later
      · omega
      · have := ih later
        omega
  exact bound _ listed

end State

-- `State::State(ops)`. Every iterator made here gets an address of its own.
def State.ofOps (ops : List Operation) : Except Fault State :=
  ops.foldlM
    (fun s op => do
      let stage ← Stage.ofOp s.freshObj op
      return { s with stages := s.stages ++ [stage] })
    ⟨[], [], .empty, none, true⟩

end Tlm.AutoScheduler
