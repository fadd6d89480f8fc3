import Tlm.AutoScheduler.Primitives
import Tlm.Shared.Loop

set_option autoImplicit false

namespace Tlm.AutoScheduler

open Cpp

def isTiled (stage : Stage) : Except Fault Bool :=
  match stage.op.kind with
  | .compute axis reduceAxis => .ok (stage.iters.length ≠ axis.length + reduceAxis.length)
  | .placeholder | .unsupported => .error .check

def hasReduceIter (stage : Stage) : Bool :=
  stage.iters.any (·.iterKind ≠ .spatial)

-- The access analyzer in use: a stage-inserting step brings its own.
def analyzedDag (task : SearchTask) (s : State) : ComputeDAG :=
  s.currentComputeDag.getD task.computeDag

def needsMultilevelTiling (task : SearchTask) (s : State) (stage : Stage) : Except Fault Bool :=
  found .outOfRange ((analyzedDag task s).needsMultiLevelTiling stage.op.obj)

-- The readers of an operation, seen through the inlined ones. In an acyclic graph the
-- recursion is no deeper than there are stages.
def collectConsumers (dag : ComputeDAG) (inlinedOps : List Nat) :
    Nat → Nat → Except Fault (List Nat)
  | 0, _ => .error .undefined
  | fuel + 1, op => do
      concatM
        (fun reader =>
          if reader ∈ inlinedOps then collectConsumers dag inlinedOps fuel reader
          else .ok [reader])
        (← found .outOfRange (dag.readBy op))

def operationToStage (s : State) (op : Nat) : Except Fault Nat :=
  found .check (s.stages.findIdx? (·.op.obj = op))

def getConsumers (task : SearchTask) (s : State) (stage : Stage) : Except Fault (List Nat) := do
  let inlinedOps := (s.stages.filter (·.computeAt = .inlined)).map (·.op.obj)
  let ops ← collectConsumers (analyzedDag task s) inlinedOps (s.stages.length + 1) stage.op.obj
  let stageIds ← ops.mapM (operationToStage s)
  return (List.range s.stages.length).filter (· ∈ stageIds)

def consumerRoot (s : State) (stageId : Nat) : Except Fault Int := do
  let stage ← found .check s.stages[stageId]?
  match stage.computeAt with
  | .root => return stageId
  | .iter => return (← found .outOfRange (s.attachMap.stageToAttachIter stageId)).1
  | .inlined => throw .check

def commonRoot (s : State) : Int → List Nat → Except Fault Int
  | root, [] => .ok root
  | root, stageId :: rest => do
      let next ← consumerRoot s stageId
      if root = -1 then commonRoot s next rest
      else if root ≠ next then return -1
      else commonRoot s root rest

def getSingleConsumerId (task : SearchTask) (s : State) (stage : Stage) : Except Fault Int := do
  match ← getConsumers task s stage with
  | [] => return -1
  | [stageId] => return stageId
  | stageIds => commonRoot s (-1) stageIds

def stagesDescending (s : State) : List Nat :=
  (List.range s.stages.length).reverse

abbrev GenFunc := List State → Nat → List (List String)

def promptAll (prompt : State → Except Fault (State × Nat)) :
    List State → Except Fault (List State × Nat)
  | [] => .ok ([], 0)
  | s :: rest => do
      let (prompted, genLen) ← prompt s
      let (others, longest) ← promptAll prompt rest
      return (prompted :: others, max genLen longest)

-- `none` is a state left out of `ret_array`; a missing token list is read past the end.
def decodeAll (decode : State → List String → Except Fault (Option State)) :
    List State → List (List String) → Except Fault (List State)
  | [], _ => .ok []
  | _ :: _, [] => .error .undefined
  | s :: rest, tokens :: others => do
      let decoded ← decode s tokens
      return decoded.toList ++ (← decodeAll decode rest others)

def tokenRule (prompt : State → Except Fault (State × Nat))
    (decode : State → List String → Except Fault (Option State)) (states : List State)
    (genFunc : GenFunc) : Except Fault (List State) := do
  let (prompted, genLenMax) ← promptAll prompt states
  decodeAll decode prompted (genFunc prompted genLenMax)

theorem tokenRule_single {prompt : State → Except Fault (State × Nat)}
    {decode : State → List String → Except Fault (Option State)} {s : State}
    {tokens : List String} {result : List State} :
    tokenRule prompt decode [s] (fun _ _ => [tokens]) = .ok result ↔
      ∃ prompted genLen decoded, prompt s = .ok (prompted, genLen) ∧
        decode prompted tokens = .ok decoded ∧ decoded.toList = result := by
  simp only [tokenRule, promptAll, bind_ok, pure_ok, Except.ok.injEq, Prod.exists, Prod.mk.injEq]
  constructor
  · rintro ⟨_, _, ⟨prompted, genLen, prepared, _, _, ⟨rfl, rfl⟩, rfl, rfl⟩, run⟩
    simp only [decodeAll, bind_ok, pure_ok, Except.ok.injEq] at run
    obtain ⟨decoded, read, _, rfl, rfl⟩ := run
    exact ⟨prompted, genLen, decoded, prepared, read, by simp⟩
  · rintro ⟨prompted, genLen, decoded, prepared, read, rfl⟩
    refine ⟨[prompted], _, ⟨prompted, genLen, prepared, [], 0, ⟨rfl, rfl⟩, rfl, rfl⟩, ?_⟩
    simp [decodeAll, read]

def Appends (s s' : State) (tokens : List String) : Prop :=
  ∃ appended, s'.transformSteps = s.transformSteps ++ appended ∧ tokens = recordTokens appended

theorem Appends.still (s : State) : Appends s s [] :=
  ⟨[], by simp, rfl⟩

theorem Appends.chain {a b c : State} {x y : List String} (first : Appends a b x)
    (second : Appends b c y) : Appends a c (x ++ y) := by
  obtain ⟨left, steps, rfl⟩ := first
  obtain ⟨right, steps', rfl⟩ := second
  exact ⟨left ++ right, by rw [steps', steps, List.append_assoc], (recordTokens_append ..).symm⟩

theorem Appends.tokens_eq {s s' : State} {tokens : List String} (appends : Appends s s' tokens) :
    recordTokens (s'.transformSteps.drop s.transformSteps.length) = tokens := by
  obtain ⟨appended, steps, rfl⟩ := appends
  rw [steps, List.drop_left]

end Tlm.AutoScheduler
