import Tlm.MetaSchedule.Trace

set_option autoImplicit false

namespace Tlm.MetaSchedule

open Cpp

def isEnterPostproc : Json → Bool
  | .arr (.str name :: _) => name = "EnterPostproc"
  | _ => false

def isParallelLabel : Json → Bool
  | .arr [.str name, _, .arr [.str key], _] => name = "Annotate" && key = parallelKey
  | _ => false

-- The slice up to and with the first `EnterPostproc`; without one it is the whole list.
def instsPart : List Json → List Json
  | [] => []
  | inst :: rest => if isEnterPostproc inst then [inst] else inst :: instsPart rest

-- `decisions_label` and `parallel_label` of `for_init_lines`, flattened.
def layout (trace : Trace) : Except Fault (List String) := do
  let (insts, decisionsLabel) ← trace.asJSON
  let parallelLabel := (instsPart insts).filter isParallelLabel
  return jsonDfsItems [.arr decisionsLabel, .arr parallelLabel]

structure Candidate where
  inst : Instruction
  parallelExtent : Int32
  blockName : String
  funcName : String

def getBlockInst (insts : List Instruction) (block : Nat) : Option (String × String) :=
  insts.reverse.findSome? fun inst =>
    match inst.action with
    | .getBlock name funcName out => if out = block then some (name, funcName) else none
    | _ => none

def parallelCandidate (insts : List Instruction) (inst : Instruction) (blockOrLoop : RV)
    (annVal : Input) : Except Fault Candidate := do
  ensure .check (blockOrLoop.kind = .block)
  let (blockName, funcName) ← found .outOfRange (getBlockInst insts blockOrLoop.obj)
  match annVal with
  | .int value => return ⟨inst, value, blockName, funcName⟩
  | _ => throw .check

def instCandidates (insts : List Instruction) (inst : Instruction) :
    Except Fault (List Candidate) :=
  match inst.parallel? with
  | some (blockOrLoop, annVal) => return [← parallelCandidate insts inst blockOrLoop annVal]
  | none => .ok []

def findAllParallelDecision (trace : Trace) : Except Fault (List Candidate) :=
  concatM (instCandidates trace.insts) trace.insts

def replaceInst (old new : Instruction) : List Instruction → List Instruction
  | [] => []
  | inst :: rest =>
    if inst.obj = old.obj then new :: replaceInst old new rest
    else if inst.isPostproc then [] else inst :: replaceInst old new rest

-- A token that is missing or no number ends the loop with `NullOpt`.
def assembleExtents (decisions : Nat → Option Decision) (tokens : List String) :
    List Candidate → Nat → Trace → Option Trace
  | [], _, tmpTrace => some tmpTrace
  | candidate :: rest, tokenIdx, tmpTrace =>
    match found .outOfRange tokens[tokenIdx]? >>= stol with
    | .error _ => none
    | .ok limit =>
      let inst := candidate.inst.replaceAnnValue tmpTrace.freshObj (.int limit.toInt32)
      assembleExtents decisions tokens rest (tokenIdx + 4)
        ⟨replaceInst candidate.inst inst tmpTrace.insts, decisions⟩

-- `MutateAllParallelNode::ApplyDecision`; `replay` applies a trace to the module.
def applyDecision (replay : List (Instruction × Option Decision) → Except Fault Unit)
    (trace : Trace) (tokens : List String) : Except Fault (Option Trace) := do
  let candidates ← findAllParallelDecision trace
  if candidates.isEmpty then return some trace
  replay trace.schedulable
  return assembleExtents trace.decisions tokens candidates 2 trace

-- `std::stol`, put into an `Integer`.
def nextLongs : Nat → Cursor (List Int32)
  | 0 => return []
  | n + 1 => do
      let value ← raise (stol (← nextToken))
      return value.toInt32 :: (← nextLongs n)

def nextDecision : Decision → Cursor Decision
  | .array values => return .array (← nextLongs values.length)
  | .integer _ => return .integer (← nextInt)

def decodeDecisions (trace : Trace) : Nat → List Instruction → Trace → Cursor Trace
  | _, [], traceNew => return traceNew
  | i, inst :: rest, traceNew =>
    match trace.getDecision inst with
    | none => decodeDecisions trace (i + 1) rest traceNew
    | some recorded => do
        expectToken (toString i)
        let decision ← nextDecision recorded
        decodeDecisions trace (i + 1) rest (traceNew.withDecision inst decision true)

def passedTrace (replay : List (Instruction × Option Decision) → Except Fault Unit)
    (trace : Trace) (tokens : List String) : Except Fault (Option Trace) :=
  guarded do
    let (traceNew, _) ← decodeDecisions trace 0 trace.insts trace tokens
    match ← raise (applyDecision replay traceNew tokens) with
    | some _ => return traceNew
    | none => throw .leave

end Tlm.MetaSchedule
