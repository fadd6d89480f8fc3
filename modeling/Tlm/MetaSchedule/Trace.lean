import Tlm.Dataset
import Tlm.Shared.Cursor
import Tlm.Shared.Loop
import Mathlib.Logic.Function.Basic

set_option autoImplicit false

namespace Tlm.MetaSchedule

open Cpp

inductive RVKind where
  | block
  | loop
  | var
  deriving DecidableEq, Repr

structure RV where
  kind : RVKind
  obj : Nat
  deriving DecidableEq, Repr

-- `other` stands for inputs that are written as they are.
inductive Input where
  | null
  | rv (value : RV)
  | int (value : Int32)
  | str (value : String)
  | other (value : Json)

def parallelKey : String := "meta_schedule.parallel"

inductive Action where
  | annotate (blockOrLoop : RV) (annVal : Input) (annKey : String)
  | getBlock (name funcName : String) (block : Nat)
  | enterPostproc
  | other (kind : String) (inputs : List Input) (attrs : List Json) (outputs : List RV)
      (named : kind ∉ ["Annotate", "GetBlock", "EnterPostproc"])

structure Instruction where
  obj : Nat
  action : Action

namespace Instruction

def isPostproc (inst : Instruction) : Bool :=
  match inst.action with
  | .enterPostproc => true
  | _ => false

def parallel? (inst : Instruction) : Option (RV × Input) :=
  match inst.action with
  | .annotate blockOrLoop annVal annKey =>
    if annKey = parallelKey then some (blockOrLoop, annVal) else none
  | _ => none

def isAnnotateWithParallel (inst : Instruction) : Bool :=
  inst.parallel?.isSome

def replaceAnnValue (inst : Instruction) (obj : Nat) (annVal : Input) : Instruction :=
  match inst.action with
  | .annotate blockOrLoop _ annKey => ⟨obj, .annotate blockOrLoop annVal annKey⟩
  | _ => inst

end Instruction

-- What `SamplePerfectTile` and the other sampling instructions have drawn.
inductive Decision where
  | integer (value : Int32)
  | array (values : List Int32)
  deriving DecidableEq, Repr

structure Trace where
  insts : List Instruction
  decisions : Nat → Option Decision

namespace Trace

def getDecision (trace : Trace) (inst : Instruction) : Option Decision :=
  trace.decisions inst.obj

def validInsts (trace : Trace) : List Instruction :=
  trace.insts.takeWhile fun inst => !inst.isPostproc

def withDecision (trace : Trace) (inst : Instruction) (decision : Decision)
    (removePostproc : Bool) : Trace :=
  ⟨if removePostproc then trace.validInsts else trace.insts,
    Function.update trace.decisions inst.obj (some decision)⟩

def freshObj (trace : Trace) : Nat :=
  trace.insts.foldr (fun inst next => max (inst.obj + 1) next) 0

def schedulable (trace : Trace) : List (Instruction × Option Decision) :=
  trace.validInsts.map fun inst => (inst, trace.getDecision inst)

end Trace

abbrev RVNames := List (RV × String)

-- `TranslateAddOutputRVs`: a new name counts the names given so far.
def addOutputRVs : RVNames → List RV → Except Fault RVNames
  | names, [] => .ok names
  | names, rv :: rest => do
      ensure .check (names.lookup rv).isNone
      let letter := match rv.kind with
        | .block => "b"
        | .loop => "l"
        | .var => "v"
      addOutputRVs (names ++ [(rv, letter ++ toString names.length)]) rest

def translateInputRV (names : RVNames) : Input → Except Fault Json
  | .null => .ok (.str "None")
  | .rv value => return .str (← found .check (names.lookup value))
  | .int value => .ok (.num value.toInt)
  | .str value => .ok (.str ("\"" ++ value ++ "\""))
  | .other value => .ok value

def translateInputRVs (names : RVNames) : List Input → Except Fault (List Json)
  | [] => .ok []
  | input :: rest => return (← translateInputRV names input) :: (← translateInputRVs names rest)

namespace Action

def kindName : Action → String
  | .annotate .. => "Annotate"
  | .getBlock .. => "GetBlock"
  | .enterPostproc => "EnterPostproc"
  | .other kind .. => kind

def inputs : Action → List Input
  | .annotate blockOrLoop annVal _ => [.rv blockOrLoop, annVal]
  | .getBlock .. | .enterPostproc => []
  | .other _ inputs _ _ _ => inputs

def attrs : Action → List Json
  | .annotate _ _ annKey => [.str annKey]
  | .getBlock name funcName _ => [.str name, .str funcName]
  | .enterPostproc => []
  | .other _ _ attrs _ _ => attrs

def outputs : Action → List RV
  | .getBlock _ _ block => [⟨.block, block⟩]
  | .annotate .. | .enterPostproc => []
  | .other _ _ _ outputs _ => outputs

end Action

def instsAsJSON : RVNames → List Instruction → Except Fault (List Json)
  | _, [] => .ok []
  | names, inst :: rest => do
      let inputs ← translateInputRVs names inst.action.inputs
      let named ← addOutputRVs names inst.action.outputs
      let outputs := (named.drop names.length).map fun (_, name) => Json.str name
      return .arr [.str inst.action.kindName, .arr inputs, .arr inst.action.attrs, .arr outputs] ::
        (← instsAsJSON named rest)

def Decision.asJSON : Decision → Json
  | .integer value => .num value.toInt
  | .array values => .arr (values.map fun value => .num value.toInt)

-- The positions are counted in an `int`.
def decisionsAsJSON (trace : Trace) : Nat → List Instruction → Except Fault (List Json)
  | _, [] => .ok []
  | i, inst :: rest =>
    match trace.getDecision inst with
    | none => decisionsAsJSON trace (i + 1) rest
    | some decision => do
        let index ← narrow .undefined i
        return .arr [.num index.toInt, decision.asJSON] ::
          (← decisionsAsJSON trace (i + 1) rest)

-- `AsJSON` with the postprocessing, as a tuning record has it.
def Trace.asJSON (trace : Trace) : Except Fault (List Json × List Json) := do
  return (← instsAsJSON [] trace.insts, ← decisionsAsJSON trace 0 trace.insts)

end Tlm.MetaSchedule
