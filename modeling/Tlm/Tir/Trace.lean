import Tlm.MetaSchedule.Trace
import Tlm.MetaSchedule.JsonText

set_option autoImplicit false

namespace Tlm.Tir

open Cpp
open MetaSchedule (RVKind RV Bytes ascii)

inductive PrimExpr where
  | var (obj : Nat)
  | imm (value : Int)
  | node (op : String) (args : List PrimExpr)

inductive IndexMap where
  | plain (initialIndices : List Nat) (finalIndices : List PrimExpr)
  | paired (initialIndices : List Nat) (finalIndices : List PrimExpr) (inverse : IndexMap)

-- `expr` is an expression that is neither a variable nor a constant; the content of a dictionary
-- is never looked at.
inductive ObjectRef where
  | null
  | str (data : Bytes)
  | int (value : Int)
  | float (bits : UInt64)
  | rv (value : RV)
  | expr (op : String) (args : List PrimExpr)
  | indexMap (value : IndexMap)
  | array (items : List ObjectRef)
  | dict (obj : Nat)

-- `PostOrderVisit`, collecting variables.
mutual

def PrimExpr.vars : PrimExpr → List RV
  | .var obj => [⟨.var, obj⟩]
  | .imm _ => []
  | .node _ args => varsOf args

def varsOf : List PrimExpr → List RV
  | [] => []
  | arg :: rest => arg.vars ++ varsOf rest

end

def IndexMap.uses : IndexMap → List RV
  | .plain initialIndices finalIndices =>
    (varsOf finalIndices).filter fun rv => rv.obj ∉ initialIndices
  | .paired initialIndices finalIndices inverse =>
    (varsOf finalIndices).filter (fun rv => rv.obj ∉ initialIndices) ++ inverse.uses

mutual

def ObjectRef.uses : ObjectRef → List RV
  | .rv value => [value]
  | .expr _ args => varsOf args
  | .indexMap value => value.uses
  | .array items => usesOf items
  | _ => []

def usesOf : List ObjectRef → List RV
  | [] => []
  | item :: rest => item.uses ++ usesOf rest

end

def ObjectRef.directUses : ObjectRef → List RV
  | .rv value => [value]
  | .expr _ args => varsOf args
  | _ => []

theorem mem_usesOf {items : List ObjectRef} {rv : RV} : rv ∈ usesOf items ↔ ∃ item ∈ items, rv ∈ item.uses := by
  induction items with
  | nil => simp [usesOf]
  | cons item rest ih => simp [usesOf, ih]

theorem ObjectRef.uses_of_direct {input : ObjectRef} {rv : RV} (used : rv ∈ input.directUses) :
    rv ∈ input.uses := by
  cases input <;> simp_all [directUses, uses]

inductive AttrsForm where
  | same
  | transformLayout
  | transformBlockLayout
  deriving DecidableEq

def AttrsForm.Fits : AttrsForm → List ObjectRef → Prop
  | .same, _ => True
  | .transformLayout, attrs => ∃ index type pad injective,
      attrs = [index, type, pad, injective] ∧ (pad = .null ∨ ∃ map, pad = .indexMap map)
  | .transformBlockLayout, attrs => ∃ map, attrs = [.indexMap map]

structure InstructionKind where
  name : Bytes
  isPure : Bool
  attrsForm : AttrsForm
  deriving DecidableEq

def InstructionKind.isPostproc (kind : InstructionKind) : Bool :=
  kind.name == ascii "EnterPostproc"

structure Instruction where
  obj : Nat
  kind : InstructionKind
  inputs : List ObjectRef
  attrs : List ObjectRef
  outputs : List RV
  attrsFit : kind.attrsForm.Fits attrs

def Instruction.uses (inst : Instruction) : List RV :=
  usesOf inst.inputs

def Instruction.directUses (inst : Instruction) : List RV :=
  inst.inputs.flatMap ObjectRef.directUses

theorem Instruction.uses_of_direct {inst : Instruction} {rv : RV} (used : rv ∈ inst.directUses) :
    rv ∈ inst.uses := by
  simp only [directUses, List.mem_flatMap] at used
  obtain ⟨input, mem, direct⟩ := used
  exact mem_usesOf.mpr ⟨input, mem, ObjectRef.uses_of_direct direct⟩

structure Trace where
  insts : List Instruction
  decisions : Nat → Option ObjectRef

namespace Trace

def validInsts (trace : Trace) (removePostproc : Bool) : List Instruction :=
  if removePostproc then trace.insts.takeWhile (fun inst => !inst.kind.isPostproc)
  else trace.insts

theorem validInsts_subset (trace : Trace) (removePostproc : Bool) :
    trace.validInsts removePostproc ⊆ trace.insts := by
  rw [validInsts]
  split
  · exact List.takeWhile_subset _
  · exact List.Subset.refl _

-- A null object in an `Optional` is `NullOpt`.
def optional : ObjectRef → Option ObjectRef
  | .null => none
  | value => some value

def getDecision (trace : Trace) (inst : Instruction) : Option ObjectRef :=
  (trace.decisions inst.obj).bind optional

end Trace

abbrev RVMap := RV → Option ObjectRef

mutual

def PrimExpr.substitute (rvMap : RVMap) : PrimExpr → Except Fault PrimExpr
  | .var obj =>
    match rvMap ⟨.var, obj⟩ with
    | none => .ok (.var obj)
    | some (.rv ⟨.var, new⟩) => .ok (.var new)
    | some _ => .error .check
  | .imm value => .ok (.imm value)
  | .node op args => do
      let args ← substituteArgs rvMap args
      pure (.node op args)

def substituteArgs (rvMap : RVMap) : List PrimExpr → Except Fault (List PrimExpr)
  | [] => .ok []
  | arg :: rest => do
      let arg ← arg.substitute rvMap
      let rest ← substituteArgs rvMap rest
      pure (arg :: rest)

end

def IndexMap.substitute (rvMap : RVMap) : IndexMap → Except Fault IndexMap
  | .plain initialIndices finalIndices => do
      let finalIndices ← substituteArgs rvMap finalIndices
      pure (.plain initialIndices finalIndices)
  | .paired initialIndices finalIndices inverse => do
      let finalIndices ← substituteArgs rvMap finalIndices
      let inverse ← inverse.substitute rvMap
      pure (.paired initialIndices finalIndices inverse)

mutual

def translateInput (rvMap : RVMap) : ObjectRef → Except Fault ObjectRef
  | .null => .ok .null
  | .str data => .ok (.str data)
  | .int value => .ok (.int value)
  | .float bits => .ok (.float bits)
  | .rv value => found .check (rvMap value)
  | .expr op args => do
      let args ← substituteArgs rvMap args
      pure (.expr op args)
  | .indexMap value => do
      let value ← value.substitute rvMap
      pure (.indexMap value)
  | .array items => do
      let items ← translateInputRVs rvMap items
      pure (.array items)
  | .dict _ => .error .check

def translateInputRVs (rvMap : RVMap) : List ObjectRef → Except Fault (List ObjectRef)
  | [] => .ok []
  | input :: rest => do
      let input ← translateInput rvMap input
      let rest ← translateInputRVs rvMap rest
      pure (input :: rest)

end

-- Both loops run over the first list; the sizes were compared before.
def addOutputRVs (rvMap : RVMap) (oldOutputs : List RV) (newOutputs : List ObjectRef) :
    Except Fault RVMap := do
  ensure .check (oldOutputs.length == newOutputs.length)
  pure ((oldOutputs.zip newOutputs).foldl (fun map pair => Function.update map pair.1 (some pair.2))
    rvMap)

-- One call of `f_apply_to_schedule`.
structure Call where
  kind : InstructionKind
  inputs : List ObjectRef
  attrs : List ObjectRef
  decision : Option ObjectRef

structure Outcome (σ : Type) where
  calls : List Call
  result : Except Fault σ

section

variable {σ : Type} (fApply : Call → σ → Except Fault (List ObjectRef × σ))

def Outcome.stop (fault : Fault) : Outcome σ :=
  ⟨[], .error fault⟩

def Outcome.orStop {α : Type} (x : Except Fault α) (more : α → Outcome σ) : Outcome σ :=
  match x with
  | .ok a => more a
  | .error fault => stop fault

@[simp] theorem Outcome.orStop_ok {α : Type} (a : α) (more : α → Outcome σ) :
    orStop (.ok a) more = more a := rfl

@[simp] theorem Outcome.orStop_error {α : Type} (fault : Fault) (more : α → Outcome σ) :
    orStop (.error fault) more = stop fault := rfl

def Outcome.perform (call : Call) (sch : σ) (more : List ObjectRef → σ → Outcome σ) :
    Outcome σ :=
  let rest := orStop (fApply call sch) fun done => more done.1 done.2
  ⟨call :: rest.calls, rest.result⟩

def Trace.applyFrom (trace : Trace) (rvMap : RVMap) (sch : σ) : List Instruction → Outcome σ
  | [] => ⟨[], .ok sch⟩
  | inst :: rest =>
    .orStop (translateInputRVs rvMap inst.inputs) fun inputs =>
      .perform fApply ⟨inst.kind, inputs, inst.attrs, trace.getDecision inst⟩ sch
        fun outputs sch =>
          .orStop (addOutputRVs rvMap inst.outputs outputs) fun rvMap =>
            trace.applyFrom rvMap sch rest

def Trace.applyToSchedule (trace : Trace) (sch : σ) (removePostproc : Bool) : Outcome σ :=
  trace.applyFrom fApply (fun _ => none) sch (trace.validInsts removePostproc)

end

structure IndexMapText where
  saveJSON : ObjectRef → Bytes
  loadJSON : Bytes → Except Fault ObjectRef
  renameVariables : (RV → Option Bytes) → IndexMap → Except Fault IndexMap
  substituteNames : (Bytes → Option ObjectRef) → IndexMap → Except Fault IndexMap

-- What a `const char*` shows of a string.
def cString (data : Bytes) : Bytes :=
  data.takeWhile (· != 0)

abbrev RVNames := List (RV × Bytes)

def RVNames.name (names : RVNames) (rv : RV) : Option Bytes :=
  names.lookup rv

abbrev NamedRVs := Bytes → Option ObjectRef

def quote : UInt8 := 34
def openBrace : UInt8 := 123
def closeBrace : UInt8 := 125

section

variable (text : IndexMapText)

mutual

def stringifyInput (names : RVNames) : ObjectRef → Except Fault ObjectRef
  | .null => .ok (.str (ascii "None"))
  | .rv value =>
    match names.name value with
    | some name => .ok (.str name)
    | none => .error .check
  | .str data => .ok (.str (quote :: cString data ++ [quote]))
  | .int value => .ok (.int value)
  | .float bits => .ok (.float bits)
  | .array items => do
      let items ← stringifyInputRVs names items
      pure (.array items)
  | .dict obj => .ok (.dict obj)
  | .indexMap value => do
      let value ← text.renameVariables names.name value
      pure (.indexMap value)
  | .expr _ _ => .error .check

def stringifyInputRVs (names : RVNames) : List ObjectRef → Except Fault (List ObjectRef)
  | [] => .ok []
  | input :: rest => do
      let input ← stringifyInput names input
      let rest ← stringifyInputRVs names rest
      pure (input :: rest)

end

def resolveName (named : NamedRVs) (data : Bytes) : Except Fault ObjectRef :=
  if data.isEmpty then .error .check
  else if data.head? == some openBrace && data.getLast? == some closeBrace then do
    match ← text.loadJSON (cString data) with
    | .indexMap value => do
        let value ← text.substituteNames named value
        pure (.indexMap value)
    | _ => .error .check
  else if 2 ≤ data.length && data.head? == some quote && data.getLast? == some quote then
    .ok (.str data.tail.dropLast)
  else found .check (named (cString data))

-- A null pointer is dereferenced.
mutual

def resolveInput (named : NamedRVs) : ObjectRef → Except Fault ObjectRef
  | .int value => .ok (.int value)
  | .float bits => .ok (.float bits)
  | .array items => do
      let items ← resolveInputRVs named items
      pure (.array items)
  | .dict obj => .ok (.dict obj)
  | .str data => resolveName text named data
  | .null => .error .undefined
  | _ => .error .check

def resolveInputRVs (named : NamedRVs) : List ObjectRef → Except Fault (List ObjectRef)
  | [] => .ok []
  | input :: rest => do
      let input ← resolveInput named input
      let rest ← resolveInputRVs named rest
      pure (input :: rest)

end

def rvLetter : RVKind → String
  | .block => "b"
  | .loop => "l"
  | .var => "v"

def rvName (kind : RVKind) (i : Nat) : Bytes :=
  ascii (rvLetter kind ++ toString i)

def nameOutputRVs (names : RVNames) : List RV → Except Fault (RVNames × List Bytes)
  | [] => .ok (names, [])
  | output :: rest => do
      ensure .check (names.name output).isNone
      let name := rvName output.kind names.length
      let (names, rest) ← nameOutputRVs (names ++ [(output, name)]) rest
      pure (names, name :: rest)

-- `emplace` keeps what is there.
def NamedRVs.emplace (named : NamedRVs) (name : Bytes) (value : ObjectRef) : NamedRVs :=
  if (named name).isSome then named else Function.update named name (some value)

def addNamedRVs (named : NamedRVs) (oldOutputs : List Bytes) (newOutputs : List ObjectRef) :
    Except Fault NamedRVs := do
  ensure .check (oldOutputs.length == newOutputs.length)
  pure ((oldOutputs.zip newOutputs).foldl (fun named pair => named.emplace pair.1 pair.2) named)

def saveAttrs (attrs : List ObjectRef) : AttrsForm → Except Fault (List ObjectRef)
  | .same => .ok attrs
  | .transformLayout => do
      let index ← found .check attrs[0]?
      let type ← found .check attrs[1]?
      let pad ← found .check attrs[2]?
      let injective ← found .check attrs[3]?
      match pad with
      | .null => pure [index, type, .null, injective]
      | pad => pure [index, type, .str (text.saveJSON pad), injective]
  | .transformBlockLayout => do
      let map ← found .check attrs[0]?
      pure [.str (text.saveJSON map)]

def loadText : ObjectRef → Except Fault ObjectRef
  | .str data => text.loadJSON data
  | _ => .error .check

def loadAttrs (attrs : List ObjectRef) : AttrsForm → Except Fault (List ObjectRef)
  | .same => .ok attrs
  | .transformLayout => do
      let index ← found .check attrs[0]?
      let type ← found .check attrs[1]?
      let pad ← found .check attrs[2]?
      let pad ← match pad with
        | .null => pure .null
        | pad => loadText text pad
      let injective ← found .check attrs[3]?
      pure [index, type, pad, injective]
  | .transformBlockLayout => do
      let map ← found .check attrs[0]?
      let map ← loadText text map
      pure [map]

def decisionEntry (i : Nat) : Option ObjectRef → List ObjectRef
  | some decision => [.array [.int i, decision]]
  | none => []

def Trace.instsAsJSON (trace : Trace) (names : RVNames) (i : Nat) :
    List Instruction → Except Fault (List ObjectRef × List ObjectRef)
  | [] => .ok ([], [])
  | inst :: rest => do
      let inputs ← stringifyInputRVs text names inst.inputs
      let attrs ← saveAttrs text inst.attrs inst.kind.attrsForm
      let (names, outputs) ← nameOutputRVs names inst.outputs
      let (insts, decisions) ← trace.instsAsJSON names (i + 1) rest
      let entry := .array [.str inst.kind.name, .array inputs, .array attrs,
        .array (outputs.map .str)]
      pure (entry :: insts, decisionEntry i (trace.getDecision inst) ++ decisions)

def Trace.asJSON (trace : Trace) (removePostproc : Bool) : Except Fault ObjectRef := do
  let (insts, decisions) ← trace.instsAsJSON text [] 0 (trace.validInsts removePostproc)
  pure (.array [.array insts, .array decisions])

def parseDecisions (size : Nat) (decisions : Nat → Option ObjectRef) :
    List ObjectRef → Except Fault (Nat → Option ObjectRef)
  | [] => .ok decisions
  | .array [.int index, decision] :: rest =>
    if 0 ≤ index ∧ index < size then
      parseDecisions size (Function.update decisions index.toNat (Trace.optional decision)) rest
    else .error .undefined
  | _ :: _ => .error .check

def asString : ObjectRef → Except Fault Bytes
  | .str data => .ok data
  | _ => .error .check

structure Entry where
  kind : InstructionKind
  inputs : List ObjectRef
  attrs : List ObjectRef
  outputs : List Bytes

def parseEntry (registry : Bytes → Option InstructionKind) : ObjectRef → Except Fault Entry
  | .array [.str name, .array inputs, .array attrs, .array outputs] => do
      let outputs ← outputs.mapM asString
      let kind ← found .check (registry (cString name))
      pure ⟨kind, inputs, attrs, outputs⟩
  | _ => .error .check

variable {σ : Type} (fApply : Call → σ → Except Fault (List ObjectRef × σ))
variable (registry : Bytes → Option InstructionKind)

def applyEntries (decisions : Nat → Option ObjectRef) (named : NamedRVs) (i : Nat) (sch : σ) :
    List ObjectRef → Outcome σ
  | [] => ⟨[], .ok sch⟩
  | json :: rest =>
    .orStop (parseEntry registry json) fun entry =>
      .orStop (resolveInputRVs text named entry.inputs) fun inputs =>
        .orStop (loadAttrs text entry.attrs entry.kind.attrsForm) fun attrs =>
          .perform fApply ⟨entry.kind, inputs, attrs, decisions i⟩ sch
            fun outputs sch =>
              .orStop (addNamedRVs named entry.outputs outputs) fun named =>
                applyEntries decisions named (i + 1) sch rest

def noneOnly : NamedRVs :=
  Function.update (fun _ => none) (ascii "None") (some .null)

def applyJSONToSchedule (json : ObjectRef) (sch : σ) : Outcome σ :=
  match json with
  | .array [.array insts, .array decisions] =>
    .orStop (parseDecisions insts.length (fun _ => none) decisions) fun decisions =>
      applyEntries text fApply registry decisions noneOnly 0 sch insts
  | _ => .stop .check

end

structure Simplified where
  usedRVs : List RV
  newInsts : List Instruction
  newDecisions : Nat → Option ObjectRef

-- A decision that is there already is kept, and so is one that there is no value for.
def emplaceDecision (decisions : Nat → Option ObjectRef) (obj : Nat)
    (decision : Option ObjectRef) : Nat → Option ObjectRef :=
  fun other => if other = obj then (decisions obj).or decision else decisions other

-- One turn of the backward loop; `newInsts` is kept in the order of the result.
def Simplified.step (trace : Trace) (inst : Instruction) (done : Simplified) : Simplified :=
  if inst.kind.isPure && inst.outputs.all (· ∉ done.usedRVs) then done
  else
    { usedRVs := inst.directUses ++ done.usedRVs
      newInsts := inst :: done.newInsts
      newDecisions := emplaceDecision done.newDecisions inst.obj (trace.getDecision inst) }

def Trace.simplified (trace : Trace) (removePostproc : Bool) : Trace :=
  let done := (trace.validInsts removePostproc).foldr (Simplified.step trace) ⟨[], [], fun _ => none⟩
  ⟨done.newInsts, done.newDecisions⟩

end Tlm.Tir
