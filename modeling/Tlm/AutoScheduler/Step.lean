import Tlm.Shared.Fault

set_option autoImplicit false

namespace Tlm.AutoScheduler

open Cpp

inductive IteratorKind where
  | spatial
  | reduction
  | mixed
  | special
  deriving DecidableEq, Repr

inductive IteratorAnnotation where
  | none
  | unroll
  | vectorize
  | parallel
  | vThread
  | blockX
  | threadX
  | blockY
  | threadY
  | blockZ
  | threadZ
  | tensorize
  deriving DecidableEq, Repr

def IteratorAnnotation.code : IteratorAnnotation → Int32
  | .none => 0
  | .unroll => 1
  | .vectorize => 2
  | .parallel => 3
  | .vThread => 4
  | .blockX => 5
  | .threadX => 6
  | .blockY => 7
  | .threadY => 8
  | .blockZ => 9
  | .threadZ => 10
  | .tensorize => 11

def IteratorAnnotation.all : List IteratorAnnotation :=
  [.none, .unroll, .vectorize, .parallel, .vThread, .blockX, .threadX, .blockY, .threadY,
    .blockZ, .threadZ, .tensorize]

def IteratorAnnotation.ofCode (code : Int32) : Except Fault IteratorAnnotation :=
  found .undefined (all.find? fun ann => ann.code == code)

@[simp] theorem IteratorAnnotation.ofCode_code (ann : IteratorAnnotation) : ofCode ann.code = .ok ann := by
  cases ann <;> rfl

-- The fields shared by `SplitStepNode` and `SplitCopyStepNode`; `none` is an undefined value.
structure SplitFields where
  stageId : Int32
  iterId : Int32
  extent : Option Int32
  lengths : List (Option Int32)
  innerToOuter : Bool
  deriving DecidableEq, Repr

inductive Step where
  | annotate (stageId iterId : Int32) (ann : IteratorAnnotation)
  | fuse (stageId : Int32) (fusedIds : List Int32)
  | pragma (stageId iterId : Int32) (pragmaType : String)
  | reorder (stageId : Int32) (afterIds : List Int32)
  | split (fields : SplitFields)
  | splitCopy (fields : SplitFields)
  | prompt
  | splitStart
  | computeLocationStart (stageIds : List Int32)
  | unrollStart (stageIds : List Int32)
  | vectorizationStart (stageIds : List Int32)
  | threadBindStart
  | followSplit (stageId iterId srcStepId nSplit : Int32)
  | followFusedSplit (stageId iterId : Int32) (srcStepIds : List Int32) (level : Int32)
      (factorOrNparts : Bool)
  | storageAlign (stageId iterId : Int32) (factor offset : Int32)
  | computeAt (stageId targetStageId targetIterId : Int32)
  | computeInline (stageId : Int32)
  | computeRoot (stageId : Int32)
  | cacheRead (stageId : Int32) (scopeName : String) (readerStageIds : List Int32)
  | cacheWrite (stageId : Int32) (scopeName : String)
  | rfactor (stageId iterId factorIterId : Int32)
  deriving DecidableEq, Repr

def Step.split? : Step → Option SplitFields
  | .split fields => some fields
  | _ => none

def Step.splitCopy? : Step → Option SplitFields
  | .splitCopy fields => some fields
  | _ => none

variable {step : Step} {fields : SplitFields}

theorem Step.eq_split (chosen : step.split? = some fields) : step = .split fields := by
  cases step <;> simp_all [Step.split?]

theorem Step.eq_splitCopy (chosen : step.splitCopy? = some fields) : step = .splitCopy fields := by
  cases step <;> simp_all [Step.splitCopy?]

def Step.splitFields? : Step → Option SplitFields
  | .split fields | .splitCopy fields => some fields
  | _ => none

def SplitFields.key (fields : SplitFields) : Int32 × Int32 :=
  (fields.stageId, fields.iterId)

def SplitFields.withLengths (fields : SplitFields) (lengths : List Int32) : SplitFields :=
  { fields with lengths := lengths.map some }

end Tlm.AutoScheduler
