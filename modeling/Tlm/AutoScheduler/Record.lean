import Tlm.AutoScheduler.Step
import Tlm.Dataset
import Mathlib.Tactic.Common

set_option autoImplicit false

namespace Tlm

open Cpp

def Json.ofInt32 (value : Int32) : Json := .num value.toInt
def Json.ofBool (value : Bool) : Json := .num (if value then 1 else 0)
def Json.ofInt32s (values : List Int32) : Json := .arr (values.map Json.ofInt32)

-- `Handler<Array<Optional<Integer>>>::Write`: an undefined length is written as -100.
def Json.ofLengths (lengths : List (Option Int32)) : Json :=
  .ofInt32s (lengths.map fun length => length.getD (-100))

namespace AutoScheduler

def Step.recordPrefixStr : Step → String
  | .annotate .. => "AN"
  | .fuse .. => "FU"
  | .pragma .. => "PR"
  | .reorder .. => "RE"
  | .split .. => "SP"
  | .splitCopy .. => "SPC"
  | .prompt => "PPT"
  | .splitStart => "SPS"
  | .computeLocationStart .. => "CLS"
  | .unrollStart .. => "PRS"
  | .vectorizationStart .. => "VECS"
  | .threadBindStart => "TBS"
  | .followSplit .. => "FSP"
  | .followFusedSplit .. => "FFSP"
  | .storageAlign .. => "SA"
  | .computeAt .. => "CA"
  | .computeInline .. => "CI"
  | .computeRoot .. => "CR"
  | .cacheRead .. => "CHR"
  | .cacheWrite .. => "CHW"
  | .rfactor .. => "RF"

def SplitFields.items (fields : SplitFields) : List Json :=
  [.ofInt32 fields.stageId, .ofInt32 fields.iterId, .ofInt32 (fields.extent.getD 0),
    .ofLengths fields.lengths, .ofBool fields.innerToOuter]

def Step.items : Step → List Json
  | .annotate stageId iterId ann =>
    [.ofInt32 stageId, .ofInt32 iterId, .ofInt32 ann.code]
  | .fuse stageId fusedIds => [.ofInt32 stageId, .ofInt32s fusedIds]
  | .pragma stageId iterId pragmaType => [.ofInt32 stageId, .ofInt32 iterId, .str pragmaType]
  | .reorder stageId afterIds => [.ofInt32 stageId, .ofInt32s afterIds]
  | .split fields | .splitCopy fields => fields.items
  | .prompt | .splitStart | .threadBindStart => []
  | .computeLocationStart stageIds | .unrollStart stageIds | .vectorizationStart stageIds =>
    [.ofInt32s stageIds]
  | .followSplit stageId iterId srcStepId nSplit =>
    [.ofInt32 stageId, .ofInt32 iterId, .ofInt32 srcStepId, .ofInt32 nSplit]
  | .followFusedSplit stageId iterId srcStepIds level factorOrNparts =>
    [.ofInt32 stageId, .ofInt32 iterId, .ofInt32s srcStepIds, .ofInt32 level,
      .ofBool factorOrNparts]
  | .storageAlign stageId iterId factor offset =>
    [.ofInt32 stageId, .ofInt32 iterId, .ofInt32 factor, .ofInt32 offset]
  | .computeAt stageId targetStageId targetIterId =>
    [.ofInt32 stageId, .ofInt32 targetStageId, .ofInt32 targetIterId]
  | .computeInline stageId | .computeRoot stageId => [.ofInt32 stageId]
  | .cacheRead stageId scopeName readerStageIds =>
    [.ofInt32 stageId, .str scopeName, .ofInt32s readerStageIds]
  | .cacheWrite stageId scopeName => [.ofInt32 stageId, .str scopeName]
  | .rfactor stageId iterId factorIterId =>
    [.ofInt32 stageId, .ofInt32 iterId, .ofInt32 factorIterId]

def Step.writeToRecord (step : Step) : List Json :=
  .str step.recordPrefixStr :: step.items

abbrev RecordReader := StateT (List Json) (Except Fault)

def nextArrayItem : RecordReader Json
  | [] => .error .check
  | item :: rest => .ok (item, rest)

def readInt : RecordReader Int := do
  match ← nextArrayItem with
  | .num value => return value
  | _ => throw .check

def readString : RecordReader String := do
  match ← nextArrayItem with
  | .str value => return value
  | _ => throw .check

def readInt32 : RecordReader Int32 := do
  narrow .check (← readInt)

def readBool : RecordReader Bool := do
  match ← readInt with
  | 0 => return false
  | 1 => return true
  | _ => throw .check

def int32Item : Json → Except Fault Int32
  | .num value => narrow .check value
  | _ => .error .check

def int32Items : List Json → Except Fault (List Int32)
  | [] => .ok []
  | item :: rest => return (← int32Item item) :: (← int32Items rest)

def readInt32s : RecordReader (List Int32) := do
  match ← nextArrayItem with
  | .arr items => int32Items items
  | _ => throw .check

-- `Handler<Array<Optional<Integer>>>::Read`: every item becomes a defined length.
def readLengths : RecordReader (List (Option Int32)) :=
  return (← readInt32s).map some

def readSplitFields : RecordReader SplitFields := do
  let stageId ← readInt32
  let iterId ← readInt32
  let intVal ← readInt32
  let lengths ← readLengths
  let innerToOuter ← readBool
  let extent := if intVal = 0 then none else some intVal
  return ⟨stageId, iterId, extent, lengths, innerToOuter⟩

def stepReadFromRecord : RecordReader Step := do
  let name ← readString
  if name = "AN" then
    let stageId ← readInt32
    let iterId ← readInt32
    let intVal ← readInt32
    return .annotate stageId iterId (← IteratorAnnotation.ofCode intVal)
  else if name = "FU" then
    return .fuse (← readInt32) (← readInt32s)
  else if name = "PR" then
    return .pragma (← readInt32) (← readInt32) (← readString)
  else if name = "RE" then
    return .reorder (← readInt32) (← readInt32s)
  else if name = "SP" then
    return .split (← readSplitFields)
  else if name = "SPC" then
    return .splitCopy (← readSplitFields)
  else if name = "PPT" then
    return .prompt
  else if name = "TBS" then
    return .threadBindStart
  else if name = "SPS" then
    return .splitStart
  else if name = "CLS" then
    return .computeLocationStart (← readInt32s)
  else if name = "PRS" then
    return .unrollStart (← readInt32s)
  else if name = "VECS" then
    return .vectorizationStart (← readInt32s)
  else if name = "FSP" then
    return .followSplit (← readInt32) (← readInt32) (← readInt32) (← readInt32)
  else if name = "FFSP" then
    return .followFusedSplit (← readInt32) (← readInt32) (← readInt32s) (← readInt32) (← readBool)
  else if name = "SA" then
    return .storageAlign (← readInt32) (← readInt32) (← readInt32) (← readInt32)
  else if name = "CA" then
    return .computeAt (← readInt32) (← readInt32) (← readInt32)
  else if name = "CI" then
    return .computeInline (← readInt32)
  else if name = "CR" then
    return .computeRoot (← readInt32)
  else if name = "CHR" then
    return .cacheRead (← readInt32) (← readString) (← readInt32s)
  else if name = "CHW" then
    return .cacheWrite (← readInt32) (← readString)
  else if name = "RF" then
    return .rfactor (← readInt32) (← readInt32) (← readInt32)
  else
    throw .check

@[simp] theorem readInt32_ofInt32 (value : Int32) (rest : List Json) :
    readInt32 (.ofInt32 value :: rest) = .ok (value, rest) := by
  simp [readInt32, readInt, nextArrayItem, Json.ofInt32]

@[simp] theorem readString_str (value : String) (rest : List Json) :
    readString (.str value :: rest) = .ok (value, rest) := rfl

@[simp] theorem readBool_ofBool (value : Bool) (rest : List Json) :
    readBool (.ofBool value :: rest) = .ok (value, rest) := by
  cases value <;> rfl

@[simp] theorem int32Items_ofInt32 (values : List Int32) :
    int32Items (values.map Json.ofInt32) = .ok values := by
  induction values with
  | nil => rfl
  | cons value rest ih =>
    have fits : narrow .check value.toInt = .ok value := by simp
    simp [int32Items, int32Item, Json.ofInt32, ih]

@[simp] theorem readInt32s_ofInt32s (values : List Int32) (rest : List Json) :
    readInt32s (.ofInt32s values :: rest) = .ok (values, rest) := by
  simp [readInt32s, nextArrayItem, Json.ofInt32s]

def SplitFields.reread (fields : SplitFields) : SplitFields :=
  { fields with
    extent := if fields.extent = some 0 then none else fields.extent
    lengths := fields.lengths.map fun length => some (length.getD (-100)) }

def SplitFields.Recordable (fields : SplitFields) : Prop :=
  fields.extent ≠ some 0 ∧ ∀ length ∈ fields.lengths, length ≠ none

instance (fields : SplitFields) : Decidable fields.Recordable :=
  inferInstanceAs (Decidable (_ ∧ _))

theorem SplitFields.reread_eq_self (fields : SplitFields) : fields.reread = fields ↔ fields.Recordable := by
  obtain ⟨stageId, iterId, extent, lengths, innerToOuter⟩ := fields
  have lengths_same : (lengths.map fun length => some (length.getD (-100))) = lengths ↔
      ∀ length ∈ lengths, length ≠ none := by
    conv_lhs => rhs; rw [← List.map_id lengths]
    rw [List.map_inj_left]
    refine forall₂_congr fun length _ => ?_
    cases length <;> simp
  have extent_same : (if extent = some 0 then none else extent) = extent ↔ extent ≠ some 0 := by
    split
    next zero => simp [zero]
    next nonzero => simp [nonzero]
  simp [reread, Recordable, lengths_same, extent_same]

@[simp] theorem readSplitFields_items (fields : SplitFields) (rest : List Json) :
    readSplitFields (fields.items ++ rest) = .ok (fields.reread, rest) := by
  have extent_back : (if fields.extent.getD 0 = 0 then none else some (fields.extent.getD 0)) =
      if fields.extent = some 0 then none else fields.extent := by
    cases fields.extent <;> simp
  simp [readSplitFields, readLengths, SplitFields.items, SplitFields.reread, Json.ofLengths,
    extent_back]

def Step.reread : Step → Step
  | .split fields => .split fields.reread
  | .splitCopy fields => .splitCopy fields.reread
  | step => step

theorem stepReadFromRecord_writeToRecord (step : Step) (rest : List Json) :
    stepReadFromRecord (step.writeToRecord ++ rest) = .ok (step.reread, rest) := by
  cases step <;>
    simp [stepReadFromRecord, Step.writeToRecord, Step.recordPrefixStr, Step.items, Step.reread]

def Step.Recordable (step : Step) : Prop :=
  ∀ fields ∈ step.splitFields?, fields.Recordable

instance (step : Step) : Decidable step.Recordable :=
  inferInstanceAs (Decidable (∀ fields ∈ step.splitFields?, fields.Recordable))

theorem Step.reread_eq_self (step : Step) : step.reread = step ↔ step.Recordable := by
  cases step <;> simp [reread, Recordable, splitFields?, SplitFields.reread_eq_self]

theorem stepReadFromRecord_exact (step : Step) :
    stepReadFromRecord step.writeToRecord = .ok (step, []) ↔ step.Recordable := by
  have read := stepReadFromRecord_writeToRecord step []
  rw [List.append_nil] at read
  rw [read, ← step.reread_eq_self]
  simp

-- The sentinel of an undefined length comes back as a tile size.
theorem stepReadFromRecord_undefined_length :
    let step := Step.split ⟨0, 0, some 10, [none], true⟩
    stepReadFromRecord step.writeToRecord = .ok (.split ⟨0, 0, some 10, [some (-100)], true⟩, []) ∧
      stepReadFromRecord step.writeToRecord ≠ .ok (step, []) := by
  intro step
  have read : stepReadFromRecord step.writeToRecord =
      .ok (.split ⟨0, 0, some 10, [some (-100)], true⟩, []) :=
    stepReadFromRecord_writeToRecord step []
  simp [read, step]

end AutoScheduler

end Tlm
