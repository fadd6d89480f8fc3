import Tlm.Shared.Decimal
import Tlm.Shared.Sorting
import Tlm.Vm.Bytecode

set_option autoImplicit false

namespace Tlm.Vm

open Cpp

structure VMFunction where
  name : String
  params : List String
  instructions : List Instruction
  registerFileSize : Index
  paramDeviceIndexes : List Index
  paired : params.length = paramDeviceIndexes.length
  deriving DecidableEq, Repr

inductive ObjectRef where
  | string (value : String)
  | other
  deriving DecidableEq, Repr

structure Executable (Device Tensor : Type) where
  virtualDevices : List Device
  hostDeviceIndex : Int
  constants : List (Option Tensor)
  lateBoundConstantNames : List (Option String)
  globalMap : List (String × Nat)
  primitiveMap : List (String × Nat)
  opAttrs : List (Nat × List (String × ObjectRef))
  functions : List VMFunction
  constDeviceIndexes : List Index

-- The stream of `dmlc`, and the saved form of tensors.
structure Dmlc (Byte Device Tensor : Type) where
  uint64 : Codec Byte UInt64
  uint32 : Codec Byte UInt32
  int : Codec Byte Int32
  string : Codec Byte String
  strings : Codec Byte (List String)
  indexes : Codec Byte (List Int64)
  devices : Codec Byte (List Device)
  attrs : Codec Byte (List (UInt64 × List (String × String)))
  tensor : Codec Byte Tensor

section

variable {Byte Device Tensor : Type} (dmlc : Dmlc Byte Device Tensor) (sorting : Sorting)

def Dmlc.writeSize (size : Nat) : List Byte :=
  dmlc.uint64.write (.ofNat size)

def Dmlc.readSize : Reader Byte Nat :=
  UInt64.toNat <$> dmlc.uint64.read

def Dmlc.writeIndexes (indexes : List Index) : List Byte :=
  dmlc.indexes.write (indexes.map .ofInt)

def Dmlc.readIndexes : Reader Byte (List Index) :=
  List.map Int64.toInt <$> dmlc.indexes.read

def kTVMVMBytecodeMagic : UInt64 := 0xD225DE2F4214151D

def hashCombine (key : UInt64) (value : Index) : UInt64 :=
  key ^^^ (UInt64.ofInt value + 0x9e3779b9 + key <<< (6 : UInt64) + key >>> (2 : UInt64))

def VMInstructionSerializer.hash (instr : VMInstructionSerializer) : Index :=
  (instr.fields.foldl hashCombine (.ofInt instr.opcode)).toInt64.toInt

def VMInstructionSerializer.save (instr : VMInstructionSerializer) : List Byte :=
  dmlc.writeIndexes ([instr.hash, instr.opcode] ++ instr.fields)

def saveHeader (version : String) : List Byte :=
  dmlc.uint64.write kTVMVMBytecodeMagic ++ dmlc.string.write version

def saveVirtualDevicesSection (exec : Executable Device Tensor) : List Byte :=
  dmlc.devices.write exec.virtualDevices ++ dmlc.int.write (.ofInt exec.hostDeviceIndex)

def saveGlobalSection (exec : Executable Device Tensor) : List Byte :=
  dmlc.strings.write
    ((sorting.sort (fun a b => decide ((a.2 : Int) < b.2)) exec.globalMap).map Prod.fst)

def Executable.table (exec : Executable Device Tensor) : List (Option Tensor × Option String) :=
  exec.constants.zip
    (if exec.lateBoundConstantNames.isEmpty then exec.constants.map fun _ => none
      else exec.lateBoundConstantNames)

def saveConstant : Option Tensor × Option String → Except Fault (List Byte)
  | (some tensor, none) => return dmlc.uint32.write 0 ++ dmlc.tensor.write tensor
  | (none, some name) => return dmlc.uint32.write 1 ++ dmlc.string.write name
  | _ => throw .check

def saveConstantSection (exec : Executable Device Tensor) : Except Fault (List Byte) := do
  ensure .undefined (exec.table.length = exec.constants.length)
  let constants ← exec.table.mapM (saveConstant dmlc)
  return dmlc.writeSize exec.constants.length ++
    (constants.flatten ++ dmlc.writeIndexes exec.constDeviceIndexes)

def placeName (names : List String) (entry : String × Nat) : List String :=
  (names ++ List.replicate (entry.2 + 1 - names.length) "").set entry.2 entry.1

-- `std::map` keeps the attributes by their names. Only strings can be saved.
def savedAttrs (attrs : List (String × ObjectRef)) : List (String × String) :=
  sorting.sort (fun a b => decide (a.1 < b.1)) (attrs.filterMap fun
    | (key, .string value) => some (key, value)
    | (_, .other) => none)

def savePrimitiveOpNames (exec : Executable Device Tensor) : List Byte :=
  dmlc.strings.write (exec.primitiveMap.foldl placeName []) ++
    dmlc.attrs.write (exec.opAttrs.map fun entry => (.ofNat entry.1, savedAttrs sorting entry.2))

def saveFunction (func : VMFunction) : List Byte :=
  dmlc.strings.write [func.name, toString func.registerFileSize,
      toString (func.instructions.length : Int)] ++
    (dmlc.strings.write func.params ++ (dmlc.writeIndexes func.paramDeviceIndexes ++
      func.instructions.flatMap fun instr => (serializeInstruction instr).save dmlc))

def saveCodeSection (exec : Executable Device Tensor) : List Byte :=
  dmlc.writeSize exec.functions.length ++ exec.functions.flatMap (saveFunction dmlc)

def save (version : String) (exec : Executable Device Tensor) : Except Fault (List Byte) := do
  let constants ← saveConstantSection dmlc exec
  return saveHeader dmlc version ++ (saveVirtualDevicesSection dmlc exec ++
    (saveGlobalSection dmlc sorting exec ++ (constants ++
      (savePrimitiveOpNames dmlc sorting exec ++ saveCodeSection dmlc exec))))

def stoll (text : String) : Except Fault Index := do
  return signed (← found .invalidArgument (scanNumeral text.toList))

def loadHeader (version : String) : Reader Byte Unit := do
  let header ← dmlc.uint64.read
  ensure .check (header = kTVMVMBytecodeMagic)
  let loaded ← dmlc.string.read
  ensure .check (loaded = version)

def loadVirtualDevicesSection : Reader Byte (List Device × Int) := do
  let virtualDevices ← dmlc.devices.read
  let hostDeviceIndex := (← dmlc.int.read).toInt
  ensure .check (0 ≤ hostDeviceIndex ∧ hostDeviceIndex < virtualDevices.length)
  return (virtualDevices, hostDeviceIndex)

-- `insert` leaves a name that is there already.
def insertIndex (map : List (String × Nat)) (entry : String × Nat) : List (String × Nat) :=
  if map.any (·.1 = entry.1) then map else map ++ [entry]

def indexMap (names : List String) : List (String × Nat) :=
  names.zipIdx.foldl insertIndex []

def loadConstant : Reader Byte (Option Tensor × Option String) := do
  let tag ← dmlc.uint32.read
  if tag = 0 then (fun tensor => (some tensor, none)) <$> dmlc.tensor.read
  else if tag = 1 then (fun name => (none, some name)) <$> dmlc.string.read
  else throw .check

def loadConstantSection : Reader Byte (List (Option Tensor × Option String) × List Index) := do
  let size ← dmlc.readSize
  let constants ← readMany (loadConstant dmlc) size
  let indexes ← dmlc.readIndexes
  ensure .check (size = indexes.length)
  return (constants, indexes)

def loadedAttrs (attrs : List (String × String)) : List (String × ObjectRef) :=
  attrs.map fun elem => (elem.1, .string elem.2)

def loadPrimitiveOpNames :
    Reader Byte (List (String × Nat) × List (Nat × List (String × ObjectRef))) := do
  let primitiveNames ← dmlc.strings.read
  let primitiveAttrs ← dmlc.attrs.read
  return (indexMap primitiveNames, primitiveAttrs.map fun fn => (fn.1.toNat, loadedAttrs fn.2))

def loadInstruction : Reader Byte Instruction := do
  match ← dmlc.readIndexes with
  | hash :: opcode :: fields =>
    let instr : VMInstructionSerializer := ⟨opcode, fields⟩
    ensure .check (hash = instr.hash)
    deserializeInstruction instr
  | _ => throw .check

def loadFunction : Reader Byte VMFunction := do
  match ← dmlc.strings.read with
  | [name, registers, count] =>
    let registerFileSize ← stoll registers
    let numInstructions ← stoll count
    let params ← dmlc.strings.read
    let paramDeviceIndexes ← dmlc.readIndexes
    let instructions ← readMany (loadInstruction dmlc) numInstructions.toNat
    if paired : params.length = paramDeviceIndexes.length then
      return { name, params, instructions, registerFileSize, paramDeviceIndexes, paired }
    else throw .check
  | _ => throw .check

def placeFunction (globalMap : List (String × Nat)) (functions : List VMFunction) (func : VMFunction) :
    Except Fault (List VMFunction) := do
  let entry ← found .check (globalMap.find? (·.1 = func.name))
  ensure .check (entry.2 ≤ globalMap.length)
  ensure .undefined (entry.2 < functions.length)
  return functions.set entry.2 func

-- The functions are read first and then placed. In the source one follows the other in each round.
def loadCodeSection (globalMap : List (String × Nat)) : Reader Byte (List VMFunction) := do
  let numFuncs ← dmlc.readSize
  let loaded ← readMany (loadFunction dmlc) numFuncs
  liftM (loaded.foldlM (placeFunction globalMap) (List.replicate numFuncs ⟨"", [], [], 0, [], rfl⟩))

def load (version : String) : Reader Byte (Executable Device Tensor) := do
  loadHeader dmlc version
  let (virtualDevices, hostDeviceIndex) ← loadVirtualDevicesSection dmlc
  let globals ← dmlc.strings.read
  let (constants, constDeviceIndexes) ← loadConstantSection dmlc
  let (primitiveMap, opAttrs) ← loadPrimitiveOpNames dmlc
  let functions ← loadCodeSection dmlc (indexMap globals)
  return {
    virtualDevices, hostDeviceIndex
    constants := constants.map Prod.fst
    lateBoundConstantNames := if constants.any (·.2.isSome) then constants.map Prod.snd else []
    globalMap := indexMap globals
    primitiveMap, opAttrs, functions, constDeviceIndexes }

end

end Tlm.Vm
