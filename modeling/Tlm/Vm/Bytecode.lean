import Tlm.Shared.Loop

set_option autoImplicit false

namespace Tlm.Vm

open Cpp

abbrev Index := Int

structure DLDataType where
  code : UInt8
  bits : UInt8
  lanes : UInt16
  deriving DecidableEq, Repr

inductive Instruction where
  | move (src dst : Index)
  | ret (result : Index)
  | invoke (funcIndex : Index) (args : List Index) (dst : Index)
  | invokeClosure (closure : Index) (args : List Index) (dst : Index)
  | invokePacked (packedIndex outputSize : Index) (args : List Index)
  | allocTensor (storage offset : Index) (shape : List Index) (dtype : DLDataType) (dst : Index)
  | allocTensorReg (storage offset shapeRegister : Index) (dtype : DLDataType) (dst : Index)
  | allocADT (constructorTag : Index) (fields : List Index) (dst : Index)
  | allocClosure (cloIndex : Index) (freeVars : List Index) (dst : Index)
  | getField (object fieldIndex dst : Index)
  | ifOp (test target trueOffset falseOffset : Index)
  | loadConst (constIndex dst : Index)
  | goto (pcOffset : Index)
  | getTag (object dst : Index)
  | loadConsti (val dst : Index)
  | fatal
  | allocStorage (allocationSize alignment : Index) (dtypeHint : DLDataType) (deviceIndex dst : Index)
  | shapeOf (tensor dst : Index)
  | reshapeTensor (tensor newshape dst : Index)
  | deviceCopy (src srcDeviceIndex dstDeviceIndex dst : Index)
  | killRegister (dst : Index)
  deriving DecidableEq, Repr

structure VMInstructionSerializer where
  opcode : Index
  fields : List Index
  deriving DecidableEq, Repr

def DLDataType.fields (dtype : DLDataType) : List Index :=
  [dtype.code.toNat, dtype.bits.toNat, dtype.lanes.toNat]

def DLDataType.ofFields (code bits lanes : Index) : DLDataType where
  code := .ofNat (code % 2 ^ 8).toNat
  bits := .ofNat (bits % 2 ^ 8).toNat
  lanes := .ofNat (lanes % 2 ^ 16).toNat

def serializeInstruction : Instruction → VMInstructionSerializer
  | .move src dst => ⟨0, [src, dst]⟩
  | .ret result => ⟨1, [result]⟩
  | .invoke funcIndex args dst => ⟨2, [funcIndex, args.length, dst] ++ args⟩
  | .invokeClosure closure args dst => ⟨3, [closure, args.length, dst] ++ args⟩
  | .invokePacked packedIndex outputSize args => ⟨4, [packedIndex, args.length, outputSize] ++ args⟩
  | .allocTensor storage offset shape dtype dst =>
    ⟨5, [storage, offset] ++ dtype.fields ++ [(shape.length : Index), dst] ++ shape⟩
  | .allocTensorReg storage offset shapeRegister dtype dst =>
    ⟨6, [storage, offset, shapeRegister] ++ dtype.fields ++ [dst]⟩
  | .allocADT constructorTag fields dst => ⟨7, [constructorTag, fields.length, dst] ++ fields⟩
  | .allocClosure cloIndex freeVars dst => ⟨8, [cloIndex, freeVars.length, dst] ++ freeVars⟩
  | .getField object fieldIndex dst => ⟨9, [object, fieldIndex, dst]⟩
  | .ifOp test target trueOffset falseOffset => ⟨10, [test, target, trueOffset, falseOffset]⟩
  | .loadConst constIndex dst => ⟨11, [constIndex, dst]⟩
  | .goto pcOffset => ⟨12, [pcOffset]⟩
  | .getTag object dst => ⟨13, [object, dst]⟩
  | .loadConsti val dst => ⟨14, [val, dst]⟩
  | .fatal => ⟨15, []⟩
  | .allocStorage allocationSize alignment dtypeHint deviceIndex dst =>
    ⟨16, [allocationSize, alignment] ++ dtypeHint.fields ++ [deviceIndex, dst]⟩
  | .shapeOf tensor dst => ⟨17, [tensor, dst]⟩
  | .reshapeTensor tensor newshape dst => ⟨18, [tensor, newshape, dst]⟩
  | .deviceCopy src srcDeviceIndex dstDeviceIndex dst => ⟨19, [src, srcDeviceIndex, dstDeviceIndex, dst]⟩
  | .killRegister dst => ⟨20, [dst]⟩

-- A negative sum is a large `size_t`.
def extractFields (instrFields : List Index) (start : Nat) (cnt : Index) : Except Fault (List Index) := do
  ensure .check (0 ≤ start + cnt ∧ start + cnt ≤ instrFields.length)
  return (instrFields.drop start).take cnt.toNat

-- The `DCHECK`s on the number of fields are not part of a release build. A missing field is undefined.
def deserializeInstruction (instr : VMInstructionSerializer) : Except Fault Instruction :=
  match instr.opcode, instr.fields with
  | 0, src :: dst :: _ => return .move src dst
  | 1, result :: _ => return .ret result
  | 2, funcIndex :: numArgs :: dst :: _ =>
    return .invoke funcIndex (← extractFields instr.fields 3 numArgs) dst
  | 3, closure :: numClosureArgs :: dst :: _ =>
    return .invokeClosure closure (← extractFields instr.fields 3 numClosureArgs) dst
  | 4, packedIndex :: arity :: outputSize :: _ =>
    return .invokePacked packedIndex outputSize (← extractFields instr.fields 3 arity)
  | 5, storage :: offset :: code :: bits :: lanes :: ndim :: dst :: _ =>
    return .allocTensor storage offset (← extractFields instr.fields 7 ndim) (.ofFields code bits lanes) dst
  | 6, storage :: offset :: shapeRegister :: code :: bits :: lanes :: dst :: _ =>
    return .allocTensorReg storage offset shapeRegister (.ofFields code bits lanes) dst
  | 7, constructorTag :: numFields :: dst :: _ =>
    return .allocADT constructorTag (← extractFields instr.fields 3 numFields) dst
  | 8, cloIndex :: numFreevar :: dst :: _ =>
    return .allocClosure cloIndex (← extractFields instr.fields 3 numFreevar) dst
  | 9, object :: fieldIndex :: dst :: _ => return .getField object fieldIndex dst
  | 10, test :: target :: trueOffset :: falseOffset :: _ => return .ifOp test target trueOffset falseOffset
  | 11, constIndex :: dst :: _ => return .loadConst constIndex dst
  | 12, pcOffset :: _ => return .goto pcOffset
  | 13, object :: dst :: _ => return .getTag object dst
  | 14, val :: dst :: _ => return .loadConsti val dst
  | 15, _ => return .fatal
  | 16, allocationSize :: alignment :: code :: bits :: lanes :: deviceIndex :: dst :: _ =>
    return .allocStorage allocationSize alignment (.ofFields code bits lanes) deviceIndex dst
  | 17, tensor :: dst :: _ => return .shapeOf tensor dst
  | 18, tensor :: newshape :: dst :: _ => return .reshapeTensor tensor newshape dst
  | 19, src :: srcDeviceIndex :: dstDeviceIndex :: dst :: _ =>
    return .deviceCopy src srcDeviceIndex dstDeviceIndex dst
  | 20, dst :: _ => return .killRegister dst
  | opcode, _ => throw (if 0 ≤ opcode ∧ opcode ≤ 20 then .undefined else .check)

theorem DLDataType.ofFields_fields (dtype : DLDataType) :
    ofFields dtype.code.toNat dtype.bits.toNat dtype.lanes.toNat = dtype := by
  obtain ⟨code, bits, lanes⟩ := dtype
  have wide {n w : Nat} (small : n < 2 ^ w) : ((n : Int) % 2 ^ w).toNat = n := by
    have : ((2 ^ w : Nat) : Int) = 2 ^ w := by simp
    rw [← this, ← Int.natCast_emod, Int.toNat_natCast, Nat.mod_eq_of_lt small]
  simp only [ofFields, wide code.toNat_lt, wide bits.toNat_lt, wide lanes.toNat_lt, UInt8.ofNat_toNat,
    UInt16.ofNat_toNat]

theorem extractFields_tail (front tail : List Index) :
    extractFields (front ++ tail) front.length tail.length = .ok tail := by
  have fits : (0 : Int) ≤ front.length + tail.length := by omega
  simp [extractFields, fits]

theorem deserializeInstruction_serializeInstruction (instr : Instruction) :
    deserializeInstruction (serializeInstruction instr) = .ok instr := by
  have after (front tail : List Index) (make : List Index → Instruction) :
      (do return make (← extractFields (front ++ tail) front.length tail.length)) = Except.ok (make tail) := by
    rw [extractFields_tail]
    rfl
  cases instr with
  | invoke funcIndex args dst => exact after [_, _, _] args (.invoke funcIndex · dst)
  | invokeClosure closure args dst => exact after [_, _, _] args (.invokeClosure closure · dst)
  | invokePacked packedIndex outputSize args =>
    exact after [_, _, _] args (.invokePacked packedIndex outputSize ·)
  | allocADT constructorTag fields dst => exact after [_, _, _] fields (.allocADT constructorTag · dst)
  | allocClosure cloIndex freeVars dst => exact after [_, _, _] freeVars (.allocClosure cloIndex · dst)
  | allocTensor storage offset shape dtype dst =>
    refine (after [_, _, _, _, _, _, _] shape (.allocTensor storage offset ·
      (.ofFields dtype.code.toNat dtype.bits.toNat dtype.lanes.toNat) dst)).trans ?_
    rw [DLDataType.ofFields_fields]
  | allocTensorReg storage offset shapeRegister dtype dst =>
    exact congrArg (fun dtype => Except.ok (Instruction.allocTensorReg storage offset shapeRegister dtype dst))
      dtype.ofFields_fields
  | allocStorage allocationSize alignment dtypeHint deviceIndex dst =>
    exact congrArg (fun dtype => Except.ok (Instruction.allocStorage allocationSize alignment dtype deviceIndex dst))
      dtypeHint.ofFields_fields
  | _ => rfl

-- A word of the union: nothing that can be read, or what was stored there last.
inductive Word where
  | unset
  | index (value : Index)
  | size (value : Nat) -- a `uint32_t` and padding
  | dtype (value : DLDataType) -- four bytes and padding
  | array (elements : List Index)
  deriving DecidableEq

structure Object where
  op : Index
  dst : Word
  union : Nat → Word

def Object.make (op : Index) (dst : Word) (words : List Word) : Object :=
  ⟨op, dst, fun i => words.getD i .unset⟩

-- What the static constructors make.
def Instruction.object : Instruction → Object
  | .move src dst => .make 0 (.index dst) [.index src]
  | .ret result => .make 1 .unset [.index result]
  | .invoke funcIndex args dst =>
    .make 2 (.index dst) [.index funcIndex, .index args.length, .array args]
  | .invokeClosure closure args dst =>
    .make 3 (.index dst) [.index closure, .index args.length, .array args]
  | .invokePacked packedIndex outputSize args =>
    .make 4 .unset [.index packedIndex, .index args.length, .index outputSize, .array args]
  | .allocTensor storage offset shape dtype dst =>
    .make 5 (.index dst) [.index storage, .index offset, .size shape.length, .array shape, .dtype dtype]
  | .allocTensorReg storage offset shapeRegister dtype dst =>
    .make 6 (.index dst) [.index storage, .index offset, .index shapeRegister, .dtype dtype]
  | .allocADT constructorTag fields dst =>
    .make 7 (.index dst) [.index constructorTag, .index fields.length, .array fields]
  | .allocClosure cloIndex freeVars dst =>
    .make 8 (.index dst) [.index cloIndex, .index freeVars.length, .array freeVars]
  | .getField object fieldIndex dst => .make 9 (.index dst) [.index object, .index fieldIndex]
  | .ifOp test target trueOffset falseOffset =>
    .make 10 .unset [.index test, .index target, .index trueOffset, .index falseOffset]
  | .loadConst constIndex dst => .make 11 (.index dst) [.index constIndex]
  | .goto pcOffset => .make 12 .unset [.index pcOffset]
  | .getTag object dst => .make 13 (.index dst) [.index object]
  | .loadConsti val dst => .make 14 (.index dst) [.index val]
  | .fatal => .make 15 .unset []
  | .allocStorage allocationSize alignment dtypeHint deviceIndex dst =>
    .make 16 (.index dst) [.index allocationSize, .index alignment, .dtype dtypeHint, .index deviceIndex]
  | .shapeOf tensor dst => .make 17 (.index dst) [.index tensor]
  | .reshapeTensor tensor newshape dst => .make 18 (.index dst) [.index tensor, .index newshape]
  | .deviceCopy src srcDeviceIndex dstDeviceIndex dst =>
    .make 19 (.index dst) [.index src, .index srcDeviceIndex, .index dstDeviceIndex]
  | .killRegister dst => .make 20 (.index dst) []

namespace Object

def store (object : Object) (place : Nat) (word : Word) : Object :=
  { object with union := fun i => if i = place then word else object.union i }

-- `this->field = instr.field` for the fields at these places.
def takeFields (object instr : Object) (places : List Nat) : Object :=
  places.foldl (fun object place => object.store place (instr.union place)) object

-- The elements of an array whose size is in another word.
def elements (array size : Word) : Except Fault (List Index) :=
  match array, size with
  | .array elements, .index n => do
    ensure .undefined (0 ≤ n ∧ n ≤ elements.length)
    return elements.take n.toNat
  | .array elements, .size n => do
    ensure .undefined (n ≤ elements.length)
    return elements.take n
  | _, _ => throw .undefined

def duplicate (array size : Word) : Except Fault Word := do
  return .array (← elements array size)

def copy (instr : Object) : Except Fault Object :=
  let this : Object := ⟨instr.op, instr.dst, fun _ => .unset⟩
  match instr.op with
  | 0 => return this.takeFields instr [0]
  | 15 => return this
  | 1 => return this.takeFields instr [0]
  | 5 => return (this.takeFields instr [0, 1, 2, 4]).store 3 (← duplicate (instr.union 3) (instr.union 2))
  | 6 => return this.takeFields instr [0, 1, 2, 3]
  | 7 => return (this.takeFields instr [0, 1]).store 2 (← duplicate (instr.union 2) (instr.union 1))
  | 8 => return (this.takeFields instr [0, 1]).store 2 (← duplicate (instr.union 2) (instr.union 1))
  | 4 => return (this.takeFields instr [0, 1, 2]).store 3 (← duplicate (instr.union 3) (instr.union 1))
  | 3 => return (this.takeFields instr [0, 1]).store 2 (← duplicate (instr.union 2) (instr.union 1))
  | 2 => return (this.takeFields instr [0, 1]).store 2 (← duplicate (instr.union 2) (instr.union 1))
  | 10 => return this.takeFields instr [0, 1, 2, 3]
  | 11 => return this.takeFields instr [0]
  | 14 => return this.takeFields instr [0]
  | 9 => return this.takeFields instr [0, 1]
  | 13 => return this.takeFields instr [0]
  | 12 => return this.takeFields instr [0]
  | 16 => return this.takeFields instr [0, 1, 2, 3]
  | 17 => return this.takeFields instr [0]
  | 18 => return this.takeFields instr [0, 1]
  | 19 => return this.takeFields instr [0, 1, 2]
  | 20 => return this
  | _ => throw .check

-- `delete` is undefined for an array, and does nothing for a null pointer.
def freeIf (word : Word) : Except Fault Unit :=
  ensure .undefined (word = .index 0)

def assign (previous instr : Object) : Except Fault Object :=
  let this : Object := ⟨instr.op, instr.dst, previous.union⟩
  match instr.op with
  | 0 => return this.takeFields instr [0]
  | 15 => return this
  | 14 => return this.takeFields instr [0]
  | 1 => return this.takeFields instr [0]
  -- `this->alloc_tensor.storage = this->alloc_tensor.storage;`
  | 5 => do
    let shape ← duplicate (instr.union 3) (instr.union 2)
    return ((this.takeFields this [0]).takeFields instr [1, 2, 4]).store 3 shape
  | 6 => return this.takeFields instr [0, 1, 2, 3]
  | 7 => do
    freeIf (this.union 2)
    return (this.takeFields instr [0, 1]).store 2 (← duplicate (instr.union 2) (instr.union 1))
  | 8 => do
    freeIf (this.union 2)
    return (this.takeFields instr [0, 1]).store 2 (← duplicate (instr.union 2) (instr.union 1))
  | 4 => do
    freeIf (this.union 3)
    return (this.takeFields instr [0, 1, 2]).store 3 (← duplicate (instr.union 3) (instr.union 1))
  | 3 => do
    freeIf (this.union 2)
    return (this.takeFields instr [0, 1]).store 2 (← duplicate (instr.union 2) (instr.union 1))
  | 2 => do
    freeIf (this.union 2)
    return (this.takeFields instr [0, 1]).store 2 (← duplicate (instr.union 2) (instr.union 1))
  | 10 => return this.takeFields instr [0, 1, 2, 3]
  | 11 => return this.takeFields instr [0]
  | 9 => return this.takeFields instr [0, 1]
  | 13 => return this.takeFields instr [0]
  | 12 => return this.takeFields instr [0]
  | 16 => return this.takeFields instr [0, 1, 2, 3]
  | 17 => return this.takeFields instr [0]
  | 18 => return this.takeFields instr [0, 1]
  | 19 => return this.takeFields instr [0, 1, 2]
  | 20 => return this
  | _ => throw .check

-- The kinds of fields that are read for a serialized instruction.
inductive Field where
  | index (word : Word)
  | size (word : Word)
  | dtype (word : Word)
  | range (array size : Word)

def Field.read : Field → Except Fault (List Index)
  | .index (.index value) => return [value]
  | .size (.size value) => return [(value : Index)]
  | .dtype (.dtype value) => return value.fields
  | .range array count => elements array count
  | _ => throw .undefined

def fields (object : Object) : Except Fault (List Field) :=
  let word := object.union
  let dst := Field.index object.dst
  match object.op with
  | 0 => return [.index (word 0), dst]
  | 1 => return [.index (word 0)]
  | 15 => return []
  | 4 => return [.index (word 0), .index (word 1), .index (word 2), .range (word 3) (word 1)]
  | 5 => return [.index (word 0), .index (word 1), .dtype (word 4), .size (word 2), dst, .range (word 3) (word 2)]
  | 6 => return [.index (word 0), .index (word 1), .index (word 2), .dtype (word 3), dst]
  | 16 => return [.index (word 0), .index (word 1), .dtype (word 2), .index (word 3), dst]
  | 7 | 8 | 2 | 3 => return [.index (word 0), .index (word 1), dst, .range (word 2) (word 1)]
  | 10 => return [.index (word 0), .index (word 1), .index (word 2), .index (word 3)]
  | 11 | 14 | 13 | 17 => return [.index (word 0), dst]
  | 9 | 18 => return [.index (word 0), .index (word 1), dst]
  | 12 => return [.index (word 0)]
  | 19 => return [.index (word 0), .index (word 1), .index (word 2), dst]
  | 20 => return [dst]
  | _ => throw .check

def serialize (object : Object) : Except Fault VMInstructionSerializer := do
  return ⟨object.op, ← concatM Field.read (← object.fields)⟩

theorem elements_index (items : List Index) : elements (.array items) (.index items.length) = .ok items := by
  simp [elements]

theorem elements_size (items : List Index) : elements (.array items) (.size items.length) = .ok items := by
  simp [elements]

end Object

-- The object that a constructor makes is serialized as its instruction.
theorem serialize_object (instr : Instruction) : instr.object.serialize = .ok (serializeInstruction instr) := by
  cases instr <;> simp [Instruction.object, Object.make, Object.serialize, Object.fields, concatM, Object.Field.read,
    Object.elements_index, Object.elements_size, serializeInstruction]

-- What the words of the previous object must be, where they are not all overwritten.
def Object.Assignable (previous : Object) : Instruction → Prop
  | .allocTensor storage .. => previous.union 0 = .index storage
  | .invoke .. | .invokeClosure .. | .allocADT .. | .allocClosure .. => previous.union 2 = .index 0
  | .invokePacked .. => previous.union 3 = .index 0
  | _ => True

theorem copy_serialize (instr : Instruction) :
    ∃ copy, instr.object.copy = .ok copy ∧ copy.serialize = .ok (serializeInstruction instr) := by
  cases instr <;> simp [Instruction.object, Object.make, Object.copy, Object.takeFields, Object.store,
    Object.duplicate, Object.serialize, Object.fields, concatM, Object.Field.read, Object.elements_index,
    Object.elements_size, serializeInstruction]

theorem assign_serialize_iff (previous : Object) (instr : Instruction) :
    (∃ copy, previous.assign instr.object = .ok copy ∧ copy.serialize = .ok (serializeInstruction instr)) ↔
      previous.Assignable instr := by
  cases instr with
  | allocTensor storage offset shape dtype dst =>
    -- The first field is read from what the previous object has there.
    cases held : previous.union 0 <;> simp [Instruction.object, Object.make, Object.assign, Object.takeFields,
      Object.store, Object.duplicate, Object.serialize, Object.fields, concatM, Object.Field.read,
      Object.elements_size, Object.Assignable, serializeInstruction, held]
  | _ =>
    simp [Instruction.object, Object.make, Object.assign, Object.takeFields, Object.store, Object.duplicate,
      Object.freeIf, Object.serialize, Object.fields, concatM, Object.Field.read, Object.elements_index,
      Object.Assignable, serializeInstruction]

theorem copies_serialize_iff (previous : Object) (instr : Instruction) :
    ((∃ copy, instr.object.copy = .ok copy ∧ copy.serialize = instr.object.serialize) ∧
        ∃ copy, previous.assign instr.object = .ok copy ∧ copy.serialize = instr.object.serialize) ↔
      previous.Assignable instr := by
  rw [serialize_object, and_iff_right (copy_serialize instr), assign_serialize_iff]

theorem storage_not_assigned :
    ∃ copy, (Instruction.move 1 2).object.assign (Instruction.allocTensor 7 0 [] ⟨0, 32, 1⟩ 3).object = .ok copy ∧
      copy.serialize ≠ (Instruction.allocTensor 7 0 [] ⟨0, 32, 1⟩ 3).object.serialize :=
  ⟨_, rfl, by decide⟩

end Tlm.Vm
