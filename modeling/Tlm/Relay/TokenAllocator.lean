import Mathlib.Data.List.AList
import Tlm.Relay.Graph
import Tlm.Shared.Traced

set_option autoImplicit false

namespace Tlm.Relay

open Cpp

inductive Event where
  -- A free token whose tensor type has `room` bytes is used again for `size` bytes.
  | reused (size room : Nat)
  deriving DecidableEq, Repr

def Event.Fits : Event → Prop
  | .reused size room => size ≤ room

instance : DecidablePred Event.Fits
  | .reused size room => inferInstanceAs (Decidable (size ≤ room))

abbrev Planning := Traced Fault Event

def MemoryScope.is2DStorage : MemoryScope → Bool
  | .flat => false
  | _ => true

structure StorageToken where
  refCounter : Int
  maxBytes : Nat
  -- Missing for -1.
  storageId : Option Nat
  deriving DecidableEq, Repr

structure MemBlock (Node : Type) where
  token : Value Node
  x : Int
  y : Int

structure TokenAllocator (Node : Type) where
  tokens : Value Node → StorageToken
  storageIds : Nat
  -- `free_` of the flat allocator, by size.
  free : List (Nat × Value Node)
  blocks : AList fun _ : Nat => MemBlock Node
  freeList : List Nat

def divRoundUp (size wordSize : Nat) : Nat :=
  (size + wordSize - 1) / wordSize

def dimension (size : Nat) : Option Int → Planning Nat
  | some value => if 0 ≤ value then return size * value.toNat % 2 ^ 64 else Traced.fail .check
  | none => Traced.fail .check

def getMemorySize (type : TensorType) : Planning Nat := do
  let size ← type.shape.foldlM dimension 1
  return size * divRoundUp (type.dtype.bits * type.dtype.lanes) 8 % 2 ^ 64

def TensorType.bytes (type : TensorType) : Nat :=
  (type.shape.map fun dim => (dim.getD 0).toNat).prod *
    divRoundUp (type.dtype.bits * type.dtype.lanes) 8

structure Texture2DShape where
  width : Int
  height : Int
  deriving DecidableEq, Repr

def defaultTextureLayoutSeparator (shapeRank : Nat) : MemoryScope → Planning Int
  | .texture => return shapeRank - 2
  | .textureWeight => return 1
  | .textureNhwc => return if shapeRank = 3 then 1 else 2
  | .flat | .otherTexture => Traced.fail .check

def mulInt64 (a b : Int) : Planning Int :=
  if -2 ^ 63 ≤ a * b ∧ a * b < 2 ^ 63 then return a * b else Traced.fail .undefined

def flattenAxis (axis : Nat) (texture : Texture2DShape) (dim : Option Int × Nat) :
    Planning Texture2DShape :=
  match dim with
  | (none, _) => Traced.fail .undefined
  | (some extent, i) => do
    if i < axis then return { texture with height := ← mulInt64 texture.height extent }
    else return { texture with width := ← mulInt64 texture.width extent }

def applyTexture2DFlattening (shape : List (Option Int)) (axis : Int) : Planning Texture2DShape :=
  -- A negative axis is a large `size_t`.
  if 0 ≤ axis ∧ axis < shape.length then
    shape.dropLast.zipIdx.foldlM (flattenAxis axis.toNat) ⟨1, 1⟩
  else Traced.fail .check

section

variable {Node : Type} [DecidableEq Node] (graph : Graph Node)

def getSize2D (v : Value Node) : Planning Texture2DShape := do
  let shape := (graph.tensorType v).shape
  let axis ← defaultTextureLayoutSeparator shape.length (graph.virtualDevice v.1).memoryScope
  applyTexture2DFlattening shape axis

def is2DStorage (v : Value Node) : Bool :=
  (graph.virtualDevice v.1).memoryScope.is2DStorage

namespace TokenAllocator

variable (a : TokenAllocator Node)

def set (v : Value Node) (token : StorageToken) : TokenAllocator Node :=
  { a with tokens := Function.update a.tokens v token }

def addRef (v : Value Node) (count : Int) : TokenAllocator Node :=
  a.set v { a.tokens v with refCounter := (a.tokens v).refCounter + count }

-- A multimap puts a new entry behind those with the same key.
def insertFree (size : Nat) (v : Value Node) (free : List (Nat × Value Node)) :
    List (Nat × Value Node) :=
  free.takeWhile (fun entry => entry.1 ≤ size) ++ (size, v) ::
    free.dropWhile fun entry => entry.1 ≤ size

def matchRange : Nat := 16

-- The free tokens in the order of the search: the larger ones upwards, then the smaller ones downwards.
def candidates (size : Nat) : Planning (List (Nat × Value Node)) :=
  let begin := a.free.countP fun entry => entry.1 < size / matchRange
  let mid := a.free.countP fun entry => entry.1 < size
  let last := a.free.countP fun entry => entry.1 ≤ size * matchRange % 2 ^ 64
  -- The loop that starts behind its end does not stop.
  if last < mid then Traced.fail .undefined
  else return (a.free.take last).drop mid ++ ((a.free.take mid).drop begin).reverse

def isCompatible (t v : Value Node) : Bool :=
  graph.virtualDevice t.1 = graph.virtualDevice v.1

def request1D (v : Value Node) : Planning (Option (Value Node) × TokenAllocator Node) := do
  let size ← getMemorySize (graph.tensorType v)
  let found ← a.candidates size
  match found.find? fun entry => isCompatible graph entry.2 v with
  | none => return (none, a)
  | some entry =>
    let token := a.tokens entry.2
    if token.refCounter ≠ 0 then Traced.fail .check
    else
      Traced.emit (.reused size ((graph.tensorType entry.2).bytes % 2 ^ 64))
      let reused := a.set entry.2
        { token with maxBytes := max size token.maxBytes, refCounter := (a.tokens v).refCounter }
      return (some entry.2, { reused with free := a.free.erase entry })

def alloc1D (v : Value Node) (storageId : Nat) : Planning (TokenAllocator Node) := do
  let size ← getMemorySize (graph.tensorType v)
  return a.set v { a.tokens v with maxBytes := size, storageId := some storageId }

structure Search where
  addedX : Int
  addedY : Int
  wastedX : Int
  wastedY : Int
  -- The block and its new extents.
  best : Option (Nat × Int × Int)

def maxInt64 : Int := 2 ^ 63 - 1

def maxRatio : Int := 5

def tooFar : List (Int × Int) → Planning Bool
  | [] => return false
  | (dividend, divisor) :: rest =>
    if divisor = 0 then Traced.fail .undefined
    else if maxRatio < dividend.tdiv divisor then return true
    else tooFar rest

def consider (v : Value Node) (shape : Texture2DShape) (search : Search) (freeId : Nat) :
    Planning Search :=
  match a.blocks.lookup freeId with
  | none => Traced.fail .undefined
  | some cached =>
    if (graph.tensorType cached.token).dtype ≠ (graph.tensorType v).dtype then return search
    else if (graph.virtualDevice cached.token.1).memoryScope ≠ (graph.virtualDevice v.1).memoryScope
      then return search
    else do
      let far ← tooFar [(shape.width, cached.x), (cached.x, shape.width), (shape.height, cached.y),
        (cached.y, shape.height)]
      let newWidth := max cached.x shape.width
      let newHeight := max cached.y shape.height
      let addedX := newWidth - cached.x
      let addedY := newHeight - cached.y
      let wastedX := newWidth - shape.width
      let wastedY := newHeight - shape.height
      let better := (0 < search.addedX ∧ addedX < search.addedX) ∨
        (0 < search.addedY ∧ addedY < search.addedY) ∨
        (search.addedX = addedX ∧ wastedX < search.wastedX) ∨
        (search.addedY = addedY ∧ wastedY < search.wastedY)
      return if far = false ∧ better then
          ⟨addedX, addedY, wastedX, wastedY, some (freeId, newWidth, newHeight)⟩
        else search

def request2D (order : List Nat → List Nat) (v : Value Node) :
    Planning (Option (Value Node) × TokenAllocator Node) := do
  let shape ← getSize2D graph v
  let search ← (order a.freeList).foldlM (a.consider graph v shape)
    ⟨maxInt64, maxInt64, maxInt64, maxInt64, none⟩
  if search.addedX = 0 ∧ search.addedY = 0 then
    match search.best with
    | none => Traced.fail .undefined
    | some (id, _, _) =>
      match a.blocks.lookup id with
      | none => Traced.fail .undefined
      | some block =>
        return (some block.token,
          { a.addRef block.token (a.tokens v).refCounter with freeList := a.freeList.filter (· ≠ id) })
  else if search.addedX ≤ shape.width ∨ search.addedY ≤ shape.height then
    match search.best with
    -- The next check refuses the storage id -1.
    | none => Traced.fail .check
    | some (id, x, y) =>
      let token := a.tokens v
      let taken := a.set v { token with refCounter := token.refCounter + 1, storageId := some id }
      return (some v, { taken with
        freeList := a.freeList.filter (· ≠ id), blocks := a.blocks.insert id ⟨v, x, y⟩ })
  else return (none, a)

def alloc2D (v : Value Node) (storageId : Nat) : Planning (TokenAllocator Node) := do
  let shape ← getSize2D graph v
  let taken := a.set v { a.tokens v with storageId := some storageId }
  return { taken with blocks := a.blocks.insert storageId ⟨v, shape.width, shape.height⟩ }

def alloc (v : Value Node) : Planning (Value Node × TokenAllocator Node) := do
  let next := { a with storageIds := a.storageIds + 1 }
  let taken ← if is2DStorage graph v then next.alloc2D graph v a.storageIds
    else next.alloc1D graph v a.storageIds
  return (v, taken)

def request (order : List Nat → List Nat) (v : Value Node) :
    Planning (Value Node × TokenAllocator Node) := do
  let (found, next) ← if is2DStorage graph v then a.request2D graph order v else a.request1D graph v
  match found with
  | some token => return (token, next)
  | none => next.alloc graph v

def checkForRelease (t : Value Node) : Planning (TokenAllocator Node) :=
  let token := a.tokens t
  match token.storageId with
  | none => Traced.fail .check
  | some id =>
    if token.refCounter < 0 then Traced.fail .check
    else if token.refCounter ≠ 0 then return a
    else if is2DStorage graph t then return { a with freeList := a.freeList.insert id }
    else return { a with free := insertFree token.maxBytes t a.free }

end TokenAllocator

end

end Tlm.Relay
