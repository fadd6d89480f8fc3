import Tlm.Shared.Circle
import Tlm.Shared.Loop

set_option autoImplicit false

namespace Tlm.Support

open Cpp Circle

abbrev Bytes := List UInt8

structure RingBuffer where
  headPtr : Nat
  bytesAvailable : Nat
  ring : Bytes

namespace RingBuffer

inductive Interrupt where
  | check
  | badAlloc
  -- An access outside the ring.
  | outside
  deriving DecidableEq, Repr

abbrev Result (α : Type) := Except Interrupt α

def kInitCapacity : Nat := 4 * 2 ^ 10

def init : RingBuffer :=
  ⟨0, 0, List.replicate kInitCapacity 0⟩

def load (ring : Bytes) (start size : Nat) : Result Bytes :=
  if start + size ≤ ring.length then .ok ((ring.drop start).take size) else .error .outside

def store (ring : Bytes) (start : Nat) (data : Bytes) : Result Bytes :=
  if start + data.length ≤ ring.length then .ok (stored ring start data) else .error .outside

def resize (ring : Bytes) (size : Nat) : Bytes :=
  ring.take size ++ List.replicate (size - ring.length) 0

def loadAround (ring : Bytes) (head size : Nat) : Result Bytes :=
  let ncopy := min size (ring.length - head)
  if ncopy < size then do return (← load ring head ncopy) ++ (← load ring 0 (size - ncopy))
  else load ring head ncopy

def read (rb : RingBuffer) (size : Nat) : Result (Bytes × RingBuffer) :=
  if rb.bytesAvailable < size then .error .check
  else do
    let data ← loadAround rb.ring rb.headPtr size
    return (data,
      { rb with
        headPtr := (rb.headPtr + size) % rb.ring.length
        bytesAvailable := rb.bytesAvailable - size })

def grow (limit : Nat) (rb : RingBuffer) (n : Nat) : Result RingBuffer :=
  let oldSize := rb.ring.length
  let newSize := 6 * n / 5
  if limit < newSize then .error .badAlloc
  else
    let ring := resize rb.ring newSize
    if oldSize < rb.headPtr + rb.bytesAvailable then do
      let ncopy := rb.headPtr + rb.bytesAvailable - oldSize
      return { rb with ring := ← store ring oldSize (← load ring 0 ncopy) }
    else return { rb with ring }

def unroll (limit : Nat) (rb : RingBuffer) : Result RingBuffer :=
  if rb.bytesAvailable = 0 then .ok rb
  else if limit < rb.bytesAvailable then .error .badAlloc
  else do
    let (tmp, moved) ← rb.read rb.bytesAvailable
    return { moved with
      ring := ← store moved.ring 0 tmp
      bytesAvailable := rb.bytesAvailable }

def shrink (limit : Nat) (rb : RingBuffer) (n : Nat) : Result RingBuffer := do
  let rb ← rb.unroll limit
  let newSize := max (max kInitCapacity n) rb.bytesAvailable
  return { rb with headPtr := 0, ring := resize rb.ring newSize }

def reserve (limit : Nat) (rb : RingBuffer) (n : Nat) : Result RingBuffer :=
  if rb.ring.length < n then rb.grow limit n
  else if n * 8 % 2 ^ 64 < rb.ring.length ∧ kInitCapacity < rb.ring.length then rb.shrink limit n
  else .ok rb

def storeAround (ring : Bytes) (tail : Nat) (data : Bytes) : Result Bytes :=
  if ring.length ≤ tail then store ring (tail - ring.length) data
  else
    let ncopy := min (ring.length - tail) data.length
    if ncopy < data.length then do
      store (← store ring tail (data.take ncopy)) 0 (data.drop ncopy)
    else store ring tail (data.take ncopy)

def write (limit : Nat) (rb : RingBuffer) (data : Bytes) : Result RingBuffer := do
  let rb ← rb.reserve limit ((rb.bytesAvailable + data.length) % 2 ^ 64)
  return { rb with
    ring := ← storeAround rb.ring (rb.headPtr + rb.bytesAvailable) data
    bytesAvailable := rb.bytesAvailable + data.length }

abbrev FRecv := Bool → Nat → Bytes

abbrev FSend := Bool → Bytes → Nat

def receive (frecv : FRecv) (again : Bool) (ring : Bytes) (start size : Nat) :
    Result (Bytes × Bytes) :=
  if start + size ≤ ring.length then
    let data := (frecv again size).take size
    .ok (data, stored ring start data)
  else .error .outside

-- The calls of `WriteWithCallback`; a second one only after the first was filled.
def receiveAround (frecv : FRecv) (ring : Bytes) (tail nbytes : Nat) : Result (Bytes × Bytes) :=
  if ring.length ≤ tail then receive frecv false ring (tail - ring.length) nbytes
  else do
    let ncopy := min (ring.length - tail) nbytes
    let (data, ring) ← receive frecv false ring tail ncopy
    if data.length = ncopy ∧ ncopy < nbytes then
      let (more, ring) ← receive frecv true ring 0 (nbytes - ncopy)
      return (data ++ more, ring)
    else return (data, ring)

def writeWithCallback (limit : Nat) (rb : RingBuffer) (frecv : FRecv) (maxNbytes : Nat) :
    Result (Bytes × RingBuffer) := do
  let rb ← rb.reserve limit ((rb.bytesAvailable + maxNbytes) % 2 ^ 64)
  let (data, ring) ← receiveAround frecv rb.ring (rb.headPtr + rb.bytesAvailable) maxNbytes
  return (data, { rb with ring, bytesAvailable := rb.bytesAvailable + data.length })

def send (fsend : FSend) (again : Bool) (data : Bytes) : Bytes :=
  data.take (fsend again data)

-- The calls of `ReadWithCallback`; a second one only after the first was taken whole.
def sendAround (fsend : FSend) (ring : Bytes) (head size : Nat) : Result Bytes := do
  let ncopy := min size (ring.length - head)
  let sent := send fsend false (← load ring head ncopy)
  if ncopy = sent.length ∧ ncopy < size then
    return sent ++ send fsend true (← load ring 0 (size - ncopy))
  else return sent

def readWithCallback (rb : RingBuffer) (fsend : FSend) (maxNbytes : Nat) :
    Result (Bytes × RingBuffer) :=
  let size := min maxNbytes rb.bytesAvailable
  if size = 0 then .error .check
  else do
    let sent ← sendAround fsend rb.ring rb.headPtr size
    return (sent, { rb with bytesAvailable := rb.bytesAvailable - sent.length })

inductive Operation where
  | write (data : Bytes)
  | read (size : Nat)
  | reserve (n : Nat)
  | writeWithCallback (frecv : FRecv) (maxNbytes : Nat)
  | readWithCallback (fsend : FSend) (maxNbytes : Nat)

structure History where
  put : Bytes
  taken : Bytes
  buffer : RingBuffer

def call (limit : Nat) (rb : RingBuffer) : Operation → Result (Bytes × Bytes × RingBuffer)
  | .write data => do return (data, [], ← rb.write limit data)
  | .read size => do
    let (out, rb) ← rb.read size
    return ([], out, rb)
  | .reserve n => do return ([], [], ← rb.reserve limit n)
  | .writeWithCallback frecv maxNbytes => do
    let (into, rb) ← rb.writeWithCallback limit frecv maxNbytes
    return (into, [], rb)
  | .readWithCallback fsend maxNbytes => do
    let (out, rb) ← rb.readWithCallback fsend maxNbytes
    return ([], out, rb)

-- An exception goes to the caller and the buffer stays as it is.
def History.step (limit : Nat) (history : History) (operation : Operation) :
    Except Unit History :=
  match history.buffer.call limit operation with
  | .ok (into, out, buffer) => .ok ⟨history.put ++ into, history.taken ++ out, buffer⟩
  | .error .outside => .error ()
  | .error _ => .ok history

def History.run (limit : Nat) (operations : List Operation) : Except Unit History :=
  operations.foldlM (History.step limit) ⟨[], [], init⟩

end RingBuffer

end Tlm.Support
