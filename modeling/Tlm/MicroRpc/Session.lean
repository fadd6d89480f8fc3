import Mathlib.Algebra.Group.Int.Defs
import Tlm.MicroRpc.Framing

set_option autoImplicit false

namespace Tlm.MicroRpc

structure FrameBuffer where
  capacity : Nat
  data : Bytes
  readCursor : Nat
  fits : data.length ≤ capacity
  cursor_le : readCursor ≤ data.length

namespace FrameBuffer

def unread (buffer : FrameBuffer) : Bytes :=
  buffer.data.drop buffer.readCursor

def empty (capacity : Nat) : FrameBuffer :=
  ⟨capacity, [], 0, Nat.zero_le _, Nat.le_refl _⟩

def available (buffer : FrameBuffer) : Nat :=
  buffer.capacity - buffer.data.length

theorem write_fits (buffer : FrameBuffer) (data : Bytes) :
    (buffer.data ++ data.take buffer.available).length ≤ buffer.capacity := by
  have := buffer.fits
  rw [available, List.length_append, List.length_take]
  omega

theorem write_cursor (buffer : FrameBuffer) (data : Bytes) :
    buffer.readCursor ≤ (buffer.data ++ data.take buffer.available).length := by
  have := buffer.cursor_le
  rw [List.length_append]
  omega

def write (buffer : FrameBuffer) (data : Bytes) : Nat × FrameBuffer :=
  (min data.length buffer.available,
    { buffer with
      data := buffer.data ++ data.take buffer.available
      fits := buffer.write_fits data
      cursor_le := buffer.write_cursor data })

theorem read_cursor (buffer : FrameBuffer) (size : Nat) :
    buffer.readCursor + min size (buffer.data.length - buffer.readCursor) ≤ buffer.data.length := by
  have := buffer.cursor_le
  omega

def read (buffer : FrameBuffer) (size : Nat) : Bytes × FrameBuffer :=
  (buffer.unread.take size,
    { buffer with
      readCursor := buffer.readCursor + min size (buffer.data.length - buffer.readCursor)
      cursor_le := buffer.read_cursor size })

def clear (buffer : FrameBuffer) : FrameBuffer :=
  empty buffer.capacity

end FrameBuffer

-- A session id is two nonces, on the wire and in `session_id_` with the initiator first.
structure SessionId where
  initiator : UInt8
  responder : UInt8
  deriving DecidableEq

namespace MessageType

def startSessionInit : UInt8 := 0x00
def startSessionReply : UInt8 := 0x01
def terminateSession : UInt8 := 0x02
def log : UInt8 := 0x03
def normal : UInt8 := 0x10

end MessageType

structure SessionHeader where
  sessionId : SessionId
  messageType : UInt8

def SessionHeader.bytes (header : SessionHeader) : Bytes :=
  [header.sessionId.initiator, header.sessionId.responder, header.messageType]

-- A call of the message callback: with the unread bytes of the buffer, or with none at all.
inductive Callback where
  | message (messageType : UInt8) (unread : Bytes)
  | notice (messageType : UInt8)
  deriving DecidableEq

inductive SessionState where
  | reset
  | noSessionEstablished
  | startSessionSent
  | sessionEstablished
  deriving DecidableEq

structure Session where
  localNonce : UInt8
  sessionId : SessionId
  state : SessionState
  receiveBuffer : FrameBuffer
  hasCompleteMessage : Bool
  sent : List Bytes
  callbacks : List Callback

def invalidNonce : UInt8 := 0
def kVersion : UInt8 := 1

def regenerated (nonce : UInt8) : UInt8 :=
  let next := ((nonce <<< 5) ||| (nonce >>> 5)) + 1
  if next = invalidNonce then next + 1 else next

namespace Session

def initial (capacity : Nat) : Session :=
  { localNonce := invalidNonce
    sessionId := ⟨0, 0⟩
    state := .reset
    receiveBuffer := .empty capacity
    hasCompleteMessage := false
    sent := []
    callbacks := [] }

def regenerateNonce (s : Session) : Session :=
  { s with localNonce := regenerated s.localNonce }

def setSessionId (s : Session) (initiator responder : UInt8) : Session :=
  { s with sessionId := ⟨initiator, responder⟩ }

def sendInternal (s : Session) (messageType : UInt8) (body : Bytes) : Session :=
  let id := if messageType = MessageType.log then ⟨0, 0⟩ else s.sessionId
  { s with sent := s.sent ++ [(SessionHeader.mk id messageType).bytes ++ body] }

-- In the reset state the `CHECK` stops the platform.
def startSession (s : Session) : Option Session :=
  if s.state = .reset then none
  else
    let s := s.regenerateNonce
    let s := s.setSessionId s.localNonce 0
    let s := s.sendInternal MessageType.startSessionInit [kVersion]
    some { s with state := .startSessionSent }

def terminateSession (s : Session) : Session :=
  { s.setSessionId 0 0 with state := .noSessionEstablished }.sendInternal
    MessageType.terminateSession []

def initializeWith (s : Session) (initialSessionNonce : UInt8) : Session :=
  { s with localNonce := initialSessionNonce }.terminateSession

def clearReceiveBuffer (s : Session) : Session :=
  { s with hasCompleteMessage := false, receiveBuffer := s.receiveBuffer.clear }

section

variable (clears : Callback → Bool)

def invoke (s : Session) (call : Callback) : Session :=
  let s := { s with callbacks := s.callbacks ++ [call] }
  if clears call then s.clearReceiveBuffer else s

def onSessionEstablished (s : Session) : Session :=
  s.invoke clears (.notice MessageType.startSessionReply)

def onSessionTerminated (s : Session) : Session :=
  s.invoke clears (.notice MessageType.terminateSession)

def sendSessionStartReply (s : Session) (header : SessionHeader) : Session :=
  let s := s.regenerateNonce
  let s := s.setSessionId header.sessionId.initiator s.localNonce
  let s := s.sendInternal MessageType.startSessionReply [kVersion]
  { s with state := .sessionEstablished }.onSessionEstablished clears

def readVersion (s : Session) : Option UInt8 × Session :=
  let (bytes, buffer) := s.receiveBuffer.read 1
  (bytes.head?, { s with receiveBuffer := buffer })

def processStartSessionInit (s : Session) (header : SessionHeader) : Session :=
  if header.sessionId.initiator = invalidNonce then s
  else
    match s.readVersion with
    | (none, s) => s
    | (some version, s) =>
      match s.state with
      | .reset => s.sendSessionStartReply clears header
      | .noSessionEstablished => s.sendSessionStartReply clears header
      | .startSessionSent =>
        if header.sessionId.initiator < s.localNonce then
          if version = kVersion then s.sendSessionStartReply clears header else s
        else if header.sessionId.initiator = s.localNonce then s.startSession.getD s
        else s
      | .sessionEstablished => (s.sendSessionStartReply clears header).onSessionEstablished clears

def processStartSessionReply (s : Session) (header : SessionHeader) : Session :=
  if header.sessionId.responder = invalidNonce then s
  else
    match s.readVersion with
    | (none, s) => s
    | (some version, s) =>
      match s.state with
      | .reset => s
      | .noSessionEstablished => s
      | .startSessionSent =>
        if header.sessionId.initiator = s.localNonce ∧ version = kVersion then
          { s.setSessionId s.localNonce header.sessionId.responder with
            state := .sessionEstablished }.onSessionEstablished clears
        else s
      | .sessionEstablished =>
        if header.sessionId.initiator ≠ invalidNonce ∧
            header.sessionId.responder = invalidNonce then
          if version = kVersion then s.sendSessionStartReply clears header
          else { s.setSessionId s.localNonce 0 with state := .reset }
        else { s with state := .reset }

def receiveBufferBusy : Int := 4 * 2 ^ 8 + 1
def receiveBufferShortWrite : Int := 4 * 2 ^ 8 + 2

-- The error codes are positive numbers, more than a call of the unframer ever writes.
def receiverWrite (data : Bytes) (s : Session) : Int × Session :=
  if s.hasCompleteMessage then (receiveBufferBusy, s)
  else
    let (written, buffer) := s.receiveBuffer.write data
    let s := { s with receiveBuffer := buffer }
    if written ≠ data.length then (receiveBufferShortWrite, s) else (written, s)

def readHeader (s : Session) : Option SessionHeader × Session :=
  let (bytes, buffer) := s.receiveBuffer.read 3
  let s := { s with receiveBuffer := buffer }
  match bytes with
  | [initiator, responder, messageType] => (some ⟨⟨initiator, responder⟩, messageType⟩, s)
  | _ => (none, s)

def dispatch (s : Session) (header : SessionHeader) : Session :=
  if header.messageType = MessageType.startSessionInit then
    { s.processStartSessionInit clears header with hasCompleteMessage := false }
  else if header.messageType = MessageType.startSessionReply then
    { s.processStartSessionReply clears header with hasCompleteMessage := false }
  else if header.messageType = MessageType.terminateSession then
    let s :=
      if s.state = .sessionEstablished then
        { s with state := .noSessionEstablished }.onSessionTerminated clears
      else s
    { s with hasCompleteMessage := false }
  else if header.messageType = MessageType.log then
    -- Log messages may come without a session.
    if header.sessionId = ⟨0, 0⟩ ∨ header.sessionId = s.sessionId then
      s.invoke clears (.message header.messageType s.receiveBuffer.unread)
    else s
  else if s.state = .sessionEstablished ∧ header.sessionId = s.sessionId then
    s.invoke clears (.message header.messageType s.receiveBuffer.unread)
  else s

def packetDone (isValid : Bool) (s : Session) : Session :=
  if !isValid then s
  else
    match s.readHeader with
    | (none, s) => s
    | (some header, s) => { s with hasCompleteMessage := true }.dispatch clears header

def receiver : Sink Session where
  write := receiverWrite
  packetDone := packetDone clears
  packetStart s := s

end

end Session

structure Packet where
  chunks : List Bytes
  isValid : Bool
  sized : ∀ chunk ∈ chunks, chunk ≠ [] ∧ chunk.length ≤ 128

namespace Packet

def payload (packet : Packet) : Bytes :=
  packet.chunks.flatten

theorem sized_bytes (payload : Bytes) :
    ∀ chunk ∈ payload.map fun byte => [byte], chunk ≠ [] ∧ chunk.length ≤ 128 := by
  intro chunk member
  obtain ⟨byte, _, rfl⟩ := List.mem_map.mp member
  exact ⟨List.cons_ne_nil _ _, by simp⟩

def ofBytes (payload : Bytes) (isValid : Bool) : Packet :=
  { chunks := payload.map fun byte => [byte]
    isValid := isValid
    sized := sized_bytes payload }

end Packet

section

variable {τ : Type} (sink : Sink τ)

def writeChunks : List Bytes → τ → ErrorCode × τ
  | [], t => (.noError, t)
  | chunk :: rest, t =>
    let (code, _, t) := writeAll sink chunk t
    if code ≠ .noError then (code, t) else writeChunks rest t

def receivePacket (packet : Packet) (t : τ) : τ :=
  let (code, t) := writeChunks sink packet.chunks t
  if code ≠ .noError then t else sink.packetDone packet.isValid t

def receivePackets (t : τ) : List Packet → τ
  | [] => t
  | packet :: rest => receivePackets (receivePacket sink packet t) rest

end

end Tlm.MicroRpc
