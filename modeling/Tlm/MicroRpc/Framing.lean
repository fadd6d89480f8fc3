import Mathlib.Algebra.Group.Nat.Defs
import Mathlib.Data.List.Basic

set_option autoImplicit false

namespace Tlm.MicroRpc

abbrev Bytes := List UInt8

def escapeStart : UInt8 := 0xff
def escapeNop : UInt8 := 0xfe
def packetStart : UInt8 := 0xfd

-- `check` is a failed `CHECK` or a read outside the input: the platform stops.
inductive ErrorCode where
  | noError
  | framingInvalidState
  | framingShortPacket
  | framingInvalidEscape
  | framingPayloadOverflow
  | framingPayloadIncomplete
  | writeStreamShortWrite
  | writeStreamLongWrite
  | system (code : Int)
  | check
  deriving DecidableEq

-- A downstream stream. `packetStart` is not a call of the source: it marks, for statements about what
-- came after it, the moment at which an unframer has recognised the start of a packet.
structure Sink (τ : Type) where
  write : Bytes → τ → Int × τ
  packetDone : Bool → τ → τ
  packetStart : τ → τ

section

variable {τ : Type} (sink : Sink τ)

-- Each turn takes at least one byte, so the length of the data bounds the turns.
def writeAllLoop : Nat → Bytes → Nat → τ → ErrorCode × Nat × τ
  | 0, _, consumed, t => (.noError, consumed, t)
  | turns + 1, data, consumed, t =>
    if data.isEmpty then (.noError, consumed, t)
    else
      let (toReturn, t) := sink.write data t
      if toReturn = 0 then (.writeStreamShortWrite, consumed, t)
      else if toReturn < 0 then (.system toReturn, consumed, t)
      else if data.length < toReturn then (.writeStreamLongWrite, consumed, t)
      else writeAllLoop turns (data.drop toReturn.toNat) (consumed + toReturn.toNat) t

def writeAll (data : Bytes) (t : τ) : ErrorCode × Nat × τ :=
  writeAllLoop sink data.length data 0 t

end

def le32 (n : Nat) : Bytes :=
  [UInt8.ofNat n, UInt8.ofNat (n / 2 ^ 8), UInt8.ofNat (n / 2 ^ 16), UInt8.ofNat (n / 2 ^ 24)]

def le16 (n : UInt16) : Bytes :=
  [UInt8.ofNat n.toNat, UInt8.ofNat (n.toNat / 2 ^ 8)]

def fromLe : Bytes → Nat
  | [] => 0
  | byte :: rest => byte.toNat + 2 ^ 8 * fromLe rest

section

variable (updateCrc : UInt16 → UInt8 → UInt16)

def crc16Compute (data : Bytes) (previous : UInt16) : UInt16 :=
  data.foldl updateCrc previous

def initialCrc : UInt16 := 0xffff

end

inductive UnframerState where
  | findPacketStart
  | findPacketLength
  | findPacketCrc
  | findCrcEnd
  deriving DecidableEq

structure Unframer where
  state : UnframerState
  sawEscapeStart : Bool
  buffer : Bytes
  remaining : Nat
  crc : UInt16

def Unframer.initial : Unframer :=
  { state := .findPacketStart, sawEscapeStart := false, buffer := [], remaining := 0, crc := 0 }

-- Where a part of `Write` has got to. `rewound` are the bytes that the error path adds to the size of
-- the input on top of those that are left.
structure Progress (τ : Type) where
  code : ErrorCode
  unframer : Unframer
  input : Bytes
  sink : τ
  rewound : Nat

structure Consumed where
  code : ErrorCode
  sawEscapeStart : Bool
  buffer : Bytes
  consumed : Bytes
  input : Bytes

def Consumed.after (byte : UInt8) (more : Consumed) : Consumed :=
  { more with consumed := byte :: more.consumed }

def consumeLoop (size : Nat) (saw : Bool) (buffer : Bytes) : Bytes → Consumed
  | [] => ⟨.noError, saw, buffer, [], []⟩
  | c :: rest =>
    if saw then
      if c = packetStart then ⟨.framingShortPacket, true, buffer, [], c :: rest⟩
      else if c = escapeNop then (consumeLoop size false buffer rest).after c
      else if c = escapeStart then
        if (buffer ++ [c]).length = size then ⟨.noError, false, buffer ++ [c], [c], rest⟩
        else (consumeLoop size false (buffer ++ [c]) rest).after c
      else ⟨.framingInvalidEscape, false, buffer, [c], rest⟩
    else if c = escapeStart then (consumeLoop size true buffer rest).after c
    else if (buffer ++ [c]).length = size then ⟨.noError, false, buffer ++ [c], [c], rest⟩
    else (consumeLoop size false (buffer ++ [c]) rest).after c

def findStartLoop (saw : Bool) : Bytes → Bool × Bool × Bytes
  | [] => (false, saw, [])
  | c :: rest =>
    if c = escapeStart then findStartLoop true rest
    else if c = packetStart ∧ saw then (true, false, rest)
    else findStartLoop false rest

def skipConsumed : Nat → Bytes → Option Nat
  | 0, _ => some 0
  | _ + 1, [] => none
  | count + 1, c :: rest =>
    (skipConsumed (if c ≠ escapeStart then count else count + 1) rest).map (· + 1)

namespace Unframer

variable {τ : Type} (updateCrc : UInt16 → UInt8 → UInt16) (sink : Sink τ)

def findPacketStart (u : Unframer) (input : Bytes) (t : τ) : Progress τ :=
  let (found, saw, rest) := findStartLoop u.sawEscapeStart input
  if found then
    ⟨.noError,
      { u with
        crc := crc16Compute updateCrc [escapeStart, packetStart] initialCrc
        sawEscapeStart := saw
        state := .findPacketLength },
      rest, sink.packetStart t, 0⟩
  else ⟨.noError, { u with sawEscapeStart := saw }, rest, t, 0⟩

def addToBuffer (u : Unframer) (size : Nat) (update : Bool) (input : Bytes) :
    ErrorCode × Unframer × Bytes :=
  if u.buffer.length < size then
    let done := consumeLoop size u.sawEscapeStart u.buffer input
    let crc :=
      if done.code = .framingShortPacket then crc16Compute updateCrc [escapeStart] initialCrc
      else u.crc
    let crc := if update then crc16Compute updateCrc done.consumed crc else crc
    (done.code, { u with sawEscapeStart := done.sawEscapeStart, buffer := done.buffer, crc := crc },
      done.input)
  else (.check, u, input)

def findPacketLength (u : Unframer) (input : Bytes) (t : τ) : Progress τ :=
  let (code, u, rest) := u.addToBuffer updateCrc 4 true input
  if code ≠ .noError then ⟨code, u, rest, t, 0⟩
  else if u.buffer.length < 4 then ⟨code, u, rest, t, 0⟩
  else
    ⟨code, { u with remaining := fromLe u.buffer, buffer := [], state := .findPacketCrc }, rest, t, 0⟩

def payloadLoop : Nat → Unframer → Bytes → τ → Progress τ
  | 0, u, input, t => ⟨.check, u, input, t, 0⟩
  | turns + 1, u, input, t =>
    if u.remaining = 0 then ⟨.noError, { u with state := .findCrcEnd }, input, t, 0⟩
    else
      let (code, filled, rest) := u.addToBuffer updateCrc (min u.remaining 128) true input
      if code ≠ .noError then ⟨code, filled, rest, t, 0⟩
      else if u.buffer.length = filled.buffer.length then ⟨.noError, filled, rest, t, 0⟩
      else
        let (code, written, t) := writeAll sink filled.buffer t
        let filled := { filled with remaining := filled.remaining - written }
        if code ≠ .noError then
          -- The rewind counts from the size before this turn, whatever is left of it.
          match skipConsumed written input with
          | some skipped =>
            ⟨code, { filled with sawEscapeStart := false }, rest, t, input.length - skipped⟩
          | none => ⟨.check, filled, rest, t, 0⟩
        else payloadLoop turns { filled with buffer := [] } rest t

def findPacketCrc (u : Unframer) (input : Bytes) (t : τ) : Progress τ :=
  payloadLoop updateCrc sink (input.length + 1) u input t

def findCrcEnd (u : Unframer) (input : Bytes) (t : τ) : Progress τ :=
  let (code, u, rest) := u.addToBuffer updateCrc 2 false input
  if code ≠ .noError then ⟨code, u, rest, t, 0⟩
  else if u.buffer.length < 2 then ⟨.noError, u, rest, t, 0⟩
  else
    ⟨.noError, { u with buffer := [], state := .findPacketStart }, rest,
      sink.packetDone (u.crc.toNat == fromLe u.buffer) t, 0⟩

def advance (u : Unframer) (input : Bytes) (t : τ) : Progress τ :=
  match u.state with
  | .findPacketStart => u.findPacketStart updateCrc sink input t
  | .findPacketLength => u.findPacketLength updateCrc input t
  | .findPacketCrc => u.findPacketCrc updateCrc sink input t
  | .findCrcEnd => u.findCrcEnd updateCrc sink input t

-- A turn consumes input or only leaves `findPacketCrc`, so two turns per byte are enough.
def writeLoop : Nat → Unframer → Bytes → τ → Progress τ
  | 0, u, input, t => ⟨.check, u, input, t, 0⟩
  | turns + 1, u, input, t =>
    if input.isEmpty then ⟨.noError, u, input, t, 0⟩
    else
      let next := u.advance updateCrc sink input t
      if next.code ≠ .noError then next
      else writeLoop turns next.unframer next.input next.sink

-- What `Write` returns and reports. Where the count is negative, `size_t` wraps around.
structure Written (τ : Type) where
  code : ErrorCode
  unframer : Unframer
  sink : τ
  bytesConsumed : Int

def write (u : Unframer) (data : Bytes) (t : τ) : Written τ :=
  let last := writeLoop updateCrc sink (2 * data.length + 2) u data t
  let u :=
    if last.code ≠ .noError then { last.unframer with state := .findPacketStart, buffer := [] }
    else last.unframer
  ⟨last.code, u, last.sink, data.length - (last.input.length + last.rewound)⟩

-- The calls of a client that repeats `Write` on what was not consumed.
structure Fed (τ : Type) where
  codes : List ErrorCode
  unframer : Unframer
  sink : τ
  left : Bytes

def feedLoop : Nat → Unframer → Bytes → τ → Fed τ
  | 0, u, data, t => ⟨[], u, t, data⟩
  | turns + 1, u, data, t =>
    if data.isEmpty then ⟨[], u, t, data⟩
    else
      let done := u.write updateCrc sink data t
      let more := feedLoop turns done.unframer (data.drop done.bytesConsumed.toNat) done.sink
      { more with codes := done.code :: more.codes }

def feed (u : Unframer) (data : Bytes) (t : τ) : Fed τ :=
  feedLoop updateCrc sink (2 * data.length) u data t

def feedAll (u : Unframer) (t : τ) : List Bytes → Fed τ
  | [] => ⟨[], u, t, []⟩
  | fragment :: rest =>
    let done := u.feed updateCrc sink fragment t
    let more := feedAll done.unframer done.sink rest
    ⟨done.codes ++ more.codes, more.unframer, more.sink, done.left ++ more.left⟩

end Unframer

inductive FramerState where
  | reset
  | idle
  | transmitPacketPayload
  deriving DecidableEq

structure Framer where
  state : FramerState
  remaining : Nat
  crc : UInt16

def Framer.initial : Framer :=
  { state := .reset, remaining := 0, crc := 0 }

def maxStackBufferSize : Nat := 128

def fillBuffer (escape : Bool) (buffer : Bytes) : Bytes → Bytes × Bytes
  | [] => (buffer, [])
  | c :: rest =>
    if buffer.length = maxStackBufferSize then (buffer, c :: rest)
    else if !escape || c ≠ escapeStart then fillBuffer escape (buffer ++ [c]) rest
    else if buffer.length = maxStackBufferSize - 1 then (buffer, c :: rest)
    else fillBuffer escape (buffer ++ [escapeStart, escapeStart]) rest

namespace Framer

variable {τ : Type} (updateCrc : UInt16 → UInt8 → UInt16) (sink : Sink τ)

def writeLoop (escape update : Bool) : Nat → Framer → Bytes → τ → ErrorCode × Framer × τ
  | 0, framer, _, t => (.noError, framer, t)
  | turns + 1, framer, data, t =>
    if data.isEmpty then (.noError, framer, t)
    else
      let (buffer, rest) := fillBuffer escape [] data
      let (code, _, t) := writeAll sink buffer t
      if code ≠ .noError then (code, framer, t)
      else
        let crc := if update then crc16Compute updateCrc buffer framer.crc else framer.crc
        writeLoop escape update turns { framer with crc := crc } rest t

def writeAndCrc (framer : Framer) (data : Bytes) (escape update : Bool) (t : τ) :
    ErrorCode × Framer × τ :=
  framer.writeLoop updateCrc sink escape update data.length data t

def andThen (result : ErrorCode × Framer × τ) (next : Framer → τ → ErrorCode × Framer × τ) :
    ErrorCode × Framer × τ :=
  if result.1 ≠ .noError then result else next result.2.1 result.2.2

def startPacket (framer : Framer) (payloadSize : Nat) (t : τ) : ErrorCode × Framer × τ :=
  andThen
    (if framer.state = .reset then framer.writeAndCrc updateCrc sink [escapeNop] false false t
    else (.noError, framer, t))
    fun framer t =>
      andThen ({ framer with crc := initialCrc }.writeAndCrc updateCrc sink
          [escapeStart, packetStart] false true t) fun framer t =>
        andThen (framer.writeAndCrc updateCrc sink (le32 payloadSize) true true t) fun framer t =>
          (.noError, { framer with state := .transmitPacketPayload, remaining := payloadSize }, t)

def writePayloadChunk (framer : Framer) (chunk : Bytes) (t : τ) : ErrorCode × Framer × τ :=
  if framer.state ≠ .transmitPacketPayload then (.framingInvalidState, framer, t)
  else if framer.remaining < chunk.length then (.framingPayloadOverflow, framer, t)
  else
    let (code, framer, t) := framer.writeAndCrc updateCrc sink chunk true true t
    if code ≠ .noError then (code, { framer with state := .reset }, t)
    else (code, { framer with remaining := framer.remaining - chunk.length }, t)

def finishPacket (framer : Framer) (t : τ) : ErrorCode × Framer × τ :=
  if framer.state ≠ .transmitPacketPayload then (.framingInvalidState, framer, t)
  else if framer.remaining ≠ 0 then (.framingPayloadIncomplete, framer, t)
  else
    let (code, framer, t) := framer.writeAndCrc updateCrc sink (le16 framer.crc) true false t
    if code ≠ .noError then (code, { framer with state := .reset }, t)
    else (code, { framer with state := .idle }, t)

def write (framer : Framer) (payload : Bytes) (t : τ) : ErrorCode × Framer × τ :=
  andThen (framer.startPacket updateCrc sink payload.length t) fun framer t =>
    andThen (framer.writePayloadChunk updateCrc sink payload t) fun framer t =>
      framer.finishPacket updateCrc sink t

def writeChunks (framer : Framer) (t : τ) : List Bytes → ErrorCode × Framer × τ
  | [] => (.noError, framer, t)
  | chunk :: rest =>
    andThen (framer.writePayloadChunk updateCrc sink chunk t) fun framer t =>
      framer.writeChunks t rest

inductive Job where
  | whole (payload : Bytes)
  | chunked (chunks : List Bytes)

def Job.payload : Job → Bytes
  | .whole payload => payload
  | .chunked chunks => chunks.flatten

def send (framer : Framer) (t : τ) : Job → ErrorCode × Framer × τ
  | .whole payload => framer.write updateCrc sink payload t
  | .chunked chunks =>
    andThen (framer.startPacket updateCrc sink chunks.flatten.length t) fun framer t =>
      andThen (framer.writeChunks updateCrc sink t chunks) fun framer t =>
        framer.finishPacket updateCrc sink t

def sendAll (framer : Framer) (t : τ) : List Job → ErrorCode × Framer × τ
  | [] => (.noError, framer, t)
  | job :: rest =>
    andThen (framer.send updateCrc sink t job) fun framer t => framer.sendAll t rest

end Framer

end Tlm.MicroRpc
