import Tlm.MicroRpc.Session

set_option autoImplicit false

namespace Tlm.MicroRpc

namespace FrameBuffer

theorem ext_data {x y : FrameBuffer} (capacity : x.capacity = y.capacity) (data : x.data = y.data)
    (readCursor : x.readCursor = y.readCursor) : x = y := by
  cases x
  cases y
  subst capacity data readCursor
  rfl

section

variable (buffer : FrameBuffer)

include buffer

theorem write_append (first rest : Bytes) :
    ((buffer.write first).2.write rest).2 = (buffer.write (first ++ rest)).2 := by
  refine ext_data rfl ?_ rfl
  simp only [write, available, List.length_append, List.length_take, List.append_assoc,
    List.take_append, List.append_cancel_left_eq]
  congr 1
  omega

theorem write_short (first rest : Bytes) (short : buffer.available < first.length) :
    (buffer.write (first ++ rest)).2 = (buffer.write first).2 := by
  refine ext_data rfl ?_ rfl
  simp only [write, List.take_append_of_le_length (Nat.le_of_lt short)]

theorem available_write (data : Bytes) :
    (buffer.write data).2.available = buffer.available - data.length := by
  simp only [write, available, List.length_append, List.length_take]
  omega

theorem length_write (data : Bytes) :
    (buffer.write data).2.data.length = buffer.data.length + min buffer.available data.length := by
  simp only [write, List.length_append, List.length_take]

theorem unread_write (data : Bytes) :
    (buffer.write data).2.unread = buffer.unread ++ data.take buffer.available := by
  simp only [unread, write, List.drop_append_of_le_length buffer.cursor_le]

theorem unread_write_of_le (data : Bytes) (room : data.length ≤ buffer.available) :
    (buffer.write data).2.unread = buffer.unread ++ data := by
  rw [unread_write, List.take_of_length_le room]

theorem unread_read (size : Nat) :
    (buffer.read size).2.unread = buffer.unread.drop size := by
  simp only [unread, read, List.drop_drop]
  by_cases short : size ≤ buffer.data.length - buffer.readCursor
  · rw [Nat.min_eq_left short]
  · rw [Nat.min_eq_right (by omega), List.drop_eq_nil_of_le (by omega), List.drop_eq_nil_of_le (by omega)]

end

end FrameBuffer

namespace Session

section

variable (clears : Callback → Bool)

section

variable (s : Session) (chunk : Bytes) (sized : chunk ≠ [] ∧ chunk.length ≤ 128)

include s chunk sized

theorem writeAll_busy
    (busy : s.hasCompleteMessage = true) :
    writeAll (receiver clears) chunk s = (.writeStreamLongWrite, 0, s) := by
  obtain ⟨byte, rest, rfl⟩ := List.exists_cons_of_ne_nil sized.1
  have long : (((byte :: rest).length : Nat) : Int) < receiveBufferBusy := by
    simp only [receiveBufferBusy]
    omega
  simp only [List.length_cons, writeAll, writeAllLoop, receiver, receiverWrite, busy, if_true,
    List.isEmpty_cons, Bool.false_eq_true, if_false] at long ⊢
  rw [if_neg (by decide), if_neg (by decide), if_pos long]

def stored (s : Session) (data : Bytes) : Session :=
  { s with receiveBuffer := (s.receiveBuffer.write data).2 }

theorem writeAll_room
    (idle : s.hasCompleteMessage = false) (room : chunk.length ≤ s.receiveBuffer.available) :
    writeAll (receiver clears) chunk s = (.noError, chunk.length, s.stored chunk) := by
  obtain ⟨byte, rest, rfl⟩ := List.exists_cons_of_ne_nil sized.1
  have whole : (s.receiveBuffer.write (byte :: rest)).1 = (byte :: rest).length :=
    Nat.min_eq_left room
  simp only [List.length_cons, writeAll, writeAllLoop, receiver, receiverWrite, idle, whole,
    List.isEmpty_cons, Bool.false_eq_true, if_false, ne_eq, not_true, stored]
  rw [if_neg (by omega), if_neg (by omega), if_neg (by omega), Int.toNat_natCast,
    List.drop_succ_cons, List.drop_length, Nat.zero_add]
  cases rest <;> simp only [List.length_cons, List.length_nil, writeAllLoop, List.isEmpty_nil, if_true]

theorem writeAll_short
    (idle : s.hasCompleteMessage = false) (short : s.receiveBuffer.available < chunk.length) :
    writeAll (receiver clears) chunk s = (.writeStreamLongWrite, 0, s.stored chunk) := by
  obtain ⟨byte, rest, rfl⟩ := List.exists_cons_of_ne_nil sized.1
  have part : (s.receiveBuffer.write (byte :: rest)).1 ≠ rest.length + 1 := by
    have : (s.receiveBuffer.write (byte :: rest)).1 = s.receiveBuffer.available :=
      Nat.min_eq_right (Nat.le_of_lt short)
    simp only [List.length_cons] at short
    omega
  have long : (((byte :: rest).length : Nat) : Int) < receiveBufferShortWrite := by
    simp only [receiveBufferShortWrite]
    omega
  simp only [List.length_cons, writeAll, writeAllLoop, receiver, receiverWrite, idle, part,
    List.isEmpty_cons, Bool.false_eq_true, if_false, ne_eq, not_false_eq_true, if_true, stored] at long ⊢
  rw [if_neg (by decide), if_neg (by decide), if_pos long]

end

theorem stored_stored (s : Session) (first rest : Bytes) :
    (s.stored first).stored rest = s.stored (first ++ rest) := by
  simp only [stored, FrameBuffer.write_append]

theorem stored_nil (s : Session) : s.stored [] = s := by
  have same : (s.receiveBuffer.write []).2 = s.receiveBuffer :=
    FrameBuffer.ext_data rfl (by simp only [FrameBuffer.write, List.take_nil, List.append_nil]) rfl
  simp only [stored, same]

theorem writeChunks_idle (chunks : List Bytes) (s : Session)
    (sized : ∀ chunk ∈ chunks, chunk ≠ [] ∧ chunk.length ≤ 128) (idle : s.hasCompleteMessage = false) :
    writeChunks (receiver clears) chunks s =
      (if chunks.flatten.length ≤ s.receiveBuffer.available then .noError
        else .writeStreamLongWrite, s.stored chunks.flatten) := by
  induction chunks generalizing s with
  | nil =>
    simp only [writeChunks, List.flatten_nil, List.length_nil, Nat.zero_le, if_true, stored_nil]
  | cons chunk rest ih =>
    have sizedChunk := sized chunk List.mem_cons_self
    simp only [writeChunks, List.flatten_cons, List.length_append]
    by_cases room : chunk.length ≤ s.receiveBuffer.available
    · have left : (s.stored chunk).receiveBuffer.available =
          s.receiveBuffer.available - chunk.length := FrameBuffer.available_write _ _
      simp only [writeAll_room clears s chunk sizedChunk idle room, ne_eq, not_true, if_false,
        ih (s.stored chunk) (fun c member => sized c (List.mem_cons_of_mem _ member)) idle, stored_stored]
      congr 2
      exact propext ⟨fun _ => by omega, fun _ => by omega⟩
    · have short : s.receiveBuffer.available < chunk.length := by omega
      simp only [writeAll_short clears s chunk sizedChunk idle short, ne_eq, reduceCtorEq,
        not_false_eq_true, if_true, stored, FrameBuffer.write_short _ _ _ short]
      rw [if_neg (by omega)]

theorem receivePacket_busy (packet : Packet) (s : Session) (busy : s.hasCompleteMessage = true)
    (nonempty : packet.chunks ≠ []) : receivePacket (receiver clears) packet s = s := by
  obtain ⟨chunk, rest, chunks⟩ := List.exists_cons_of_ne_nil nonempty
  have sized := packet.sized chunk (by rw [chunks]; exact List.mem_cons_self)
  simp only [receivePacket, chunks, writeChunks, writeAll_busy clears s chunk sized busy, ne_eq,
    reduceCtorEq, not_false_eq_true, if_true]

theorem receivePacket_short (packet : Packet) (s : Session) (idle : s.hasCompleteMessage = false)
    (short : s.receiveBuffer.available < packet.payload.length) :
    receivePacket (receiver clears) packet s = s.stored packet.payload := by
  have refused : ¬packet.chunks.flatten.length ≤ s.receiveBuffer.available := Nat.not_le.mpr short
  simp only [receivePacket, writeChunks_idle clears packet.chunks s packet.sized idle, refused,
    if_false, ne_eq, reduceCtorEq, not_false_eq_true, if_true, Packet.payload]

theorem receivePacket_room (packet : Packet) (s : Session) (idle : s.hasCompleteMessage = false)
    (room : packet.payload.length ≤ s.receiveBuffer.available) :
    receivePacket (receiver clears) packet s = packetDone clears packet.isValid (s.stored packet.payload) := by
  have taken : packet.chunks.flatten.length ≤ s.receiveBuffer.available := room
  simp only [receivePacket, writeChunks_idle clears packet.chunks s packet.sized idle, taken]
  rfl

def consumed (s : Session) (size : Nat) : Session :=
  { s with receiveBuffer := (s.receiveBuffer.read size).2 }

theorem packetDone_header (s : Session) {initiator responder messageType : UInt8} {rest : Bytes}
    (unread : s.receiveBuffer.unread = initiator :: responder :: messageType :: rest) :
    packetDone clears true s =
      { s.consumed 3 with hasCompleteMessage := true }.dispatch clears
        ⟨⟨initiator, responder⟩, messageType⟩ := by
  simp only [packetDone, readHeader, FrameBuffer.read, unread, Bool.not_true, Bool.false_eq_true,
    if_false, List.take_succ_cons, List.take_zero, consumed]

def Notices (s after : Session) : Prop :=
  ∃ calls, after.callbacks = s.callbacks ++ calls ∧ ∀ call ∈ calls, ∃ kind, call = .notice kind

theorem Notices.of_eq {s after : Session} (same : after.callbacks = s.callbacks) : Notices s after :=
  ⟨[], by rw [same, List.append_nil], by simp⟩

theorem Notices.trans {s middle after : Session} (first : Notices s middle)
    (second : Notices middle after) : Notices s after := by
  obtain ⟨calls, callbacks, notices⟩ := first
  obtain ⟨more, moreCallbacks, moreNotices⟩ := second
  refine ⟨calls ++ more, by rw [moreCallbacks, callbacks, List.append_assoc], ?_⟩
  intro call member
  exact (List.mem_append.mp member).elim (notices call) (moreNotices call)

theorem callbacks_invoke (s : Session) (call : Callback) :
    (s.invoke clears call).callbacks = s.callbacks ++ [call] := by
  simp only [invoke]
  split <;> rfl

theorem invoke_notices {s before : Session} (same : before.callbacks = s.callbacks) (kind : UInt8) :
    Notices s (before.invoke clears (.notice kind)) :=
  ⟨[.notice kind], by rw [callbacks_invoke, same], by simp⟩

theorem sendSessionStartReply_notices (s : Session) (header : SessionHeader) :
    Notices s (s.sendSessionStartReply clears header) :=
  invoke_notices clears rfl _

theorem readVersion_cases (s : Session) : s.readVersion = (s.receiveBuffer.unread.head?, s.consumed 1) := by
  simp only [readVersion, FrameBuffer.read]
  cases s.receiveBuffer.unread <;> rfl

theorem callbacks_startSession (s : Session) : (s.startSession.getD s).callbacks = s.callbacks := by
  simp only [startSession]
  split <;> rfl

theorem processStartSessionInit_notices (s : Session) (header : SessionHeader) :
    Notices s (s.processStartSessionInit clears header) := by
  have reply : Notices s ((s.consumed 1).sendSessionStartReply clears header) :=
    sendSessionStartReply_notices clears (s.consumed 1) header
  simp only [processStartSessionInit, readVersion_cases]
  split
  · exact .of_eq rfl
  · cases s.receiveBuffer.unread.head? with
    | none => exact .of_eq rfl
    | some version =>
      dsimp only
      split
      · exact reply
      · exact reply
      · split
        · split
          · exact reply
          · exact .of_eq rfl
        · split
          · exact .of_eq (callbacks_startSession _)
          · exact .of_eq rfl
      · exact reply.trans (invoke_notices clears rfl _)

theorem processStartSessionReply_notices (s : Session) (header : SessionHeader) :
    Notices s (s.processStartSessionReply clears header) := by
  simp only [processStartSessionReply, readVersion_cases]
  split
  · exact .of_eq rfl
  · cases s.receiveBuffer.unread.head? with
    | none => exact .of_eq rfl
    | some version =>
      dsimp only
      split
      · exact .of_eq rfl
      · exact .of_eq rfl
      · split
        · exact invoke_notices clears rfl _
        · exact .of_eq rfl
      · split
        · split
          · exact sendSessionStartReply_notices clears (s.consumed 1) header
          · exact .of_eq rfl
        · exact .of_eq rfl

theorem Notices.not_message {s after : Session} (notices : Notices s after) {kind : UInt8}
    {body : Bytes} : after.callbacks ≠ s.callbacks ++ [.message kind body] := by
  intro same
  obtain ⟨calls, callbacks, only⟩ := notices
  have calls_eq : calls = [.message kind body] := List.append_cancel_left (callbacks.symm.trans same)
  have member : Callback.message kind body ∈ calls := by
    rw [calls_eq]
    exact List.mem_singleton_self _
  obtain ⟨_, isNotice⟩ := only _ member
  cases isNotice

theorem unread_of_dispatch (s : Session) (header : SessionHeader) {body : Bytes}
    (called : (s.dispatch clears header).callbacks = s.callbacks ++ [.message MessageType.normal body]) :
    s.receiveBuffer.unread = body := by
  have given (kind : UInt8) (called : (s.invoke clears (.message kind s.receiveBuffer.unread)).callbacks =
        s.callbacks ++ [.message MessageType.normal body]) : s.receiveBuffer.unread = body := by
    rw [callbacks_invoke] at called
    exact (Callback.message.inj (List.singleton_inj.mp (List.append_cancel_left called))).2
  have quiet {after : Session} (notices : Notices s after)
      (called : after.callbacks = s.callbacks ++ [.message MessageType.normal body]) :
      s.receiveBuffer.unread = body := absurd called notices.not_message
  simp only [dispatch] at called
  split at called
  · exact quiet (processStartSessionInit_notices clears s header) called
  · split at called
    · exact quiet (processStartSessionReply_notices clears s header) called
    · split at called
      · refine quiet ?_ called
        split
        · exact invoke_notices clears rfl _
        · exact .of_eq rfl
      · split at called
        · split at called
          · exact given _ called
          · exact quiet (.of_eq rfl) called
        · split at called
          · exact given _ called
          · exact quiet (.of_eq rfl) called

def MustIgnore (id : SessionId) (packet : Packet) : Prop :=
  packet.isValid = false ∨
    ∃ foreign body, foreign ≠ id ∧ packet.isValid = true ∧
      packet.payload = (SessionHeader.mk foreign MessageType.normal).bytes ++ body

def Addressed (id : SessionId) (packet : Packet) (body : Bytes) : Prop :=
  packet.isValid = true ∧ packet.payload = (SessionHeader.mk id MessageType.normal).bytes ++ body

def Delivered (s : Session) (packet : Packet) (body : Bytes) : Prop :=
  (receivePacket (receiver clears) packet s).callbacks =
    s.callbacks ++ [.message MessageType.normal body]

structure Ready (s : Session) (size : Nat) : Prop where
  idle : s.hasCompleteMessage = false
  unread : s.receiveBuffer.unread = []
  room : size ≤ s.receiveBuffer.available

section

variable {s : Session} {packet : Packet} {body : Bytes}

theorem unread_stored_room (room : packet.payload.length ≤ s.receiveBuffer.available) :
    (s.stored packet.payload).receiveBuffer.unread = s.receiveBuffer.unread ++ packet.payload :=
  FrameBuffer.unread_write_of_le _ _ room

theorem exists_header (bytes : Bytes) (long : 3 ≤ bytes.length) :
    ∃ initiator responder messageType, bytes = initiator :: responder :: messageType :: bytes.drop 3 := by
  obtain ⟨initiator, rest, rfl⟩ := List.exists_cons_of_length_pos (show 0 < bytes.length by omega)
  rw [List.length_cons] at long
  obtain ⟨responder, rest, rfl⟩ := List.exists_cons_of_length_pos (show 0 < rest.length by omega)
  rw [List.length_cons] at long
  obtain ⟨messageType, rest, rfl⟩ := List.exists_cons_of_length_pos (show 0 < rest.length by omega)
  exact ⟨initiator, responder, messageType, rfl⟩

theorem receivePacket_normal {id : SessionId} (addressed : Addressed id packet body)
    (ready : s.Ready packet.payload.length) :
    ∃ after : Session, receivePacket (receiver clears) packet s =
        (if s.state = .sessionEstablished ∧ id = s.sessionId then
          after.invoke clears (.message MessageType.normal body) else after) ∧
      after.callbacks = s.callbacks ∧ after.hasCompleteMessage = true := by
  obtain ⟨isValid, payload⟩ := addressed
  have unread : (s.stored packet.payload).receiveBuffer.unread =
      id.initiator :: id.responder :: MessageType.normal :: body := by
    rw [unread_stored_room ready.room, ready.unread, payload]
    rfl
  have left : ((s.stored packet.payload).consumed 3).receiveBuffer.unread = body := by
    rw [consumed, FrameBuffer.unread_read, unread]
    rfl
  refine ⟨{ (s.stored packet.payload).consumed 3 with hasCompleteMessage := true }, ?_, rfl, rfl⟩
  rw [receivePacket_room clears packet s ready.idle ready.room, isValid, packetDone_header clears _ unread]
  simp only [dispatch, left]
  rfl

theorem delivered_of_ready (established : s.state = .sessionEstablished)
    (addressed : Addressed s.sessionId packet body) (ready : s.Ready packet.payload.length) :
    Delivered clears s packet body := by
  obtain ⟨after, received, callbacks, _⟩ := receivePacket_normal clears addressed ready
  rw [Delivered, received, if_pos ⟨established, rfl⟩, callbacks_invoke, callbacks]

theorem ready_of_delivered {id : SessionId} (addressed : Addressed id packet body)
    (delivered : Delivered clears s packet body) : s.Ready packet.payload.length := by
  have unchanged {after : Session} (same : after.callbacks = s.callbacks) :
      ¬after.callbacks = s.callbacks ++ [.message MessageType.normal body] :=
    (Notices.of_eq same).not_message
  have nonempty : packet.chunks ≠ [] := by
    intro empty
    have payload := addressed.2
    rw [Packet.payload, empty] at payload
    cases payload
  cases idle : s.hasCompleteMessage with
  | true =>
    rw [Delivered, receivePacket_busy clears packet s idle nonempty] at delivered
    exact absurd delivered (unchanged rfl)
  | false =>
    by_cases room : packet.payload.length ≤ s.receiveBuffer.available
    · refine ⟨idle, ?_, room⟩
      -- All bytes but a header's are given to the callback, so none was there before.
      have unread := unread_stored_room (s := s) room
      have size : packet.payload.length = 3 + body.length := by
        rw [addressed.2, List.length_append]
        rfl
      obtain ⟨initiator, responder, messageType, header⟩ :=
        exists_header (s.receiveBuffer.unread ++ packet.payload) (by rw [List.length_append]; omega)
      rw [Delivered, receivePacket_room clears packet s idle room, addressed.1,
        packetDone_header clears _ (unread.trans header)] at delivered
      have given := congrArg List.length (unread_of_dispatch clears _ _ delivered)
      rw [consumed, FrameBuffer.unread_read, unread, List.length_drop, List.length_append] at given
      exact List.eq_nil_of_length_eq_zero (by omega)
    · rw [Delivered, receivePacket_short clears packet s idle (by omega)] at delivered
      exact absurd delivered (unchanged rfl)

theorem receivePacket_invalid_empty (isValid : packet.isValid = false)
    (empty : packet.payload = []) (idle : s.hasCompleteMessage = false) :
    receivePacket (receiver clears) packet s = s := by
  rw [receivePacket_room clears packet s idle (by rw [empty]; exact Nat.zero_le _), isValid, empty, stored_nil]
  rfl

theorem empty_of_ready {size : Nat} (positive : 0 < size) (ready : s.Ready size)
    (ignore : MustIgnore s.sessionId packet) (after : (receivePacket (receiver clears) packet s).Ready size) :
    packet.isValid = false ∧ packet.payload = [] := by
  by_cases room : packet.payload.length ≤ s.receiveBuffer.available
  · rcases ignore with isValid | ⟨foreign, body, other, addressed⟩
    · have unread := after.unread
      rw [receivePacket_room clears packet s ready.idle room, isValid] at unread
      have stored := (unread_stored_room (s := s) room).symm.trans unread
      rw [ready.unread] at stored
      exact ⟨isValid, stored⟩
    · obtain ⟨kept, received, _, busy⟩ :=
        receivePacket_normal clears addressed ⟨ready.idle, ready.unread, room⟩
      rw [if_neg (fun same => other same.2)] at received
      rw [received] at after
      exact absurd after.idle (by rw [busy]; decide)
  · have short : s.receiveBuffer.available < packet.payload.length := Nat.lt_of_not_le room
    have unread := after.unread
    rw [receivePacket_short clears packet s ready.idle short, stored, FrameBuffer.unread_write,
      ready.unread, List.nil_append] at unread
    have := congrArg List.length unread
    rw [List.length_take, List.length_nil] at this
    have := ready.room
    omega

theorem delivered_after_ignored_iff (established : s.state = .sessionEstablished)
    (ignored : List Packet) (ignore : ∀ rejected ∈ ignored, MustIgnore s.sessionId rejected)
    (addressed : Addressed s.sessionId packet body) :
    (∀ before later, before ++ later = ignored →
        Delivered clears (receivePackets (receiver clears) s before) packet body) ↔
      s.Ready packet.payload.length ∧
        ∀ rejected ∈ ignored, rejected.isValid = false ∧ rejected.payload = [] := by
  have positive : 0 < packet.payload.length := by
    rw [addressed.2]
    exact Nat.zero_lt_succ _
  constructor
  · intro delivered
    have ready := ready_of_delivered clears addressed (delivered [] ignored rfl)
    refine ⟨ready, ?_⟩
    induction ignored with
    | nil => simp
    | cons first rest ih =>
      have next := ready_of_delivered clears addressed (delivered [first] rest rfl)
      have empty := empty_of_ready clears positive ready (ignore first List.mem_cons_self) next
      have same : receivePacket (receiver clears) first s = s :=
        receivePacket_invalid_empty clears empty.1 empty.2 ready.idle
      refine List.forall_mem_cons.mpr ⟨empty, ih ?_ ?_⟩
      · exact fun rejected member => ignore rejected (List.mem_cons_of_mem _ member)
      · intro before later split
        have := delivered (first :: before) later (by rw [List.cons_append, split])
        rwa [receivePackets, same] at this
  · rintro ⟨ready, empty⟩ before later split
    have unchanged : receivePackets (receiver clears) s before = s := by
      have emptyBefore : ∀ rejected ∈ before, rejected.isValid = false ∧ rejected.payload = [] :=
        fun rejected member => empty rejected (split ▸ List.mem_append_left later member)
      clear split
      induction before with
      | nil => rfl
      | cons first rest ih =>
        obtain ⟨head, tail⟩ := List.forall_mem_cons.mp emptyBefore
        rw [receivePackets, receivePacket_invalid_empty clears head.1 head.2 ready.idle, ih tail]
    rw [unchanged]
    exact delivered_of_ready clears established addressed ready

end

end

def connected (capacity : Nat) (id : SessionId) : Session :=
  { initial capacity with state := .sessionEstablished, sessionId := id }

theorem delivered_after_ignored_iff_noPayload :
    Delivered (fun _ => true)
      (receivePackets (receiver fun _ => true) (connected 16 ⟨5, 6⟩) [Packet.ofBytes [] false])
      (Packet.ofBytes [5, 6, 0x10, 7, 8] true) [7, 8] := by
  have ignore (rejected : Packet) (member : rejected ∈ [Packet.ofBytes [] false]) :
      rejected.isValid = false ∧ rejected.payload = [] := by
    rw [List.mem_singleton.mp member]
    exact ⟨rfl, rfl⟩
  exact (delivered_after_ignored_iff (fun _ => true) rfl [Packet.ofBytes [] false]
      (fun rejected member => Or.inl (ignore rejected member).1) ⟨rfl, rfl⟩).mpr
    ⟨⟨rfl, rfl, by decide⟩, ignore⟩ _ [] rfl

theorem rejected_poisons :
    (MustIgnore ⟨5, 6⟩ (Packet.ofBytes [9] false) ∧
      ¬Delivered (fun _ => true)
        (receivePackets (receiver fun _ => true) (connected 64 ⟨5, 6⟩) [Packet.ofBytes [9] false])
        (Packet.ofBytes [5, 6, 0x10, 7, 8] true) [7, 8]) ∧
    (MustIgnore ⟨5, 6⟩ (Packet.ofBytes [1, 2, 0x10, 3] true) ∧
      ¬Delivered (fun _ => true)
        (receivePackets (receiver fun _ => true) (connected 64 ⟨5, 6⟩)
          [Packet.ofBytes [1, 2, 0x10, 3] true])
        (Packet.ofBytes [5, 6, 0x10, 7, 8] true) [7, 8]) := by
  refine ⟨⟨Or.inl rfl, ?_⟩, Or.inr ⟨⟨1, 2⟩, [3], by decide, rfl, rfl⟩, ?_⟩
  · unfold Delivered
    decide
  · unfold Delivered
    decide

-- The first of them on the wire, through the unframer and with a checksum that never changes.
example :
    (Unframer.initial.feedAll (fun crc _ => crc) (receiver fun _ => true) (connected 64 ⟨5, 6⟩)
      [[0xff, 0xfd, 1, 0, 0, 0, 9, 0, 0],
        [0xff, 0xfd, 5, 0, 0, 0, 5, 6, 0x10, 7, 8, 0xff, 0xff, 0xff, 0xff]]).sink.callbacks = [] := by
  decide

end Session

end Tlm.MicroRpc
