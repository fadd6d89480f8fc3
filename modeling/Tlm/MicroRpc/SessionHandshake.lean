import Tlm.MicroRpc.HandshakeFailures
import Tlm.MicroRpc.SessionReceive

set_option autoImplicit false

namespace Tlm.MicroRpc.Session

open Duplex Handshake

section

variable (clears : Callback → Bool)

def endpoint : Endpoint Session Bytes where
  sent := sent
  opens s after := s.startSession = some after
  receives s bytes after := ∃ packet : Packet, packet.isValid = true ∧ packet.payload = bytes ∧
    after = receivePacket (receiver clears) packet s

def rules : Rules UInt8 where
  next := regenerated
  clearsJoined := clears (.notice MessageType.startSessionReply)
  clearsEnded := clears (.notice MessageType.terminateSession)

end

def Agree (s t : Session) : Prop :=
  s.state = .sessionEstablished ∧ t.state = .sessionEstablished ∧ s.sessionId = t.sessionId

def encode : Message UInt8 → Bytes
  | .terminate => (SessionHeader.mk ⟨0, 0⟩ MessageType.terminateSession).bytes
  | .init nonce => (SessionHeader.mk ⟨nonce, 0⟩ MessageType.startSessionInit).bytes ++ [kVersion]
  | .reply initiator responder =>
    (SessionHeader.mk ⟨initiator, responder⟩ MessageType.startSessionReply).bytes ++ [kVersion]

def Proper : Message UInt8 → Prop
  | .terminate => True
  | .init nonce => nonce ≠ invalidNonce
  | .reply _ responder => responder ≠ invalidNonce

def Encodes (bytes : Bytes) (message : Message UInt8) : Prop :=
  bytes = encode message ∧ Proper message

theorem length_encode (message : Message UInt8) : (encode message).length = message.size := by
  cases message <;> rfl

def phase (s : Session) : PeerPhase UInt8 :=
  match s.state with
  | .reset => .reset
  | .noSessionEstablished => .idle
  | .startSessionSent => .waiting
  | .sessionEstablished => .joined s.sessionId.initiator s.sessionId.responder

structure Mirrors (s : Session) (p : Peer UInt8) : Prop where
  nonce : p.nonce = s.localNonce
  phase : p.phase = s.phase
  capacity : p.capacity = s.receiveBuffer.capacity
  held : p.held = s.receiveBuffer.data.length
  read : s.receiveBuffer.unread = [] ∨ p.held = p.capacity
  sent : List.Forall₂ Encodes s.sent p.sent

structure Represents (s : Session) (p : Peer UInt8) : Prop extends Mirrors s p where
  idle : s.hasCompleteMessage = false

theorem regenerated_ne (nonce : UInt8) : regenerated nonce ≠ invalidNonce := by
  simp only [regenerated]
  split
  next zero =>
    rw [zero]
    decide
  next other => exact other

theorem sent_append {s : Session} {p : Peer UInt8} (mirrors : Mirrors s p)
    (message : Message UInt8) (proper : Proper message) :
    List.Forall₂ Encodes (s.sent ++ [encode message]) (p.sent ++ [message]) :=
  List.rel_append mirrors.sent (.cons ⟨rfl, proper⟩ .nil)

section

variable (clears : Callback → Bool) {s : Session} {p : Peer UInt8}

theorem Mirrors.notice (mirrors : Mirrors s p) (kind : UInt8) : Mirrors (s.invoke clears (.notice kind))
      { p with held := Peer.kept (clears (.notice kind)) p.held } := by
  rw [invoke]
  cases clears (.notice kind) with
  | true => exact ⟨mirrors.nonce, mirrors.phase, mirrors.capacity, rfl, Or.inl rfl, mirrors.sent⟩
  | false => exact ⟨mirrors.nonce, mirrors.phase, mirrors.capacity, mirrors.held, mirrors.read, mirrors.sent⟩

theorem Mirrors.start (mirrors : Mirrors s p) (ready : s.state ≠ .reset) :
    ∃ after, s.startSession = some after ∧ Mirrors after (p.start (rules clears)) ∧
      after.hasCompleteMessage = s.hasCompleteMessage := by
  refine ⟨_, if_neg ready, ⟨?_, rfl, mirrors.capacity, mirrors.held, mirrors.read, ?_⟩, rfl⟩
  · exact congrArg regenerated mirrors.nonce
  · rw [Peer.start, mirrors.nonce]
    exact sent_append mirrors (.init (regenerated s.localNonce)) (regenerated_ne _)

theorem Mirrors.answer (mirrors : Mirrors s p) (header : SessionHeader) :
    Mirrors (s.sendSessionStartReply clears header) (p.answer (rules clears) header.sessionId.initiator) := by
  let nonce := regenerated s.localNonce
  let reply := Message.reply header.sessionId.initiator nonce
  have replied : Mirrors { (s.regenerateNonce.setSessionId header.sessionId.initiator nonce).sendInternal
          MessageType.startSessionReply [kVersion] with state := .sessionEstablished } { p with
        nonce := nonce
        phase := .joined header.sessionId.initiator nonce
        sent := p.sent ++ [reply] } :=
    ⟨rfl, rfl, mirrors.capacity, mirrors.held, mirrors.read, sent_append mirrors reply (regenerated_ne _)⟩
  rw [Peer.answer, mirrors.nonce]
  exact replied.notice clears MessageType.startSessionReply

theorem kept_kept (cleared : Bool) (held : Nat) :
    Peer.kept cleared (Peer.kept cleared held) = Peer.kept cleared held := by
  cases cleared <;> rfl

theorem Mirrors.answer_again (mirrors : Mirrors s p) (header : SessionHeader) :
    Mirrors ((s.sendSessionStartReply clears header).onSessionEstablished clears)
      (p.answer (rules clears) header.sessionId.initiator) := by
  have twice := (mirrors.answer clears header).notice clears MessageType.startSessionReply
  simp only [Peer.answer, rules, kept_kept] at twice
  exact twice

theorem Mirrors.startSession_getD (mirrors : Mirrors s p) (waiting : s.state = .startSessionSent) :
    Mirrors (s.startSession.getD s) (p.start (rules clears)) := by
  obtain ⟨after, started, result, _⟩ := mirrors.start clears (by rw [waiting]; decide)
  rw [started]
  exact result

theorem Mirrors.terminate (mirrors : Mirrors s p) :
    Mirrors (if s.state = .sessionEstablished then
        { s with state := .noSessionEstablished }.onSessionTerminated clears else s)
      (p.handle (rules clears) .terminate) := by
  have phase := mirrors.phase
  rw [Session.phase] at phase
  by_cases established : s.state = .sessionEstablished
  · have ended : Mirrors { s with state := .noSessionEstablished } { p with phase := .idle } :=
      ⟨mirrors.nonce, rfl, mirrors.capacity, mirrors.held, mirrors.read, mirrors.sent⟩
    rw [established] at phase
    rw [if_pos established, Peer.handle, phase]
    exact ended.notice clears MessageType.terminateSession
  · rw [if_neg established, Peer.handle_terminate]
    · exact mirrors
    · intro initiator responder joined
      rw [phase] at joined
      split at joined <;> contradiction

theorem mirrors_init {nonce : UInt8} (proper : nonce ≠ invalidNonce)
    (version : s.receiveBuffer.unread = [kVersion]) (mirrors : Mirrors (s.consumed 1) p) :
    Mirrors (s.processStartSessionInit clears ⟨⟨nonce, 0⟩, MessageType.startSessionInit⟩)
      (p.handle (rules clears) (.init nonce)) := by
  have phase := mirrors.phase
  simp only [processStartSessionInit, readVersion_cases, version, List.head?_cons, if_neg proper]
  generalize s.consumed 1 = s at mirrors phase ⊢
  rw [Session.phase] at phase
  cases state : s.state with
  | reset =>
    rw [state] at phase
    rw [Peer.handle, phase]
    exact mirrors.answer clears _
  | noSessionEstablished =>
    rw [state] at phase
    rw [Peer.handle, phase]
    exact mirrors.answer clears _
  | startSessionSent =>
    rw [state] at phase
    rw [Peer.handle, phase, mirrors.nonce]
    dsimp only
    split
    · exact mirrors.answer clears _
    · split
      · exact mirrors.startSession_getD clears state
      · exact mirrors
  | sessionEstablished =>
    rw [state] at phase
    rw [Peer.handle, phase]
    exact mirrors.answer_again clears _

theorem mirrors_reply {initiator responder : UInt8} (proper : responder ≠ invalidNonce)
    (version : s.receiveBuffer.unread = [kVersion]) (mirrors : Mirrors (s.consumed 1) p) :
    Mirrors (s.processStartSessionReply clears ⟨⟨initiator, responder⟩, MessageType.startSessionReply⟩)
      (p.handle (rules clears) (.reply initiator responder)) := by
  have phase := mirrors.phase
  simp only [processStartSessionReply, readVersion_cases, version, List.head?_cons, and_true,
    and_false, proper, if_false]
  generalize s.consumed 1 = s at mirrors phase ⊢
  rw [Session.phase] at phase
  cases state : s.state with
  | reset =>
    rw [state] at phase
    rw [Peer.handle, phase]
    exact mirrors
  | noSessionEstablished =>
    rw [state] at phase
    rw [Peer.handle, phase]
    exact mirrors
  | startSessionSent =>
    rw [state] at phase
    rw [Peer.handle, phase, mirrors.nonce]
    dsimp only
    split
    next own =>
      have joined : Mirrors
          { s.setSessionId s.localNonce responder with state := .sessionEstablished }
          { p with nonce := s.localNonce, phase := .joined initiator responder } :=
        ⟨rfl, by rw [own]; rfl, mirrors.capacity, mirrors.held, mirrors.read, mirrors.sent⟩
      exact joined.notice clears MessageType.startSessionReply
    · exact mirrors
  | sessionEstablished =>
    rw [state] at phase
    rw [Peer.handle, phase]
    exact ⟨mirrors.nonce, rfl, mirrors.capacity, mirrors.held, mirrors.read, mirrors.sent⟩

theorem Mirrors.taken (mirrors : Mirrors s p) (busy : Bool) {size : Nat} {buffer : FrameBuffer}
    (read : buffer.unread = []) (capacity : buffer.capacity = s.receiveBuffer.capacity)
    (held : buffer.data.length = s.receiveBuffer.data.length + size) :
    Mirrors { s with receiveBuffer := buffer, hasCompleteMessage := busy } { p with held := p.held + size } :=
  ⟨mirrors.nonce, mirrors.phase, mirrors.capacity.trans capacity.symm,
    (congrArg (· + size) mirrors.held).trans held.symm, Or.inl read, mirrors.sent⟩

theorem Mirrors.done (mirrors : Mirrors s p) : Represents { s with hasCompleteMessage := false } p :=
  ⟨⟨mirrors.nonce, mirrors.phase, mirrors.capacity, mirrors.held, mirrors.read, mirrors.sent⟩, rfl⟩

theorem Represents.receive (represents : Represents s p) {bytes : Bytes} {message : Message UInt8}
    (encodes : Encodes bytes message) {packet : Packet} (isValid : packet.isValid = true)
    (payload : packet.payload = bytes) :
    Represents (receivePacket (receiver clears) packet s) (p.receive (rules clears) message) := by
  obtain ⟨rfl, proper⟩ := encodes
  have size : packet.payload.length = message.size := by rw [payload, length_encode]
  have positive := message.size_pos
  have available : s.receiveBuffer.available = p.capacity - p.held := by
    rw [represents.capacity, represents.held]
    rfl
  by_cases room : p.held + message.size ≤ p.capacity
  · have fits : packet.payload.length ≤ s.receiveBuffer.available := by omega
    have unread : (s.stored packet.payload).receiveBuffer.unread = encode message := by
      rw [unread_stored_room fits, represents.read.resolve_right (by omega), payload]
      rfl
    have held : (s.stored packet.payload).receiveBuffer.data.length =
        s.receiveBuffer.data.length + message.size := by
      rw [stored, FrameBuffer.length_write, Nat.min_eq_right fits, size]
    have left (count : Nat) : ((s.stored packet.payload).consumed count).receiveBuffer.unread =
        (encode message).drop count := by rw [consumed, FrameBuffer.unread_read, unread]
    have rest (count : Nat) : (((s.stored packet.payload).consumed 3).consumed count).receiveBuffer.unread =
          ((encode message).drop 3).drop count := by
      rw [consumed, FrameBuffer.unread_read, left]
    rw [Peer.receive_room room, receivePacket_room clears packet s represents.idle fits, isValid]
    cases message with
    | terminate =>
      rw [packetDone_header clears _ unread, dispatch, if_neg (by decide), if_neg (by decide), if_pos rfl]
      exact ((represents.taken true (left 3) rfl held).terminate clears).done
    | init nonce =>
      rw [packetDone_header clears _ unread, dispatch, if_pos rfl]
      apply Mirrors.done
      apply mirrors_init clears proper
      · exact left 3
      · exact represents.taken true (rest 1) rfl held
    | reply initiator responder =>
      rw [packetDone_header clears _ unread, dispatch,
        if_neg (show MessageType.startSessionReply ≠ MessageType.startSessionInit by decide),
        if_pos rfl]
      apply Mirrors.done
      apply mirrors_reply clears proper
      · exact left 3
      · exact represents.taken true (rest 1) rfl held
  · rw [Peer.receive_full (by omega), receivePacket_short clears packet s represents.idle (by omega)]
    have full : (s.stored packet.payload).receiveBuffer.data.length = p.capacity := by
      rw [stored, FrameBuffer.length_write, Nat.min_eq_left (by omega), available, ← represents.held]
      have := s.receiveBuffer.fits
      rw [← represents.held, ← represents.capacity] at this
      omega
    exact ⟨⟨represents.nonce, represents.phase, represents.capacity, full.symm, Or.inr rfl,
      represents.sent⟩, represents.idle⟩

end

section

variable (clears : Callback → Bool)

theorem payload_ofBytes (bytes : Bytes) (isValid : Bool) : (Packet.ofBytes bytes isValid).payload = bytes := by
  rw [Packet.payload, Packet.ofBytes, ← List.flatMap_def, List.flatMap_singleton']

theorem reset_iff {s : Session} {p : Peer UInt8} (represents : Represents s p) :
    p.phase = .reset ↔ s.state = .reset := by
  rw [represents.phase, Session.phase]
  cases s.state <;> simp

theorem session_simulates :
    Simulates (endpoint clears) (Peer.endpoint (rules clears)) Represents Encodes where
  sent represents := represents.sent
  opens := by
    intro s p after represents (opens : s.startSession = some after)
    have ready : s.state ≠ .reset := by
      intro reset
      rw [startSession, if_pos reset] at opens
      cases opens
    obtain ⟨after', started, mirrors, idle⟩ := represents.start clears ready
    obtain rfl : after' = after := Option.some.inj (started.symm.trans opens)
    exact ⟨_, ⟨mt (reset_iff represents).mp ready, rfl⟩, mirrors, idle.trans represents.idle⟩
  receives := by
    rintro s p after bytes message represents encodes ⟨packet, isValid, payload, rfl⟩
    exact ⟨_, rfl, represents.receive clears encodes isValid payload⟩

theorem peer_simulates :
    Simulates (Peer.endpoint (rules clears)) (endpoint clears) (flip Represents) (flip Encodes) where
  sent represents := represents.sent.flip
  opens := by
    rintro p s after represents ⟨ready, rfl⟩
    obtain ⟨after, started, mirrors, idle⟩ :=
      represents.start clears (mt (reset_iff represents).mpr ready)
    exact ⟨after, started, mirrors, idle.trans represents.idle⟩
  receives := by
    rintro p s after message bytes represents encodes rfl
    exact ⟨_, ⟨Packet.ofBytes bytes true, rfl, payload_ofBytes bytes true, rfl⟩,
      represents.receive clears encodes rfl (payload_ofBytes bytes true)⟩

theorem joined_iff (s : Session) (initiator responder : UInt8) :
    s.phase = .joined initiator responder ↔
      s.state = .sessionEstablished ∧ s.sessionId = ⟨initiator, responder⟩ := by
  rw [Session.phase]
  obtain ⟨localNonce, ⟨i, r⟩, state⟩ := s
  cases state <;> simp

theorem agree_iff {s t : Session} {p q : Peer UInt8} (first : Represents s p)
    (second : Represents t q) : Agree s t ↔ Peer.Agree p q := by
  simp only [Peer.Agree, first.phase, second.phase, joined_iff]
  constructor
  · rintro ⟨stateS, stateT, same⟩
    exact ⟨_, _, ⟨stateS, rfl⟩, stateT, same.symm⟩
  · rintro ⟨initiator, responder, ⟨stateS, idS⟩, stateT, idT⟩
    exact ⟨stateS, stateT, idS.trans idT.symm⟩

def started (capacity : Nat) (nonce : UInt8) : Session :=
  (initial capacity).initializeWith nonce

theorem started_represents (capacity : Nat) (nonce : UInt8) :
    Represents (started capacity nonce) (.initial capacity nonce) :=
  ⟨⟨rfl, rfl, rfl, rfl, Or.inl rfl, .cons ⟨rfl, trivial⟩ .nil⟩, rfl⟩

theorem started_matches (capacityA capacityB : Nat) (nonceA nonceB : UInt8) :
    (Link.initial (started capacityA nonceA) (started capacityB nonceB)).Matches Represents
      (.initial (.initial capacityA nonceA) (.initial capacityB nonceB)) :=
  ⟨started_represents capacityA nonceA, started_represents capacityB nonceB, rfl, rfl, rfl, rfl⟩

theorem sessions_settle_iff (capacityA capacityB : Nat) (nonceA nonceB : UInt8) :
    Settles (endpoint clears) Agree
        (.initial (started capacityA nonceA) (started capacityB nonceB)) ↔
      Settles (Peer.endpoint (rules clears)) Peer.Agree
        (.initial (.initial capacityA nonceA) (.initial capacityB nonceB)) := by
  have same := started_matches capacityA capacityB nonceA nonceB
  constructor
  · refine (peer_simulates clears).settles ?_ ⟨same.a, same.b, rfl, rfl, rfl, rfl⟩
    exact fun first second => (agree_iff first second).mp
  · refine (session_simulates clears).settles ?_ same
    exact fun first second => (agree_iff first second).mpr

theorem handshake_settles_iff (capacityA capacityB : Nat) (nonceA nonceB : UInt8) :
    Settles (endpoint clears) Agree
        (.initial (started capacityA nonceA) (started capacityB nonceB)) ↔
      Enough (rules clears) capacityA capacityB nonceA nonceB :=
  (sessions_settle_iff clears capacityA capacityB nonceA nonceB).trans settles_iff_enough

end

-- The nonces of two sessions that were initialized alike never differ.
theorem equal_nonces_not_settled :
    ¬Settles (endpoint fun _ => true) Agree (.initial (started 1024 7) (started 1024 7)) := by
  rw [sessions_settle_iff]
  exact fun settles => differ_of_settles settles rfl

end Tlm.MicroRpc.Session
