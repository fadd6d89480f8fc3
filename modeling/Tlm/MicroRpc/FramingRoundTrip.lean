import Tlm.MicroRpc.FramingRefinement

set_option autoImplicit false

namespace Tlm.MicroRpc

def encoded (escape : Bool) (data : Bytes) : Bytes :=
  if escape then escaped data else data

@[simp] theorem encoded_nil (escape : Bool) : encoded escape [] = [] := by
  cases escape <;> rfl

theorem encoded_plain {escape : Bool} {c : UInt8} (plain : (!escape || decide (c ≠ escapeStart)) = true)
    (rest : Bytes) : encoded escape (c :: rest) = [c] ++ encoded escape rest := by
  cases escape with
  | false => rfl
  | true =>
    have other : c ≠ escapeStart := by simpa using plain
    rw [encoded, if_pos rfl, escaped_cons, if_neg other]
    rfl

theorem encoded_escape {escape : Bool} {c : UInt8}
    (special : ¬(!escape || decide (c ≠ escapeStart)) = true) (rest : Bytes) :
    encoded escape (c :: rest) = [escapeStart, escapeStart] ++ encoded escape rest := by
  cases escape with
  | false => simp at special
  | true =>
    have same : c = escapeStart := by simpa using special
    rw [encoded, if_pos rfl, escaped_cons, if_pos same]
    rfl

theorem encoded_append (escape : Bool) (first rest : Bytes) :
    encoded escape (first ++ rest) = encoded escape first ++ encoded escape rest := by
  cases escape
  · rfl
  · exact escaped_append first rest

theorem fillBuffer_splits (escape : Bool) (buffer data : Bytes) :
    ∃ consumed, data = consumed ++ (fillBuffer escape buffer data).2 ∧
      (fillBuffer escape buffer data).1 = buffer ++ encoded escape consumed := by
  fun_induction fillBuffer escape buffer data with
  | case1 buffer => exact ⟨[], rfl, by simp⟩
  | case2 buffer c rest full => exact ⟨[], rfl, by simp⟩
  | case3 buffer c rest room plain ih =>
    obtain ⟨consumed, split, filled⟩ := ih
    refine ⟨c :: consumed, congrArg (c :: ·) split, ?_⟩
    rw [filled, List.append_assoc, encoded_plain plain]
  | case4 buffer c rest room special last => exact ⟨[], rfl, by simp⟩
  | case5 buffer c rest room special fits ih =>
    obtain ⟨consumed, split, filled⟩ := ih
    refine ⟨c :: consumed, congrArg (c :: ·) split, ?_⟩
    rw [filled, List.append_assoc, encoded_escape special]

theorem fillBuffer_progress (escape : Bool) (c : UInt8) (rest : Bytes) :
    (fillBuffer escape [] (c :: rest)).2.length < (c :: rest).length := by
  have shorter : ∀ buffer, (fillBuffer escape buffer rest).2.length < (c :: rest).length := by
    intro buffer
    obtain ⟨consumed, split, -⟩ := fillBuffer_splits escape buffer rest
    have size := congrArg List.length split
    rw [List.length_append] at size
    rw [List.length_cons]
    omega
  rw [fillBuffer, if_neg (by decide)]
  split
  · exact shorter _
  · exact shorter _

section

variable {τ : Type} {sink : Sink τ} {seen : τ → List Event} {marks : Bool}
variable {updateCrc : UInt16 → UInt8 → UInt16}

-- A part of the framer that has written `wire` and left the framer in the state `next`.
def Wrote (seen : τ → List Event) (t : τ) (wire : Bytes) (next : Framer)
    (result : ErrorCode × Framer × τ) : Prop :=
  ∃ t', result = (.noError, next, t') ∧ seen t' = seen t ++ wire.map .byte

theorem Wrote.andThen {t : τ} {first second : Bytes} {middle last : Framer}
    {result : ErrorCode × Framer × τ} {next : Framer → τ → ErrorCode × Framer × τ}
    (wrote : Wrote seen t first middle result) (more : ∀ t', Wrote seen t' second last (next middle t')) :
    Wrote seen t (first ++ second) last (Framer.andThen result next) := by
  obtain ⟨t', rfl, sent⟩ := wrote
  obtain ⟨t'', run, rest⟩ := more t'
  refine ⟨t'', run, ?_⟩
  rw [rest, sent, List.append_assoc, List.map_append]

section

variable (accepts : sink.Accepts seen marks)

include accepts

theorem writeLoop_wrote (escape update : Bool) {turns : Nat}
    {data : Bytes} (enough : data.length ≤ turns) (framer : Framer) (t : τ) : Wrote seen t (encoded escape data)
      { framer with
        crc := if update then crc16Compute updateCrc (encoded escape data) framer.crc else framer.crc }
      (framer.writeLoop updateCrc sink escape update turns data t) := by
  induction turns generalizing data framer t with
  | zero =>
    obtain rfl : data = [] := List.length_eq_zero_iff.mp (by omega)
    exact ⟨t, by cases update <;> simp [Framer.writeLoop, crc16Compute], by simp⟩
  | succ turns ih =>
    cases data with
    | nil => exact ⟨t, by cases update <;> simp [Framer.writeLoop, crc16Compute], by simp⟩
    | cons c rest =>
      obtain ⟨consumed, split, filled⟩ := fillBuffer_splits escape [] (c :: rest)
      have shorter := fillBuffer_progress escape c rest
      obtain ⟨t', wrote, sent⟩ :=
        writeAll_accepts accepts (fillBuffer escape [] (c :: rest)).1 t
      obtain ⟨t'', run, more⟩ := @ih (fillBuffer escape [] (c :: rest)).2 (by omega) { framer with
          crc := if update then
            crc16Compute updateCrc (fillBuffer escape [] (c :: rest)).1 framer.crc
          else framer.crc } t'
      have whole : encoded escape (c :: rest) = (fillBuffer escape [] (c :: rest)).1 ++
          encoded escape (fillBuffer escape [] (c :: rest)).2 := by
        rw [filled, List.nil_append, ← encoded_append, ← split]
      refine ⟨t'', ?_, ?_⟩
      · rw [Framer.writeLoop]
        simp only [List.isEmpty_cons, Bool.false_eq_true, if_false, wrote, ne_eq, not_true_eq_false]
        rw [run, whole]
        cases update
        · rfl
        · simp only [if_true, crc16Compute, List.foldl_append]
      · rw [more, sent, List.append_assoc, ← List.map_append, whole]

theorem writeAndCrc_wrote (framer : Framer) (data : Bytes)
    (escape update : Bool) (t : τ) : Wrote seen t (encoded escape data)
      { framer with
        crc := if update then crc16Compute updateCrc (encoded escape data) framer.crc else framer.crc }
      (framer.writeAndCrc updateCrc sink data escape update t) :=
  writeLoop_wrote accepts escape update (Nat.le_refl _) framer t

def lead (state : FramerState) : Bytes :=
  if state = .reset then [escapeNop] else []

theorem startPacket_wrote (framer : Framer) (size : Nat) (t : τ) :
    Wrote seen t (lead framer.state ++ ([escapeStart, packetStart] ++ (escaped (le32 size) ++ [])))
      ⟨.transmitPacketPayload, size,
        crc16Compute updateCrc (escaped (le32 size)) (startCrc updateCrc)⟩
      (framer.startPacket updateCrc sink size t) := by
  have first : Wrote seen t (lead framer.state) framer
      (if framer.state = .reset then framer.writeAndCrc updateCrc sink [escapeNop] false false t
      else (.noError, framer, t)) := by
    rw [lead]
    split
    · exact writeAndCrc_wrote accepts framer [escapeNop] false false t
    · exact ⟨t, rfl, (List.append_nil _).symm⟩
  apply first.andThen
  intro t
  apply (writeAndCrc_wrote accepts _ [escapeStart, packetStart] false true t).andThen
  intro t
  apply (writeAndCrc_wrote accepts _ (le32 size) true true t).andThen
  intro t
  exact ⟨t, rfl, (List.append_nil _).symm⟩

theorem writePayloadChunk_wrote {framer : Framer}
    (state : framer.state = .transmitPacketPayload) {chunk : Bytes}
    (fits : chunk.length ≤ framer.remaining) (t : τ) : Wrote seen t (escaped chunk)
      ⟨.transmitPacketPayload, framer.remaining - chunk.length,
        crc16Compute updateCrc (escaped chunk) framer.crc⟩
      (framer.writePayloadChunk updateCrc sink chunk t) := by
  obtain ⟨t', run, sent⟩ := @writeAndCrc_wrote _ _ _ _ updateCrc accepts framer chunk true true t
  refine ⟨t', ?_, sent⟩
  rw [Framer.writePayloadChunk, if_neg (not_not.mpr state), if_neg (by omega), run]
  simp [state, encoded]

theorem writeChunks_wrote {chunks : List Bytes} {framer : Framer}
    (state : framer.state = .transmitPacketPayload) (fits : chunks.flatten.length ≤ framer.remaining) (t : τ) :
    Wrote seen t (escaped chunks.flatten)
      ⟨.transmitPacketPayload, framer.remaining - chunks.flatten.length,
        crc16Compute updateCrc (escaped chunks.flatten) framer.crc⟩
      (framer.writeChunks updateCrc sink t chunks) := by
  induction chunks generalizing framer t with
  | nil =>
    obtain ⟨_, remaining, crc⟩ := framer
    cases state
    exact ⟨t, rfl, (List.append_nil _).symm⟩
  | cons chunk rest ih =>
    rw [List.flatten_cons, List.length_append] at fits
    rw [Framer.writeChunks, List.flatten_cons, escaped_append]
    apply (writePayloadChunk_wrote accepts state (by omega) t).andThen
    intro t
    have more := @ih ⟨.transmitPacketPayload, framer.remaining - chunk.length,
      crc16Compute updateCrc (escaped chunk) framer.crc⟩ rfl (by simp only; omega) t
    rw [List.length_append, Nat.sub_add_eq, crc16Compute, List.foldl_append]
    exact more

theorem finishPacket_wrote (crc : UInt16) (t : τ) :
    Wrote seen t (escaped (le16 crc)) ⟨.idle, 0, crc⟩
      (Framer.finishPacket updateCrc sink ⟨.transmitPacketPayload, 0, crc⟩ t) := by
  obtain ⟨t', run, sent⟩ := @writeAndCrc_wrote _ _ _ _ updateCrc accepts
    ⟨.transmitPacketPayload, 0, crc⟩ (le16 crc) true false t
  refine ⟨t', ?_, sent⟩
  rw [Framer.finishPacket, if_neg (by simp), if_neg (by simp), run]
  simp

theorem packet_wrote (framer : Framer) (payload : Bytes)
    (write : Framer → τ → ErrorCode × Framer × τ) (wrote : ∀ crc t, Wrote seen t (escaped payload)
      ⟨.transmitPacketPayload, 0, crc16Compute updateCrc (escaped payload) crc⟩
      (write ⟨.transmitPacketPayload, payload.length, crc⟩ t)) (t : τ) :
    Wrote seen t (lead framer.state ++ packet updateCrc payload)
      ⟨.idle, 0, packetCrc updateCrc payload⟩
      (Framer.andThen (framer.startPacket updateCrc sink payload.length t) fun framer t =>
        Framer.andThen (write framer t) fun framer t => framer.finishPacket updateCrc sink t) := by
  have covered : crc16Compute updateCrc (escaped payload)
      (crc16Compute updateCrc (escaped (le32 payload.length)) (startCrc updateCrc)) =
      packetCrc updateCrc payload := List.foldl_append.symm
  have parts : lead framer.state ++ packet updateCrc payload =
      lead framer.state ++ ([escapeStart, packetStart] ++ (escaped (le32 payload.length) ++ [])) ++
        (escaped payload ++ escaped (le16 (packetCrc updateCrc payload))) := by
    simp [packet, packetBody]
  rw [parts]
  apply (startPacket_wrote accepts framer payload.length t).andThen
  intro t
  apply (wrote _ t).andThen
  intro t
  rw [covered]
  exact finishPacket_wrote accepts _ t

theorem send_wrote (framer : Framer) (job : Framer.Job) (t : τ) :
    Wrote seen t (lead framer.state ++ packet updateCrc job.payload)
      ⟨.idle, 0, packetCrc updateCrc job.payload⟩ (framer.send updateCrc sink t job) := by
  cases job with
  | whole payload =>
    apply packet_wrote accepts framer payload
      (fun framer t => framer.writePayloadChunk updateCrc sink payload t)
    intro crc t
    have chunk := @writePayloadChunk_wrote _ _ _ _ updateCrc accepts
      ⟨.transmitPacketPayload, payload.length, crc⟩ rfl payload (Nat.le_refl _) t
    rwa [Nat.sub_self] at chunk
  | chunked chunks =>
    apply packet_wrote accepts framer chunks.flatten
      (fun framer t => framer.writeChunks updateCrc sink t chunks)
    intro crc t
    have written := @writeChunks_wrote _ _ _ _ updateCrc accepts chunks
      ⟨.transmitPacketPayload, chunks.flatten.length, crc⟩ rfl (Nat.le_refl _) t
    rwa [Nat.sub_self] at written

variable (updateCrc) in
def wire (state : FramerState) : List Framer.Job → Bytes
  | [] => []
  | job :: rest => lead state ++ packet updateCrc job.payload ++ wire .idle rest

theorem sendAll_wrote (jobs : List Framer.Job) (framer : Framer) (t : τ) :
    ∃ last, Wrote seen t (wire updateCrc framer.state jobs) last (framer.sendAll updateCrc sink t jobs) := by
  induction jobs generalizing framer t with
  | nil => exact ⟨framer, t, rfl, (List.append_nil _).symm⟩
  | cons job rest ih =>
    obtain ⟨t', run, sent⟩ := @send_wrote _ _ _ _ updateCrc accepts framer job t
    obtain ⟨last, t'', more, after⟩ := ih ⟨.idle, 0, packetCrc updateCrc job.payload⟩ t'
    refine ⟨last, t'', ?_, ?_⟩
    · rw [Framer.sendAll, run]
      exact more
    · rw [after, sent, wire, List.append_assoc, ← List.map_append]

end

end

section

variable {updateCrc : UInt16 → UInt8 → UInt16}

theorem run_lead (marks : Bool) (state : FramerState) (events : Option (List Event)) :
    Receiver.run updateCrc marks ⟨.idle, false, events⟩ (lead state) = ⟨.idle, false, events⟩ := by
  cases state <;> rfl

theorem run_wire {jobs : List Framer.Job} (small : ∀ job ∈ jobs, job.payload.length < 2 ^ 32)
    (state : FramerState) (events : Option (List Event)) :
    Receiver.run updateCrc false ⟨.idle, false, events⟩ (wire updateCrc state jobs) =
      ⟨.idle, false, events.map (· ++ jobs.flatMap fun job => delivered job.payload)⟩ := by
  induction jobs generalizing state events with
  | nil => simp [wire]
  | cons job rest ih =>
    rw [List.forall_mem_cons] at small
    rw [wire, Receiver.run_append, Receiver.run_append, run_lead, run_packet small.1, ih small.2]
    simp [begun, Function.comp_def]

theorem follows_initial {τ : Type} (seen : τ → List Event) (t : τ) :
    Follows seen .initial t ⟨.idle, false, some (seen t)⟩ :=
  ⟨rfl, rfl, rfl, fun _ known => Option.some.inj known⟩

def recorder (marks : Bool) : Sink (List Event) where
  write data t := (data.length, t ++ data.map .byte)
  packetDone valid t := t ++ [.done valid]
  packetStart t := if marks then [] else t

theorem recorder_accepts (marks : Bool) : (recorder marks).Accepts id marks := by
  refine ⟨fun data t filled => ?_, fun _ _ => rfl, fun _ => rfl⟩
  refine ⟨data.length, List.length_pos_iff.mpr filled, Nat.le_refl _, rfl, ?_⟩
  rw [List.take_length]
  rfl

theorem Receiver.step_nop_saw (marks : Bool) (r : Receiver) :
    (r.step updateCrc marks escapeNop).saw = false := by
  obtain ⟨phase, saw, events⟩ := r
  have plain : decode false escapeNop = .data escapeNop := rfl
  have skipped : decode true escapeNop = .skip false := rfl
  cases phase with
  | idle => rfl
  | length crc got =>
    rw [length_step]
    cases saw with
    | true => rw [skipped]
    | false =>
      rw [plain]
      dsimp only
      split <;> rfl
  | payload crc remaining =>
    rw [payload_step]
    cases saw with
    | true => rw [skipped]
    | false => rw [plain]
  | checksum crc got =>
    rw [checksum_step]
    cases saw with
    | true => rw [skipped]
    | false =>
      rw [plain]
      dsimp only
      split <;> rfl

theorem Receiver.step_start {r : Receiver} (closed : r.saw = false) :
    (r.step updateCrc true escapeStart).step updateCrc true packetStart = begun updateCrc true none := by
  obtain ⟨phase, saw, events⟩ := r
  cases closed
  cases phase <;> rfl

theorem Receiver.run_start (r : Receiver) :
    r.run updateCrc true [escapeNop, escapeStart, packetStart] = begun updateCrc true none :=
  step_start (step_nop_saw true r)

theorem framing_resynchronizes {τ τ' : Type} {out : Sink τ} {down : Sink τ'} {sent : τ → List Event}
    {sinceStart : τ' → List Event} (sends : out.Accepts sent false)
    (receives : down.Accepts sinceStart true) {framer : Framer} (reset : framer.state = .reset)
    {payload : Bytes} (small : payload.length < 2 ^ 32) (t : τ) (t' : τ') (prior bytes : Bytes)
    (written : sent (framer.write updateCrc out payload t).2.2 = sent t ++ bytes.map .byte)
    (fragments : List Bytes) (cut : fragments.flatten = prior ++ bytes) :
    let fed := Unframer.initial.feedAll updateCrc down t' fragments
    fed.left = [] ∧ sinceStart fed.sink = delivered payload := by
  have same : bytes = [escapeNop, escapeStart, packetStart] ++ packetBody updateCrc payload := by
    obtain ⟨t'', run, wrote⟩ := @send_wrote _ _ _ _ updateCrc sends framer (.whole payload) t
    rw [show framer.write updateCrc out payload t = _ from run, wrote, reset] at written
    exact (List.map_injective_iff.mpr (fun _ _ => Event.byte.inj) (List.append_cancel_left written)).symm
  have feeds := @feedAll_feeds _ _ _ _ updateCrc _ .initial t' receives
    (follows_initial sinceStart t') fragments
  refine ⟨feeds.left, feeds.follows.events _ ?_⟩
  rw [cut, same, Receiver.run_append, Receiver.run_append, Receiver.run_start]
  exact congrArg Receiver.seen (run_packetBody small (some []))

theorem framing_resynchronizes_midPacket :
    let fed := Unframer.initial.feedAll (fun crc _ => crc) (recorder true) []
      [[0xff, 0xfd, 9, 0, 0, 0, 5, 0xff], [0xfe, 0xff, 0xfd, 1, 0], [0, 0, 7, 0xff],
        [0xff, 0xff, 0xff]]
    fed.left = [] ∧ fed.sink = [.byte 7, .done true] :=
  @framing_resynchronizes (fun crc _ => crc) _ _ (recorder false) (recorder true) id id
    (recorder_accepts false) (recorder_accepts true) .initial rfl [7] (by decide) [] []
    [0xff, 0xfd, 9, 0, 0, 0, 5, 0xff]
    [0xfe, 0xff, 0xfd, 1, 0, 0, 0, 7, 0xff, 0xff, 0xff, 0xff] rfl _ rfl

theorem run_zeros (marks : Bool) (events : Option (List Event)) (n : Nat) :
    Receiver.run updateCrc marks ⟨.idle, false, events⟩ (List.replicate n 0) = ⟨.idle, false, events⟩ := by
  induction n with
  | zero => rfl
  | succ n ih =>
    exact ih

theorem escaped_zeros (n : Nat) : escaped (List.replicate n 0) = List.replicate n 0 := by
  induction n with
  | zero => rfl
  | succ n ih =>
    rw [List.replicate_succ, escaped_cons, ih]
    rfl

theorem crc16Compute_constant (data : Bytes) (crc : UInt16) :
    crc16Compute (fun crc _ => crc) data crc = crc := by
  induction data with
  | nil => rfl
  | cons c rest ih => exact ih

-- The length field has four bytes: a payload of 2^32 bytes is announced as empty.
theorem packetBody_zeros {n : Nat} (wraps : le32 (n + 2) = [0, 0, 0, 0]) :
    packetBody (fun crc _ => crc) (List.replicate (n + 2) 0) =
      [0, 0, 0, 0, 0, 0] ++ List.replicate n 0 ++ [0xff, 0xff, 0xff, 0xff] := by
  have crc : packetCrc (fun crc _ => crc) (List.replicate (n + 2) 0) = 0xffff :=
    crc16Compute_constant _ _
  rw [packetBody, crc, List.length_replicate, wraps, escaped_zeros]
  rfl

theorem wrapped_not_delivered {n : Nat} (wraps : le32 (n + 2) = [0, 0, 0, 0]) :
    ∃ bytes : Bytes,
      (Framer.initial.write (fun crc _ => crc) (recorder false) (List.replicate (n + 2) 0) []).2.2 =
        bytes.map .byte ∧
      (Unframer.initial.feedAll (fun crc _ => crc) (recorder true) [] [bytes]).sink ≠
        delivered (List.replicate (n + 2) 0) := by
  obtain ⟨t, run, wrote⟩ := @send_wrote _ _ _ _ (fun crc _ => crc) (recorder_accepts false) .initial
    (.whole (List.replicate (n + 2) 0)) []
  have bytes : t = ([escapeNop, escapeStart, packetStart] ++
      packetBody (fun crc _ => crc) (List.replicate (n + 2) 0)).map Event.byte := wrote
  rw [Framer.send] at run
  refine ⟨_, by rw [run, bytes], ?_⟩
  have feeds := @feedAll_feeds _ _ _ _ (fun crc _ => crc) _ .initial [] (recorder_accepts true)
    (follows_initial id [])
    [[escapeNop, escapeStart, packetStart] ++ packetBody (fun crc _ => crc) (List.replicate (n + 2) 0)]
  have seen := feeds.follows.events [.done false] (by
    rw [List.flatten_singleton, Receiver.run_append, Receiver.run_start, packetBody_zeros wraps,
      Receiver.run_append, Receiver.run_append]
    change (Receiver.run _ _ (Receiver.run _ _ ⟨.idle, false, some [.done false]⟩ _) _).seen = _
    rw [run_zeros]
    rfl)
  intro same
  have sizes := congrArg List.length (seen.symm.trans same)
  rw [delivered, List.length_append, List.length_map, List.length_replicate] at sizes
  simp only [List.length_singleton] at sizes
  omega

theorem oversized_not_delivered :
    ∃ bytes : Bytes,
      (Framer.initial.write (fun crc _ => crc) (recorder false) (List.replicate (2 ^ 32) 0) []).2.2 =
        bytes.map .byte ∧
      (Unframer.initial.feedAll (fun crc _ => crc) (recorder true) [] [bytes]).sink ≠
        delivered (List.replicate (2 ^ 32) 0) := by
  have size : 2 ^ 32 = 4294967294 + 2 := by decide
  have wraps : le32 (4294967294 + 2) = [0, 0, 0, 0] := by decide
  rw [size]
  exact wrapped_not_delivered wraps

end

end Tlm.MicroRpc
