import Tlm.MicroRpc.Receiver

set_option autoImplicit false

namespace Tlm.MicroRpc

-- The events that a stream has seen, where each `Write` takes some bytes and none is refused.
structure Sink.Accepts {τ : Type} (sink : Sink τ) (seen : τ → List Event) (marks : Bool) : Prop where
  write : ∀ data t, data ≠ [] → ∃ n : Nat, 0 < n ∧ n ≤ data.length ∧ (sink.write data t).1 = n ∧
    seen (sink.write data t).2 = seen t ++ (data.take n).map .byte
  packetDone : ∀ valid t, seen (sink.packetDone valid t) = seen t ++ [.done valid]
  packetStart : ∀ t, seen (sink.packetStart t) = if marks then [] else seen t

section

variable {τ : Type} {sink : Sink τ} {seen : τ → List Event} {marks : Bool} {turns : Nat} {data : Bytes}

theorem writeAllLoop_accepts (accepts : sink.Accepts seen marks) (enough : data.length ≤ turns)
    (consumed : Nat) (t : τ) :
    ∃ t', writeAllLoop sink turns data consumed t = (.noError, consumed + data.length, t') ∧
      seen t' = seen t ++ data.map .byte := by
  induction turns generalizing data consumed t with
  | zero =>
    cases data with
    | nil => exact ⟨t, rfl, (List.append_nil _).symm⟩
    | cons c rest => simp at enough
  | succ turns ih =>
    cases data with
    | nil => exact ⟨t, rfl, (List.append_nil _).symm⟩
    | cons c rest =>
      obtain ⟨n, positive, fits, returned, record⟩ := accepts.write (c :: rest) t (by simp)
      have left : ((c :: rest).drop n).length ≤ turns := by
        rw [List.length_drop]
        omega
      obtain ⟨t', run, all⟩ := ih left (consumed + n) (sink.write (c :: rest) t).2
      refine ⟨t', ?_, ?_⟩
      · rw [writeAllLoop]
        simp only [List.isEmpty_cons, Bool.false_eq_true, if_false, returned, Int.toNat_natCast]
        rw [if_neg (by omega), if_neg (by omega), if_neg (by omega), run, List.length_drop]
        congr 2
        omega
      · rw [all, record, List.append_assoc, ← List.map_append, List.take_append_drop]

theorem writeAll_accepts (accepts : sink.Accepts seen marks) (data : Bytes) (t : τ) :
    ∃ t', writeAll sink data t = (.noError, data.length, t') ∧ seen t' = seen t ++ data.map .byte := by
  have all := writeAllLoop_accepts accepts (Nat.le_refl data.length) 0 t
  rwa [Nat.zero_add] at all

variable {updateCrc : UInt16 → UInt8 → UInt16}

-- How `ConsumeInput` on a field can end, against the receiver on the same input.
inductive Consumes (field : Field updateCrc marks) (r : Receiver) (crc : UInt16) (input : Bytes) :
    Consumed → Prop
  | ran {saw : Bool} {got : Bytes} (short : got.length < field.size)
      (same : r.run updateCrc marks input = field.part (field.crcAfter crc input) got saw) :
      Consumes field r crc input ⟨.noError, saw, got, input, []⟩
  | filled {got consumed rest : Bytes} (size : got.length = field.size)
      (split : input = consumed ++ rest) (some_ : consumed ≠ [])
      (same : r.run updateCrc marks input =
        (field.full (field.crcAfter crc consumed) got).run updateCrc marks rest) :
      Consumes field r crc input ⟨.noError, false, got, consumed, rest⟩
  | short {got consumed rest : Bytes} (split : input = consumed ++ rest)
      (same : r.run updateCrc marks input = (lost true).run updateCrc marks rest) :
      Consumes field r crc input ⟨.framingShortPacket, true, got, consumed, rest⟩
  | invalid {got consumed rest : Bytes} (split : input = consumed ++ rest) (some_ : consumed ≠ [])
      (same : r.run updateCrc marks input = (lost false).run updateCrc marks rest) :
      Consumes field r crc input ⟨.framingInvalidEscape, false, got, consumed, rest⟩

variable {field : Field updateCrc marks} {r next : Receiver} {c : UInt8} {rest : Bytes}

theorem Consumes.after {crc : UInt16} {done : Consumed} (step : r.step updateCrc marks c = next)
    (more : Consumes field next (field.crcAfter crc [c]) rest done) :
    Consumes field r crc (c :: rest) (done.after c) := by
  have start : r.run updateCrc marks (c :: rest) = next.run updateCrc marks rest := by
    rw [Receiver.run_cons, step]
  cases more with
  | ran short same =>
    apply Consumes.ran short
    rw [start, same, Field.crcAfter_append, List.singleton_append]
  | filled size split some_ same =>
    apply Consumes.filled size (by rw [split, List.cons_append]) (List.cons_ne_nil _ _)
    rw [start, same, Field.crcAfter_append, List.singleton_append]
  | short split same =>
    exact Consumes.short (by rw [split, List.cons_append]) (start.trans same)
  | invalid split some_ same =>
    exact Consumes.invalid (by rw [split, List.cons_append]) (List.cons_ne_nil _ _) (start.trans same)

theorem consumeLoop_cons (size : Nat) (saw : Bool) (buffer : Bytes) (c : UInt8) (rest : Bytes) :
    consumeLoop size saw buffer (c :: rest) =
      match decode saw c with
      | .skip saw => (consumeLoop size saw buffer rest).after c
      | .data d =>
        if (buffer ++ [d]).length = size then ⟨.noError, false, buffer ++ [d], [c], rest⟩
        else (consumeLoop size false (buffer ++ [d]) rest).after c
      | .start => ⟨.framingShortPacket, true, buffer, [], c :: rest⟩
      | .invalid => ⟨.framingInvalidEscape, false, buffer, [c], rest⟩ := by
  rw [consumeLoop, decode]
  cases saw with
  | true =>
    by_cases start : c = packetStart
    · simp [start]
    · by_cases nop : c = escapeNop
      · subst nop
        rfl
      · by_cases escape : c = escapeStart
        · subst escape
          rfl
        · simp [start, nop, escape]
  | false =>
    by_cases escape : c = escapeStart
    · subst escape
      rfl
    · simp [escape]

theorem decode_start {saw : Bool} (start : decode saw c = .start) : c = packetStart := by
  by_contra other
  simp only [decode] at start
  split at start
  · split at start
    · cases start
    · split at start <;> cases start
  · split at start <;> cases start

variable {got : Bytes}

theorem consumeLoop_consumes (field : Field updateCrc marks) (short : got.length < field.size)
    (crc : UInt16) (saw : Bool) (input : Bytes) :
    Consumes field (field.part crc got saw) crc input (consumeLoop field.size saw got input) := by
  induction input generalizing got crc saw with
  | nil =>
    apply Consumes.ran short
    cases update : field.update <;> simp [Field.crcAfter, crc16Compute]
  | cons c rest ih =>
    rw [consumeLoop_cons]
    cases meaning : decode saw c with
    | skip after =>
      exact Consumes.after (field.step_skip short meaning crc) (ih short _ after)
    | data d =>
      have step := field.step_data short meaning crc
      dsimp only
      rw [List.length_append, List.length_singleton]
      split
      next full =>
        rw [if_pos full] at step
        apply Consumes.filled (by simpa using full) (List.singleton_append).symm (by simp)
        rw [Receiver.run_cons, step]
      next room =>
        rw [if_neg room] at step
        exact Consumes.after step (ih (by simp only [List.length_append, List.length_singleton]; omega)
          _ false)
    | start =>
      -- The next call reads the same byte again, as the start of a packet.
      apply Consumes.short (List.nil_append _).symm
      rw [Receiver.run_cons, field.step_part _ _ _ _ short, meaning]
      obtain rfl := decode_start meaning
      rfl
    | invalid =>
      apply Consumes.invalid List.singleton_append.symm (by simp)
      rw [Receiver.run_cons, field.step_part _ _ _ _ short, meaning]

def Unframer.phase (u : Unframer) : Phase :=
  match u.state with
  | .findPacketStart => .idle
  | .findPacketLength => .length u.crc u.buffer
  | .findPacketCrc => awaitPayload u.crc u.remaining
  | .findCrcEnd => .checksum u.crc u.buffer

def Unframer.Fits (u : Unframer) : Prop :=
  match u.state with
  | .findPacketStart => u.buffer = []
  | .findPacketLength => u.buffer.length < 4
  | .findPacketCrc => u.buffer = []
  | .findCrcEnd => u.buffer.length < 2

structure Follows (seen : τ → List Event) (u : Unframer) (t : τ) (r : Receiver) : Prop where
  phase : r.phase = u.phase
  saw : r.saw = u.sawEscapeStart
  fits : u.Fits
  events : ∀ events, r.seen = some events → seen t = events

variable {u : Unframer} {t : τ}

theorem Follows.eq (follows : Follows seen u t r) : r = ⟨u.phase, u.sawEscapeStart, r.seen⟩ := by
  rw [← follows.phase, ← follows.saw]

-- Leaving `findPacketCrc` takes a turn of its own.
def Unframer.pending (u : Unframer) : Nat :=
  if u.state = .findPacketCrc then 1 else 0

theorem awaitPayload_ne_idle (crc : UInt16) (remaining : Nat) : awaitPayload crc remaining ≠ .idle := by
  rw [awaitPayload]
  split <;> exact Phase.noConfusion

theorem Follows.ne_idle (follows : Follows seen u t r) (pending : 0 < u.pending) : r.phase ≠ .idle := by
  have state : u.state = .findPacketCrc := by
    by_contra other
    simp [Unframer.pending, other] at pending
  rw [follows.phase, Unframer.phase, state]
  exact awaitPayload_ne_idle _ _

-- How a part of `Write` can end: it goes on with a receiver that reads the rest to the same end, or it
-- abandons the packet.
inductive Advances (updateCrc : UInt16 → UInt8 → UInt16) (marks : Bool) (seen : τ → List Event)
    (u : Unframer) (r : Receiver) (input : Bytes) : Progress τ → Prop
  | on {next : Unframer} {t : τ} {rest : Bytes} {r' : Receiver}
      (same : r.run updateCrc marks input = r'.run updateCrc marks rest)
      (suffix : rest <:+ input) (less : 2 * rest.length + next.pending < 2 * input.length + u.pending)
      (follows : Follows seen next t r') :
      Advances updateCrc marks seen u r input ⟨.noError, next, rest, t, 0⟩
  | stop {code : ErrorCode} {next : Unframer} {t : τ} {rest : Bytes} (failed : code ≠ .noError)
      (same : r.run updateCrc marks input =
        (lost next.sawEscapeStart).run updateCrc marks rest)
      (suffix : rest <:+ input) (moved : rest.length < input.length ∨ r.phase ≠ .idle) :
      Advances updateCrc marks seen u r input ⟨code, next, rest, t, 0⟩

inductive Finds (updateCrc : UInt16 → UInt8 → UInt16) (marks : Bool) (r : Receiver) (input : Bytes) :
    Bool × Bool × Bytes → Prop
  | found {rest : Bytes} (suffix : rest <:+ input) (shorter : rest.length < input.length)
      (same : r.run updateCrc marks input =
        (begun updateCrc marks r.seen).run updateCrc marks rest) :
      Finds updateCrc marks r input (true, false, rest)
  | missing {saw : Bool} (same : r.run updateCrc marks input = ⟨.idle, saw, r.seen⟩) :
      Finds updateCrc marks r input (false, saw, [])

theorem Finds.after {result : Bool × Bool × Bytes} (step : r.step updateCrc marks c = next)
    (seen : next.seen = r.seen) (more : Finds updateCrc marks next rest result) :
    Finds updateCrc marks r (c :: rest) result := by
  cases more with
  | found suffix shorter same =>
    apply Finds.found (suffix.trans (List.suffix_cons c rest)) (Nat.lt_succ_of_lt shorter)
    rw [Receiver.run_cons, step, same, seen]
  | missing same =>
    apply Finds.missing
    rw [Receiver.run_cons, step, same, seen]

theorem findStartLoop_finds (saw : Bool) (events : Option (List Event)) (input : Bytes) :
    Finds updateCrc marks ⟨.idle, saw, events⟩ input (findStartLoop saw input) := by
  induction input generalizing saw with
  | nil => exact Finds.missing rfl
  | cons c rest ih =>
    have step := @Receiver.step_idle updateCrc marks saw events c
    rw [findStartLoop]
    split at step
    next escape =>
      rw [if_pos escape]
      exact Finds.after step rfl (ih true)
    next plain =>
      rw [if_neg plain]
      split at step
      next start =>
        rw [if_pos start]
        apply Finds.found (List.suffix_cons c rest) (Nat.lt_succ_self _)
        rw [Receiver.run_cons, step]
      next other =>
        rw [if_neg other]
        exact Finds.after step rfl (ih false)

variable {input : Bytes}

theorem findPacketStart_advances (accepts : sink.Accepts seen marks) (follows : Follows seen u t r)
    (idle : u.state = .findPacketStart) (filled : input ≠ []) :
    Advances updateCrc marks seen u r input (u.findPacketStart updateCrc sink input t) := by
  have shape := follows.eq
  have phase : u.phase = .idle := by rw [Unframer.phase, idle]
  have empty : u.buffer = [] := by simpa [Unframer.Fits, idle] using follows.fits
  rw [phase] at shape
  have finds : Finds updateCrc marks r input (findStartLoop u.sawEscapeStart input) :=
    shape ▸ findStartLoop_finds u.sawEscapeStart r.seen input
  rw [Unframer.findPacketStart]
  generalize findStartLoop u.sawEscapeStart input = result at finds
  cases finds with
  | found suffix shorter same =>
    apply Advances.on same suffix
    · simp only [Unframer.pending, reduceCtorEq, if_false]
      omega
    · refine ⟨?_, rfl, ?_, ?_⟩
      · simp only [begun, Unframer.phase, startCrc, empty]
      · simp [Unframer.Fits, empty]
      · intro events known
        rw [accepts.packetStart]
        simp only [begun] at known
        split at known
        next marked =>
          rw [if_pos marked]
          exact Option.some.inj known
        next unmarked =>
          rw [if_neg unmarked]
          exact follows.events events known
  | missing same =>
    have size : 0 < input.length := List.length_pos_iff.mpr filled
    apply Advances.on same List.nil_suffix
    · simp only [Unframer.pending, List.length_nil]
      omega
    · refine ⟨?_, rfl, ?_, follows.events⟩
      · simp only [Unframer.phase, idle]
      · simp [Unframer.Fits, idle, empty]

-- `AddToBuffer` on a field of which the buffer holds the first bytes.
inductive Adds (field : Field updateCrc marks) (u : Unframer) (r : Receiver) (input : Bytes) :
    ErrorCode × Unframer × Bytes → Prop
  | ran {saw : Bool} {got : Bytes} {crc : UInt16} (short : got.length < field.size)
      (same : r.run updateCrc marks input = (field.part crc got saw).run updateCrc marks []) :
      Adds field u r input
        (.noError, { u with sawEscapeStart := saw, buffer := got, crc := crc }, [])
  | filled {got rest : Bytes} {crc : UInt16} (size : got.length = field.size)
      (suffix : rest <:+ input) (shorter : rest.length < input.length)
      (same : r.run updateCrc marks input = (field.full crc got).run updateCrc marks rest) :
      Adds field u r input
        (.noError, { u with sawEscapeStart := false, buffer := got, crc := crc }, rest)
  | stop {code : ErrorCode} {saw : Bool} {got rest : Bytes} {crc : UInt16}
      (failed : code ≠ .noError) (suffix : rest <:+ input)
      (same : r.run updateCrc marks input = (lost saw).run updateCrc marks rest) :
      Adds field u r input (code, { u with sawEscapeStart := saw, buffer := got, crc := crc }, rest)

theorem addToBuffer_adds (field : Field updateCrc marks)
    (shape : r = field.part u.crc u.buffer u.sawEscapeStart) (room : u.buffer.length < field.size)
    (input : Bytes) : Adds field u r input (u.addToBuffer updateCrc field.size field.update input) := by
  have consumes := consumeLoop_consumes field room u.crc u.sawEscapeStart input
  rw [← shape] at consumes
  rw [Unframer.addToBuffer, if_pos room]
  generalize consumeLoop field.size u.sawEscapeStart u.buffer input = done at consumes
  cases consumes with
  | ran short same => exact Adds.ran short same
  | filled size split some_ same =>
    apply Adds.filled size ⟨_, split.symm⟩ _ same
    have := List.length_pos_iff.mpr some_
    rw [split, List.length_append]
    omega
  | short split same => exact Adds.stop (by simp) ⟨_, split.symm⟩ same
  | invalid split some_ same => exact Adds.stop (by simp) ⟨_, split.symm⟩ same

theorem Adds.advances {next : Unframer} {code : ErrorCode} (adds : Adds field u r input
    (code, next, rest)) (filled : input ≠ []) (idle : r.phase ≠ .idle) (waiting : u.pending = 0)
    (collects : ∀ {saw got crc}, got.length < field.size → Follows seen
    { u with sawEscapeStart := saw, buffer := got, crc := crc } t (field.part crc got saw)) :
    (code ≠ .noError ∧ Advances updateCrc marks seen u r input ⟨code, next, rest, t, 0⟩) ∨
      (code = .noError ∧ next.buffer.length < field.size ∧
        Advances updateCrc marks seen u r input ⟨.noError, next, rest, t, 0⟩) ∨
      ∃ got crc, code = .noError ∧
        next = { u with sawEscapeStart := false, buffer := got, crc := crc } ∧
        got.length = field.size ∧ rest <:+ input ∧ rest.length < input.length ∧
        r.run updateCrc marks input = (field.full crc got).run updateCrc marks rest := by
  have size : 0 < input.length := List.length_pos_iff.mpr filled
  cases adds with
  | ran short same =>
    refine Or.inr (Or.inl ⟨rfl, short, Advances.on same List.nil_suffix ?_ (collects short)⟩)
    change 2 * 0 + u.pending < _
    rw [waiting]
    omega
  | filled full suffix shorter same =>
    exact Or.inr (Or.inr ⟨_, _, rfl, rfl, full, suffix, shorter, same⟩)
  | stop failed suffix same =>
    exact Or.inl ⟨failed, Advances.stop failed same suffix (Or.inr idle)⟩

theorem findPacketLength_advances (follows : Follows seen u t r) (state : u.state = .findPacketLength)
    (filled : input ≠ []) : Advances updateCrc marks seen u r input (u.findPacketLength updateCrc input t) := by
  have phase : u.phase = .length u.crc u.buffer := by rw [Unframer.phase, state]
  have room : u.buffer.length < 4 := by simpa [Unframer.Fits, state] using follows.fits
  have waiting : u.pending = 0 := by simp [Unframer.pending, state]
  have adds := addToBuffer_adds (lengthField updateCrc marks r.seen) (phase ▸ follows.eq) room input
  rw [show (lengthField updateCrc marks r.seen).size = 4 from rfl,
    show (lengthField updateCrc marks r.seen).update = true from rfl] at adds
  have collects {saw : Bool} {got : Bytes} {crc : UInt16} (short : got.length < 4) :
      Follows seen { u with sawEscapeStart := saw, buffer := got, crc := crc } t
        ⟨.length crc got, saw, r.seen⟩ := by
    refine ⟨?_, rfl, ?_, follows.events⟩
    · simp only [Unframer.phase, state]
    · simpa [Unframer.Fits, state] using short
  rw [Unframer.findPacketLength]
  generalize u.addToBuffer updateCrc 4 true input = result at adds
  obtain ⟨code, next, rest⟩ := result
  rcases adds.advances filled (by rw [follows.phase, phase]; exact Phase.noConfusion) waiting
    collects with ⟨failed, stops⟩ | ⟨rfl, short, goes⟩ |
      ⟨got, crc, rfl, rfl, full, suffix, shorter, same⟩
  · simpa only [ne_eq, failed, not_false_eq_true, if_true] using stops
  · have short : next.buffer.length < 4 := short
    simpa only [ne_eq, not_true_eq_false, if_false, short, if_true] using goes
  · simp only [full]
    apply Advances.on same suffix
    · simp only [Unframer.pending, if_true]
      omega
    · exact ⟨rfl, rfl, rfl, follows.events⟩

theorem findCrcEnd_advances (accepts : sink.Accepts seen marks) (follows : Follows seen u t r)
    (state : u.state = .findCrcEnd) (filled : input ≠ []) :
    Advances updateCrc marks seen u r input (u.findCrcEnd updateCrc sink input t) := by
  have phase : u.phase = .checksum u.crc u.buffer := by rw [Unframer.phase, state]
  have room : u.buffer.length < 2 := by simpa [Unframer.Fits, state] using follows.fits
  have waiting : u.pending = 0 := by simp [Unframer.pending, state]
  have adds := addToBuffer_adds (checksumField updateCrc marks r.seen) (phase ▸ follows.eq) room input
  rw [show (checksumField updateCrc marks r.seen).size = 2 from rfl,
    show (checksumField updateCrc marks r.seen).update = false from rfl] at adds
  have collects {saw : Bool} {got : Bytes} {crc : UInt16} (short : got.length < 2) :
      Follows seen { u with sawEscapeStart := saw, buffer := got, crc := crc } t
        ⟨.checksum crc got, saw, r.seen⟩ := by
    refine ⟨?_, rfl, ?_, follows.events⟩
    · simp only [Unframer.phase, state]
    · simpa [Unframer.Fits, state] using short
  rw [Unframer.findCrcEnd]
  generalize u.addToBuffer updateCrc 2 false input = result at adds
  obtain ⟨code, next, rest⟩ := result
  rcases adds.advances filled (by rw [follows.phase, phase]; exact Phase.noConfusion) waiting
    collects with ⟨failed, stops⟩ | ⟨rfl, short, goes⟩ |
      ⟨got, crc, rfl, rfl, full, suffix, shorter, same⟩
  · simpa only [ne_eq, failed, not_false_eq_true, if_true] using stops
  · have short : next.buffer.length < 2 := short
    simpa only [ne_eq, not_true_eq_false, if_false, short, if_true] using goes
  · simp only [full]
    apply Advances.on same suffix
    · simp only [Unframer.pending, state, reduceCtorEq]
      omega
    · refine ⟨rfl, rfl, rfl, ?_⟩
      intro events known
      obtain ⟨before, past, rfl⟩ := Option.map_eq_some_iff.mp known
      rw [accepts.packetDone, follows.events before past]

variable {remaining : Nat}

theorem awaitPayload_of_pos (more : remaining ≠ 0) (crc : UInt16) :
    awaitPayload crc remaining = .payload crc remaining := if_neg more

theorem payloadPart_nil (remaining : Nat) (events : Option (List Event)) (crc : UInt16) (saw : Bool) :
    payloadPart remaining events crc [] saw = ⟨.payload crc remaining, saw, events⟩ := by
  simp [payloadPart]

theorem payloadPart_of_short (short : got.length < remaining) (events : Option (List Event))
    (crc : UInt16) (saw : Bool) :
    payloadPart remaining events crc got saw =
      ⟨awaitPayload crc (remaining - got.length), saw, events.map (· ++ got.map .byte)⟩ := by
  rw [payloadPart, awaitPayload_of_pos (by omega)]

-- The loop ends at the end of the payload, at the end of the input, or by abandoning the packet.
inductive Loops (updateCrc : UInt16 → UInt8 → UInt16) (marks : Bool) (seen : τ → List Event)
    (r : Receiver) (input : Bytes) : Progress τ → Prop
  | on {next : Unframer} {t : τ} {rest : Bytes} {r' : Receiver}
      (same : r.run updateCrc marks input = r'.run updateCrc marks rest)
      (suffix : rest <:+ input) (ends : rest = [] ∨ next.state = .findCrcEnd)
      (follows : Follows seen next t r') :
      Loops updateCrc marks seen r input ⟨.noError, next, rest, t, 0⟩
  | stop {code : ErrorCode} {next : Unframer} {t : τ} {rest : Bytes} (failed : code ≠ .noError)
      (same : r.run updateCrc marks input =
        (lost next.sawEscapeStart).run updateCrc marks rest)
      (suffix : rest <:+ input) :
      Loops updateCrc marks seen r input ⟨code, next, rest, t, 0⟩

theorem Loops.after {p : Progress τ} (same : r.run updateCrc marks input = next.run updateCrc marks rest)
    (suffix : rest <:+ input) (more : Loops updateCrc marks seen next rest p) : Loops updateCrc marks seen r input p := by
  cases more with
  | on equal inner ends follows =>
    exact Loops.on (same.trans equal) (inner.trans suffix) ends follows
  | stop failed equal inner => exact Loops.stop failed (same.trans equal) (inner.trans suffix)

theorem Follows.delivered {t' : τ} (follows : Follows seen u t r) (state : u.state = .findPacketCrc)
    (sent : seen t' = seen t ++ got.map .byte) (saw : Bool) (crc : UInt16) :
    Follows seen
      { u with sawEscapeStart := saw, buffer := [], crc := crc, remaining := u.remaining - got.length }
      t' ⟨awaitPayload crc (u.remaining - got.length), saw, r.seen.map (· ++ got.map .byte)⟩ := by
  refine ⟨?_, rfl, ?_, ?_⟩
  · simp [Unframer.phase, state]
  · simp [Unframer.Fits, state]
  · intro events known
    obtain ⟨before, past, rfl⟩ := Option.map_eq_some_iff.mp known
    rw [sent, follows.events before past]

section

variable (accepts : sink.Accepts seen marks)

include accepts

theorem payloadLoop_loops (enough : input.length < turns)
    (follows : Follows seen u t r) (state : u.state = .findPacketCrc) :
    Loops updateCrc marks seen r input (u.payloadLoop updateCrc sink turns input t) := by
  induction turns generalizing u t r input with
  | zero => exact absurd enough (Nat.not_lt_zero _)
  | succ turns ih =>
    have shape := follows.eq
    have phase : u.phase = awaitPayload u.crc u.remaining := by rw [Unframer.phase, state]
    have empty : u.buffer = [] := by simpa [Unframer.Fits, state] using follows.fits
    rw [Unframer.payloadLoop]
    by_cases done : u.remaining = 0
    · rw [if_pos done]
      apply Loops.on rfl (List.suffix_refl _) (.inr rfl)
      refine ⟨?_, follows.saw, ?_, follows.events⟩
      · rw [follows.phase, phase, done]
        simp [awaitPayload, Unframer.phase, empty]
      · simp [Unframer.Fits, empty]
    · rw [if_neg done]
      rw [phase, awaitPayload_of_pos done, ← payloadPart_nil, ← empty] at shape
      have adds := addToBuffer_adds (payloadField updateCrc marks u.remaining (min u.remaining 128)
        (Nat.min_le_left _ _) r.seen) shape (by simp [payloadField, empty]; omega) input
      rw [show (payloadField updateCrc marks u.remaining (min u.remaining 128) (Nat.min_le_left _ _)
        r.seen).size = min u.remaining 128 from rfl,
        show (payloadField updateCrc marks u.remaining (min u.remaining 128) (Nat.min_le_left _ _)
        r.seen).update = true from rfl] at adds
      generalize u.addToBuffer updateCrc (min u.remaining 128) true input = result at adds
      cases adds with
      | @ran saw got crc short same =>
        have short : got.length < min u.remaining 128 := short
        rw [show (payloadField updateCrc marks u.remaining (min u.remaining 128)
          (Nat.min_le_left _ _) r.seen).part crc got saw = payloadPart u.remaining r.seen crc got saw
          from rfl, payloadPart_of_short (by omega)] at same
        simp only [empty, List.length_nil]
        by_cases none : 0 = got.length
        · obtain rfl : got = [] := List.length_eq_zero_iff.mp none.symm
          apply Loops.on same List.nil_suffix (.inl rfl)
          have unsent : seen t = seen t ++ ([] : Bytes).map .byte := (List.append_nil _).symm
          exact follows.delivered state unsent saw crc
        · obtain ⟨t', wrote, sent⟩ := writeAll_accepts accepts got t
          -- Bytes that have arrived came from this input, so there is a turn left.
          have some_ : 0 < input.length := by
            by_contra nothing
            obtain rfl : input = [] := List.length_eq_zero_iff.mp (by omega)
            have phases := congrArg Receiver.phase same
            rw [Receiver.run_nil, Receiver.run_nil, shape, empty, payloadPart_nil,
              awaitPayload_of_pos (by omega), Phase.payload.injEq] at phases
            omega
          simp only [if_neg none, wrote]
          apply Loops.after same List.nil_suffix
          exact ih (by simp only [List.length_nil]; omega) (follows.delivered state sent saw crc) state
      | @filled got rest crc full suffix shorter same =>
        have full : got.length = min u.remaining 128 := full
        have some_ : ¬0 = got.length := by omega
        obtain ⟨t', wrote, sent⟩ := writeAll_accepts accepts got t
        simp only [empty, List.length_nil, some_, wrote]
        apply Loops.after same suffix
        exact ih (by omega) (follows.delivered state sent false crc) state
      | stop failed suffix same =>
        simp only [ne_eq, failed]
        exact Loops.stop failed same suffix

theorem findPacketCrc_advances (follows : Follows seen u t r)
    (state : u.state = .findPacketCrc) (filled : input ≠ []) :
    Advances updateCrc marks seen u r input (u.findPacketCrc updateCrc sink input t) := by
  have size : 0 < input.length := List.length_pos_iff.mpr filled
  have waiting : u.pending = 1 := by simp [Unframer.pending, state]
  have loops := @payloadLoop_loops _ _ _ _ _ updateCrc _ _ _ _ accepts
    (Nat.lt_succ_self input.length) follows state
  rw [Unframer.findPacketCrc]
  generalize u.payloadLoop updateCrc sink (input.length + 1) input t = p at loops
  cases loops with
  | @on next _ rest _ same suffix ends follows =>
    apply Advances.on same suffix _ follows
    rcases ends with rfl | ended
    · have : next.pending ≤ 1 := by
        rw [Unframer.pending]
        split <;> omega
      simp only [List.length_nil]
      omega
    · have := suffix.length_le
      simp only [Unframer.pending, ended, reduceCtorEq, if_false, state, if_true]
      omega
  | stop failed same suffix =>
    apply Advances.stop failed same suffix
    exact .inr (follows.ne_idle (by omega))

theorem advance_advances (follows : Follows seen u t r)
    (filled : input ≠ []) : Advances updateCrc marks seen u r input (u.advance updateCrc sink input t) := by
  rw [Unframer.advance]
  cases state : u.state with
  | findPacketStart => exact findPacketStart_advances accepts follows state filled
  | findPacketLength => exact findPacketLength_advances follows state filled
  | findPacketCrc => exact findPacketCrc_advances accepts follows state filled
  | findCrcEnd => exact findCrcEnd_advances accepts follows state filled

-- What a run of the loop of `Write` ends in.
inductive Runs (updateCrc : UInt16 → UInt8 → UInt16) (marks : Bool) (seen : τ → List Event)
    (r : Receiver) (data : Bytes) : Progress τ → Prop
  | all {next : Unframer} {t : τ} (follows : Follows seen next t (r.run updateCrc marks data)) :
      Runs updateCrc marks seen r data ⟨.noError, next, [], t, 0⟩
  | stop {code : ErrorCode} {next : Unframer} {t : τ} {rest : Bytes} (failed : code ≠ .noError)
      (same : r.run updateCrc marks data =
        (lost next.sawEscapeStart).run updateCrc marks rest)
      (suffix : rest <:+ data) (moved : rest.length < data.length ∨ r.phase ≠ .idle) :
      Runs updateCrc marks seen r data ⟨code, next, rest, t, 0⟩

theorem writeLoop_runs (enough : 2 * data.length + u.pending < turns)
    (follows : Follows seen u t r) :
    Runs updateCrc marks seen r data (u.writeLoop updateCrc sink turns data t) := by
  induction turns generalizing u t r data with
  | zero => exact absurd enough (Nat.not_lt_zero _)
  | succ turns ih =>
    rw [Unframer.writeLoop]
    cases data with
    | nil => exact Runs.all follows
    | cons c rest =>
      have advances := @advance_advances _ _ _ _ updateCrc _ _ _ _ accepts follows (List.cons_ne_nil c rest)
      simp only
      generalize u.advance updateCrc sink (c :: rest) t = p at advances
      cases advances with
      | @on next t' left r' same suffix less follows' =>
        have runs : Runs updateCrc marks seen r' left
            (next.writeLoop updateCrc sink turns left t') := ih (by omega) follows'
        generalize next.writeLoop updateCrc sink turns left t' = last at runs
        cases runs with
        | all follows => exact Runs.all (same ▸ follows)
        | stop failed equal inner _ =>
          apply Runs.stop failed (same.trans equal) (inner.trans suffix)
          have := inner.length_le
          by_cases consumed : left.length < (c :: rest).length
          · left
            omega
          · right
            exact follows.ne_idle (by omega)
      | stop failed same suffix moved =>
        simp only [ne_eq, failed]
        exact Runs.stop failed same suffix moved

end

structure Calls (updateCrc : UInt16 → UInt8 → UInt16) (marks : Bool) (seen : τ → List Event)
    (r : Receiver) (data : Bytes) (done : Unframer.Written τ) (rest : Bytes) (r' : Receiver) :
    Prop where
  left : data.drop done.bytesConsumed.toNat = rest
  same : r.run updateCrc marks data = r'.run updateCrc marks rest
  follows : Follows seen done.unframer done.sink r'
  all : done.code = .noError → rest = []
  abandons : done.code ≠ .noError → r'.seen = none ∧ r'.phase = .idle ∧
    (rest.length < data.length ∨ r.phase ≠ .idle)

theorem drop_of_suffix (suffix : rest <:+ data) :
    data.drop ((data.length : Int) - ((rest.length : Int) + ((0 : Nat) : Int))).toNat = rest := by
  obtain ⟨consumed, rfl⟩ := suffix
  have count : (((consumed ++ rest).length : Int) - ((rest.length : Int) + ((0 : Nat) : Int))).toNat =
      consumed.length := by
    rw [List.length_append]
    omega
  rw [count, List.drop_left]

section

variable (accepts : sink.Accepts seen marks)

include accepts

theorem write_calls (follows : Follows seen u t r) (data : Bytes) :
    ∃ rest r', Calls updateCrc marks seen r data (u.write updateCrc sink data t) rest r' := by
  have light : u.pending ≤ 1 := by
    rw [Unframer.pending]
    split <;> omega
  have runs := @writeLoop_runs _ _ _ _ (2 * data.length + 2) data updateCrc r u t accepts (by omega) follows
  rw [Unframer.write]
  generalize u.writeLoop updateCrc sink (2 * data.length + 2) data t = last at runs
  cases runs with
  | all follows =>
    refine ⟨[], _, ?_, (Receiver.run_nil _).symm, follows, fun _ => rfl, fun failed => absurd rfl failed⟩
    exact drop_of_suffix List.nil_suffix
  | @stop code next t' rest failed same suffix moved =>
    simp only [ne_eq, failed]
    refine ⟨rest, lost next.sawEscapeStart, drop_of_suffix suffix, same, ?_,
      fun ok => absurd ok failed, fun _ => ⟨rfl, rfl, moved⟩⟩
    exact ⟨rfl, rfl, rfl, fun events known => by cases known⟩

structure Feeds (updateCrc : UInt16 → UInt8 → UInt16) (marks : Bool) (seen : τ → List Event)
    (r : Receiver) (data : Bytes) (fed : Unframer.Fed τ) : Prop where
  left : fed.left = []
  follows : Follows seen fed.unframer fed.sink (r.run updateCrc marks data)
  errors : (∀ code ∈ fed.codes, code = .noError) ∨
    (marks = false → (r.run updateCrc marks data).seen = none)

theorem feedLoop_feeds
    (enough : 2 * data.length ≤ turns + if r.phase = .idle then 1 else 0) (follows : Follows seen u t r) :
    Feeds updateCrc marks seen r data (u.feedLoop updateCrc sink turns data t) := by
  induction turns generalizing u t r data with
  | zero =>
    have empty : data = [] := by
      apply List.length_eq_zero_iff.mp
      split at enough <;> omega
    subst empty
    exact ⟨rfl, follows, .inl (by simp [Unframer.feedLoop])⟩
  | succ turns ih =>
    rw [Unframer.feedLoop]
    cases data with
    | nil => exact ⟨rfl, follows, .inl (by simp)⟩
    | cons c more =>
      obtain ⟨rest, r', calls⟩ := @write_calls _ _ _ _ updateCrc r u t accepts follows (c :: more)
      simp only
      rw [calls.left]
      have room : 2 * rest.length ≤ turns + if r'.phase = .idle then 1 else 0 := by
        by_cases ok : (u.write updateCrc sink (c :: more) t).code = .noError
        · simp [calls.all ok]
        · obtain ⟨-, idle, moved⟩ := calls.abandons ok
          have size : rest.length ≤ (c :: more).length := by
            rw [← calls.left, List.length_drop]
            omega
          rw [if_pos idle]
          rcases moved with shorter | busy
          · split at enough <;> omega
          · rw [if_neg busy] at enough
            omega
      have fed := ih room calls.follows
      refine ⟨fed.left, calls.same ▸ fed.follows, ?_⟩
      rw [calls.same]
      by_cases ok : (u.write updateCrc sink (c :: more) t).code = .noError
      · apply fed.errors.imp_left
        exact fun fine => List.forall_mem_cons.mpr ⟨ok, fine⟩
      · right
        rintro rfl
        exact Receiver.run_seen_none (calls.abandons ok).1 rest

theorem feed_feeds (follows : Follows seen u t r) (data : Bytes) :
    Feeds updateCrc marks seen r data (u.feed updateCrc sink data t) :=
  feedLoop_feeds accepts (Nat.le_add_right _ _) follows

theorem feedAll_feeds (follows : Follows seen u t r)
    (fragments : List Bytes) :
    Feeds updateCrc marks seen r fragments.flatten (u.feedAll updateCrc sink t fragments) := by
  induction fragments generalizing u t r with
  | nil => exact ⟨rfl, follows, .inl (by simp [Unframer.feedAll])⟩
  | cons fragment rest ih =>
    have first := @feed_feeds _ _ _ _ updateCrc r u t accepts follows fragment
    have more := ih first.follows
    rw [Unframer.feedAll, List.flatten_cons]
    refine ⟨?_, ?_, ?_⟩
    · simp [first.left, more.left]
    · rw [Receiver.run_append]
      exact more.follows
    · rw [Receiver.run_append]
      rcases first.errors with fine | opened
      · rcases more.errors with good | opened
        · exact .inl (List.forall_mem_append.mpr ⟨fine, good⟩)
        · exact .inr opened
      · right
        rintro rfl
        exact Receiver.run_seen_none (opened rfl) _

end

end

end Tlm.MicroRpc
