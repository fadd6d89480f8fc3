import Tlm.MicroRpc.FramingRefinement

set_option autoImplicit false

namespace Tlm.MicroRpc

-- The errors of `WriteAll`.
def ErrorCode.isDownstream : ErrorCode → Bool
  | .writeStreamShortWrite | .writeStreamLongWrite | .system _ => true
  | _ => false

-- How many bytes of the input the first `count` bytes of payload take, with their escapes.
def encodedLength (saw : Bool) : Nat → Bytes → Nat
  | 0, _ => 0
  | _ + 1, [] => 0
  | count + 1, c :: rest =>
    match decode saw c with
    | .data _ => encodedLength false count rest + 1
    | .skip saw => encodedLength saw (count + 1) rest + 1
    | _ => 0

theorem encodedLength_le (saw : Bool) (count : Nat) (input : Bytes) : encodedLength saw count input ≤ input.length := by
  fun_induction encodedLength saw count input <;> simp <;> omega

theorem encodedLength_mono (saw : Bool) {few many : Nat} (le : few ≤ many) (input : Bytes) :
    encodedLength saw few input ≤ encodedLength saw many input := by
  fun_induction encodedLength saw few input generalizing many with
  | case1 | case2 => exact Nat.zero_le _
  | case3 saw few c rest d meaning ih =>
    obtain ⟨many, rfl⟩ := Nat.exists_eq_add_of_lt (Nat.lt_of_succ_le le)
    rw [encodedLength, meaning]
    exact Nat.succ_le_succ (ih (by omega))
  | case4 saw few c rest after meaning ih =>
    obtain ⟨many, rfl⟩ := Nat.exists_eq_add_of_lt (Nat.lt_of_succ_le le)
    rw [encodedLength, meaning]
    exact Nat.succ_le_succ (ih (by omega))
  | case5 => exact Nat.zero_le _

-- The scan stops behind the byte that makes up the count, and passes an escape without counting it.
theorem skipConsumed_eq_some {count k : Nat} {input : Bytes} : skipConsumed count input = some k ↔
    k ≤ input.length ∧ (input.take k).countP (· ≠ escapeStart) = count ∧ (input.take k).getLast? ≠ some escapeStart := by
  fun_induction skipConsumed count input generalizing k with
  | case1 input =>
    cases k with
    | zero => simp
    | succ k =>
      -- Some byte has been passed, and the last of those is counted.
      refine ⟨nofun, fun ⟨le, uncounted, last⟩ => ?_⟩
      have nonempty : input.take (k + 1) ≠ [] := by
        rw [Ne, List.take_eq_nil_iff, not_or, ← List.length_eq_zero_iff]
        omega
      have escape := List.countP_eq_zero.mp uncounted _ (List.getLast_mem nonempty)
      rw [List.getLast?_eq_some_getLast nonempty] at last
      simp_all
  | case2 => simp
  | case3 count c rest ih =>
    rw [Option.map_eq_some_iff]
    cases k with
    | zero => simp
    | succ k =>
      simp only [ih, Nat.add_right_cancel_iff, exists_eq_right, List.length_cons, Nat.add_le_add_iff_right,
        List.take_succ_cons, List.countP_cons]
      cases rest.take k with
      | nil => by_cases escape : c = escapeStart <;> simp [escape, eq_comm]
      | cons d taken => by_cases escape : c = escapeStart <;> simp [escape, List.getLast?_cons_cons]

theorem consumeLoop_split (size : Nat) (saw : Bool) (buffer input : Bytes) :
    (consumeLoop size saw buffer input).consumed ++ (consumeLoop size saw buffer input).input = input ∧
      (consumeLoop size saw buffer input).code.isDownstream = false := by
  induction input generalizing saw buffer with
  | nil => exact ⟨rfl, rfl⟩
  | cons c rest ih =>
    rw [consumeLoop_cons]
    cases decode saw c with
    | skip saw => simpa [Consumed.after] using ih saw buffer
    | data d =>
      dsimp only
      split
      · exact ⟨rfl, rfl⟩
      · simpa [Consumed.after] using ih false (buffer ++ [d])
    | start => exact ⟨rfl, rfl⟩
    | invalid => exact ⟨rfl, rfl⟩

-- What the loop reads is the encoding of the bytes for which the buffer has room.
theorem consumeLoop_rest {size : Nat} {saw : Bool} {buffer input : Bytes} (room : buffer.length < size)
    (ok : (consumeLoop size saw buffer input).code = .noError) :
    (consumeLoop size saw buffer input).input.length + encodedLength saw (size - buffer.length) input = input.length ∧
      (consumeLoop size saw buffer input).buffer.length ≤ size := by
  induction input generalizing saw buffer with
  | nil =>
    obtain ⟨left, same⟩ := Nat.exists_eq_add_of_lt room
    rw [show size - buffer.length = left + 1 by omega]
    exact ⟨rfl, Nat.le_of_lt room⟩
  | cons c rest ih =>
    obtain ⟨left, same⟩ := Nat.exists_eq_add_of_lt room
    rw [show size - buffer.length = left + 1 by omega]
    rw [consumeLoop_cons] at ok ⊢
    rw [encodedLength]
    cases meaning : decode saw c with
    | skip after =>
      simp only [meaning, Consumed.after] at ok ⊢
      have := ih room ok
      rw [show size - buffer.length = left + 1 by omega] at this
      simp only [List.length_cons]
      omega
    | data d =>
      simp only [meaning] at ok ⊢
      split at ok
      next full =>
        rw [if_pos full]
        rw [List.length_append, List.length_singleton] at full
        rw [show left = 0 by omega]
        simp [encodedLength]
        omega
      next more =>
        rw [if_neg more]
        rw [List.length_append, List.length_singleton] at more
        have := ih (by simp; omega) ok
        rw [List.length_append, List.length_singleton, show size - (buffer.length + 1) = left by omega] at this
        simp only [Consumed.after, List.length_cons]
        omega
    | start => simp [meaning] at ok
    | invalid => simp [meaning] at ok

namespace Unframer

variable {τ : Type} (updateCrc : UInt16 → UInt8 → UInt16) (sink : Sink τ)

theorem addToBuffer_split (u : Unframer) (size : Nat) (update : Bool) (input : Bytes) :
    (u.addToBuffer updateCrc size update input).2.2 <:+ input ∧
      (u.addToBuffer updateCrc size update input).1.isDownstream = false := by
  have split := consumeLoop_split size u.sawEscapeStart u.buffer input
  unfold addToBuffer
  split
  · exact ⟨⟨_, split.1⟩, split.2⟩
  · exact ⟨List.suffix_rfl, rfl⟩

-- A turn of the payload loop in which the stream below fails: the unframer and the input before it, and the answer of
-- the stream, which takes `written` bytes of the buffer.
structure Turn where
  unframer : Unframer
  input : Bytes
  code : ErrorCode
  written : Nat

namespace Turn

variable (turn : Turn)

-- The bytes of the input that encode the accepted payload.
def accepted : Nat :=
  encodedLength turn.unframer.sawEscapeStart (turn.written - turn.unframer.buffer.length) turn.input

-- The bytes of the input behind the payload for which the buffer has room.
def unread : Nat :=
  turn.input.length - encodedLength turn.unframer.sawEscapeStart
    (min turn.unframer.remaining 128 - turn.unframer.buffer.length) turn.input

-- As many bytes other than the escape as were written, in the encoding of these and as many further bytes as are unread.
def Balanced : Prop :=
  (turn.input.take (turn.accepted + turn.unread)).countP (· ≠ escapeStart) = turn.written ∧
    (turn.input.take (turn.accepted + turn.unread)).getLast? ≠ some escapeStart

instance : Decidable turn.Balanced :=
  inferInstanceAs (Decidable (_ ∧ _))

end Turn

def payloadFailure : Nat → Unframer → Bytes → τ → Option Turn
  | 0, _, _, _ => none
  | turns + 1, u, input, t =>
    if u.remaining = 0 then none
    else
      let (code, filled, rest) := u.addToBuffer updateCrc (min u.remaining 128) true input
      if code ≠ .noError then none
      else if u.buffer.length = filled.buffer.length then none
      else
        let (code, written, t) := writeAll sink filled.buffer t
        if code ≠ .noError then some ⟨u, input, code, written⟩
        else payloadFailure turns { filled with remaining := filled.remaining - written, buffer := [] } rest t

def failureLoop : Nat → Unframer → Bytes → τ → Option Turn
  | 0, _, _, _ => none
  | turns + 1, u, input, t =>
    if input.isEmpty then none
    else
      let next := u.advance updateCrc sink input t
      if next.code ≠ .noError then
        if u.state = .findPacketCrc then payloadFailure updateCrc sink (input.length + 1) u input t else none
      else failureLoop turns next.unframer next.input next.sink

-- The turn of a call of `Write` in which the stream below fails.
def failure (u : Unframer) (data : Bytes) (t : τ) : Option Turn :=
  failureLoop updateCrc sink (2 * data.length + 2) u data t

-- How a run over `data` ends: without an error of the stream below, or with the rewind of the turn that failed.
structure Turn.Ends (turn : Turn) (data : Bytes) (p : Progress τ) : Prop where
  suffix : turn.input <:+ data
  downstream : turn.code.isDownstream = true
  inside : turn.accepted + turn.unread ≤ turn.input.length
  left : p.input.length = turn.unread
  rewound : ∀ skipped, skipConsumed turn.written turn.input = some skipped →
    p.code = turn.code ∧ p.rewound = turn.input.length - skipped
  outside : skipConsumed turn.written turn.input = none → p.code = .check

structure Ends (data : Bytes) (failed : Option Turn) (p : Progress τ) : Prop where
  suffix : p.input <:+ data
  quiet : failed = none → p.code.isDownstream = false
  turn : ∀ turn ∈ failed, turn.Ends data p

variable {updateCrc sink} {data : Bytes}

theorem Ends.silent {p : Progress τ} (suffix : p.input <:+ data) (quiet : p.code.isDownstream = false) :
    Ends data none p :=
  ⟨suffix, fun _ => quiet, nofun⟩

theorem Ends.extend {more : Bytes} {failed : Option Turn} {p : Progress τ} (ends : Ends data failed p)
    (suffix : data <:+ more) : Ends more failed p :=
  ⟨ends.suffix.trans suffix, ends.quiet, fun turn mem =>
    { ends.turn turn mem with suffix := (ends.turn turn mem).suffix.trans suffix }⟩

theorem writeAllLoop_answer (sink : Sink τ) (turns : Nat) (rest : Bytes) (consumed : Nat) (t : τ) :
    (writeAllLoop sink turns rest consumed t).2.1 ≤ consumed + rest.length ∧
      ((writeAllLoop sink turns rest consumed t).1 ≠ .noError →
        (writeAllLoop sink turns rest consumed t).1.isDownstream = true) := by
  induction turns generalizing rest consumed t with
  | zero => simp [writeAllLoop]
  | succ turns ih =>
    rw [writeAllLoop]
    rcases sink.write rest t with ⟨taken, t'⟩
    dsimp only
    split_ifs with empty short broken long
    · simp
    · simp [ErrorCode.isDownstream]
    · simp [ErrorCode.isDownstream]
    · simp [ErrorCode.isDownstream]
    · refine ⟨?_, (ih _ _ t').2⟩
      have more := (ih (rest.drop taken.toNat) (consumed + taken.toNat) t').1
      rw [List.length_drop] at more
      omega

theorem payloadTurn_ends {u filled : Unframer} {rest : Bytes} {code : ErrorCode} {written : Nat} {t t' : τ}
    (buffered : u.addToBuffer updateCrc (min u.remaining 128) true data = (.noError, filled, rest))
    (sent : writeAll sink filled.buffer t = (code, written, t')) (broken : code ≠ .noError) {p : Progress τ}
    (input : p.input = rest)
    (found : ∀ skipped, skipConsumed written data = some skipped → p.code = code ∧ p.rewound = data.length - skipped)
    (outside : skipConsumed written data = none → p.code = .check) :
    Ends data (some ⟨u, data, code, written⟩) p := by
  have answer := writeAllLoop_answer sink filled.buffer.length filled.buffer 0 t
  rw [show writeAllLoop sink _ _ _ _ = _ from sent] at answer
  have split := consumeLoop_split (min u.remaining 128) u.sawEscapeStart u.buffer data
  rw [addToBuffer] at buffered
  split at buffered
  next room =>
    simp only [Prod.mk.injEq] at buffered
    obtain ⟨ok, rfl, rfl⟩ := buffered
    have read := consumeLoop_rest room ok
    have more : written - u.buffer.length ≤ min u.remaining 128 - u.buffer.length := by
      dsimp only at answer
      omega
    have mono := encodedLength_mono u.sawEscapeStart more data
    have inside := encodedLength_le u.sawEscapeStart (min u.remaining 128 - u.buffer.length) data
    refine ⟨input ▸ ⟨_, split.1⟩, by simp, fun turn same => ?_⟩
    cases same
    refine ⟨List.suffix_rfl, answer.2 broken, ?_, ?_, found, outside⟩
    · simp only [Turn.accepted, Turn.unread]
      omega
    · simp only [input, Turn.unread]
      omega
  next => cases buffered

theorem payloadLoop_ends (turns : Nat) (u : Unframer) (data : Bytes) (t : τ) :
    Ends data (u.payloadFailure updateCrc sink turns data t) (u.payloadLoop updateCrc sink turns data t) := by
  induction turns generalizing u data t with
  | zero => exact .silent List.suffix_rfl rfl
  | succ turns ih =>
    have split := addToBuffer_split updateCrc u (min u.remaining 128) true data
    rw [payloadLoop, payloadFailure]
    rcases buffered : u.addToBuffer updateCrc (min u.remaining 128) true data with ⟨code, filled, rest⟩
    rcases sent : writeAll sink filled.buffer t with ⟨code', written, t'⟩
    simp only [buffered, sent] at split ⊢
    split_ifs with none bad same broken
    · exact .silent List.suffix_rfl rfl
    · exact .silent split.1 split.2
    · exact .silent split.1 rfl
    · rw [not_not.mp bad] at buffered
      apply payloadTurn_ends buffered sent broken
      · split <;> rfl
      · intro skipped found
        simp [found]
      · intro outside
        simp [outside]
    · exact (ih _ rest t').extend split.1

theorem findStartLoop_suffix (saw : Bool) (data : Bytes) : (findStartLoop saw data).2.2 <:+ data := by
  fun_induction findStartLoop saw data
  · exact List.suffix_rfl
  next ih => exact ih.trans (List.suffix_cons _ _)
  · exact List.suffix_cons _ _
  next ih => exact ih.trans (List.suffix_cons _ _)

theorem advance_ends (u : Unframer) (data : Bytes) (t : τ) :
    Ends data
      (if u.state = .findPacketCrc then u.payloadFailure updateCrc sink (data.length + 1) data t else none)
      (u.advance updateCrc sink data t) := by
  cases state : u.state with
  | findPacketStart =>
    simp only [reduceCtorEq, if_false]
    have start := findStartLoop_suffix u.sawEscapeStart data
    simp only [advance, state, findPacketStart]
    split <;> exact .silent start rfl
  | findPacketLength =>
    simp only [reduceCtorEq, if_false]
    have split := addToBuffer_split updateCrc u 4 true data
    simp only [advance, state, findPacketLength]
    split_ifs <;> exact .silent split.1 split.2
  | findPacketCrc =>
    rw [if_pos rfl, advance, state]
    exact payloadLoop_ends _ u data t
  | findCrcEnd =>
    simp only [reduceCtorEq, if_false]
    have split := addToBuffer_split updateCrc u 2 false data
    simp only [advance, state, findCrcEnd]
    split_ifs
    · exact .silent split.1 split.2
    · exact .silent split.1 rfl
    · exact .silent split.1 rfl

theorem writeLoop_ends (turns : Nat) (u : Unframer) (data : Bytes) (t : τ) :
    Ends data (u.failureLoop updateCrc sink turns data t) (u.writeLoop updateCrc sink turns data t) := by
  induction turns generalizing u data t with
  | zero => exact .silent List.suffix_rfl rfl
  | succ turns ih =>
    have step : Ends data _ (u.advance updateCrc sink data t) := advance_ends u data t
    simp only [writeLoop, failureLoop]
    split_ifs with empty failed payload
    · exact .silent List.suffix_rfl rfl
    · rwa [if_pos payload] at step
    · rwa [if_neg payload] at step
    · exact (ih _ _ _).extend step.suffix

theorem write_rewinds (u : Unframer) (data : Bytes) (t : τ) :
    ((u.write updateCrc sink data t).code.isDownstream = true → ∃ turn, turn ∈ u.failure updateCrc sink data t) ∧
      ∀ turn ∈ u.failure updateCrc sink data t, turn.input <:+ data ∧ turn.accepted ≤ turn.input.length ∧
        ((u.write updateCrc sink data t).code = turn.code ∧
            (u.write updateCrc sink data t).bytesConsumed = data.length - turn.input.length + turn.accepted ↔
          turn.Balanced) := by
  have ends : Ends data (u.failure updateCrc sink data t) _ := writeLoop_ends (2 * data.length + 2) u data t
  simp only [write]
  generalize u.writeLoop updateCrc sink (2 * data.length + 2) data t = p at ends ⊢
  refine ⟨fun downstream => ?_, fun turn failed => ?_⟩
  · apply Option.ne_none_iff_exists'.mp
    intro quiet
    simp [ends.quiet quiet] at downstream
  · have rewind := ends.turn turn failed
    refine ⟨rewind.suffix, Nat.le_trans (Nat.le_add_right _ _) rewind.inside, ?_⟩
    have balanced : turn.Balanced ↔ skipConsumed turn.written turn.input = some (turn.accepted + turn.unread) :=
      (skipConsumed_eq_some.trans (and_iff_right rewind.inside)).symm
    rw [balanced]
    cases found : skipConsumed turn.written turn.input with
    | none =>
      have downstream := rewind.downstream
      simp only [rewind.outside found, reduceCtorEq, iff_false, not_and]
      intro check
      rw [← check] at downstream
      cases downstream
    | some skipped =>
      have inside := (skipConsumed_eq_some.mp found).1
      obtain ⟨code, rewound⟩ := rewind.rewound skipped found
      simp only [code, true_and, Option.some.injEq, rewound, rewind.left]
      omega

-- Takes one byte, and nothing more.
def oneByte : Sink Bool where
  write _ taken := if taken then (0, true) else (1, true)
  packetDone _ taken := taken
  packetStart taken := taken

def receiving (remaining : Nat) : Unframer :=
  { Unframer.initial with state := .findPacketCrc, remaining }

-- The escape of the accepted byte is not counted, the byte behind the payload is: the two errors cancel out.
theorem write_rewinds_cancelled : ∃ turn ∈ (receiving 2).failure (fun crc _ => crc) oneByte [0xff, 0xff, 7, 8] false,
    turn.Balanced ∧ ((receiving 2).write (fun crc _ => crc) oneByte [0xff, 0xff, 7, 8] false).bytesConsumed = 2 := by
  have failed : (receiving 2).failure (fun crc _ => crc) oneByte [0xff, 0xff, 7, 8] false =
      some ⟨receiving 2, [0xff, 0xff, 7, 8], .writeStreamShortWrite, 1⟩ := rfl
  exact ⟨_, failed, by decide, (((write_rewinds _ _ _).2 _ failed).2.2.mpr (by decide)).2⟩

-- The stream takes the first of four bytes, and the count is -1.
theorem count_wraps : ((receiving 2).write (fun crc _ => crc) oneByte [1, 2, 3, 4] false).code = .writeStreamShortWrite ∧
    ((receiving 2).write (fun crc _ => crc) oneByte [1, 2, 3, 4] false).bytesConsumed = -1 := by
  decide

end Unframer

end Tlm.MicroRpc
