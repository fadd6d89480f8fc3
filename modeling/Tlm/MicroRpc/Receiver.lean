import Tlm.MicroRpc.Framing

set_option autoImplicit false

namespace Tlm.MicroRpc

inductive Event where
  | byte (value : UInt8)
  | done (valid : Bool)
  deriving DecidableEq

inductive Phase where
  | idle
  | length (crc : UInt16) (got : Bytes)
  | payload (crc : UInt16) (remaining : Nat)
  | checksum (crc : UInt16) (got : Bytes)
  deriving DecidableEq

-- `seen` is `none` behind an abandoned packet: how much of it arrived depends on the calls.
structure Receiver where
  phase : Phase
  saw : Bool
  seen : Option (List Event)

inductive Decoded where
  | skip (saw : Bool)
  | data (byte : UInt8)
  | start
  | invalid

def decode (saw : Bool) (c : UInt8) : Decoded :=
  if saw then
    if c = packetStart then .start
    else if c = escapeNop then .skip false
    else if c = escapeStart then .data c
    else .invalid
  else if c = escapeStart then .skip true
  else .data c

section

variable (updateCrc : UInt16 → UInt8 → UInt16)

def Phase.update (c : UInt8) : Phase → Phase
  | .length crc got => .length (updateCrc crc c) got
  | .payload crc remaining => .payload (updateCrc crc c) remaining
  | phase => phase

def awaitPayload (crc : UInt16) (remaining : Nat) : Phase :=
  if remaining = 0 then .checksum crc [] else .payload crc remaining

def Receiver.store (d : UInt8) (r : Receiver) : Receiver :=
  match r.phase with
  | .idle => r
  | .length crc got =>
    if got.length + 1 = 4 then ⟨awaitPayload crc (fromLe (got ++ [d])), false, r.seen⟩
    else ⟨.length crc (got ++ [d]), false, r.seen⟩
  | .payload crc remaining =>
    ⟨awaitPayload crc (remaining - 1), false, r.seen.map (· ++ [.byte d])⟩
  | .checksum crc got =>
    if got.length + 1 = 2 then
      ⟨.idle, false, r.seen.map (· ++ [.done (crc.toNat == fromLe (got ++ [d]))])⟩
    else ⟨.checksum crc (got ++ [d]), false, r.seen⟩

-- With `marks`, the events are those since the start of the packet.
variable (marks : Bool)

def startCrc : UInt16 :=
  crc16Compute updateCrc [escapeStart, packetStart] initialCrc

def begun (seen : Option (List Event)) : Receiver :=
  ⟨.length (startCrc updateCrc) [], false, if marks then some [] else seen⟩

def lost (saw : Bool) : Receiver :=
  ⟨.idle, saw, none⟩

def Receiver.step (r : Receiver) (c : UInt8) : Receiver :=
  match r.phase with
  | .idle =>
    if c = escapeStart then { r with saw := true }
    else if c = packetStart ∧ r.saw then begun updateCrc marks r.seen
    else { r with saw := false }
  | phase =>
    match decode r.saw c with
    | .skip saw => { r with phase := phase.update updateCrc c, saw := saw }
    | .data d => { r with phase := phase.update updateCrc c }.store d
    | .start => begun updateCrc marks none
    | .invalid => lost false

def Receiver.run (r : Receiver) (data : Bytes) : Receiver :=
  data.foldl (Receiver.step updateCrc marks) r


theorem length_step (crc : UInt16) (got : Bytes) (saw : Bool) (seen : Option (List Event))
    (c : UInt8) :
    Receiver.step updateCrc marks ⟨.length crc got, saw, seen⟩ c =
      match decode saw c with
      | .skip saw => ⟨.length (updateCrc crc c) got, saw, seen⟩
      | .data d =>
        if got.length + 1 = 4 then
          ⟨awaitPayload (updateCrc crc c) (fromLe (got ++ [d])), false, seen⟩
        else ⟨.length (updateCrc crc c) (got ++ [d]), false, seen⟩
      | .start => begun updateCrc marks none
      | .invalid => lost false := by
  cases meaning : decode saw c <;> simp only [Receiver.step, meaning, Phase.update, Receiver.store]

theorem checksum_step (crc : UInt16) (got : Bytes) (saw : Bool) (seen : Option (List Event))
    (c : UInt8) :
    Receiver.step updateCrc marks ⟨.checksum crc got, saw, seen⟩ c =
      match decode saw c with
      | .skip saw => ⟨.checksum crc got, saw, seen⟩
      | .data d =>
        if got.length + 1 = 2 then
          ⟨.idle, false, seen.map (· ++ [.done (crc.toNat == fromLe (got ++ [d]))])⟩
        else ⟨.checksum crc (got ++ [d]), false, seen⟩
      | .start => begun updateCrc marks none
      | .invalid => lost false := by
  cases meaning : decode saw c <;> simp only [Receiver.step, meaning, Phase.update, Receiver.store]

theorem payload_step (crc : UInt16) (remaining : Nat) (saw : Bool) (seen : Option (List Event))
    (c : UInt8) :
    Receiver.step updateCrc marks ⟨.payload crc remaining, saw, seen⟩ c =
      match decode saw c with
      | .skip saw => ⟨.payload (updateCrc crc c) remaining, saw, seen⟩
      | .data d =>
        ⟨awaitPayload (updateCrc crc c) (remaining - 1), false, seen.map (· ++ [.byte d])⟩
      | .start => begun updateCrc marks none
      | .invalid => lost false := by
  cases meaning : decode saw c <;> simp only [Receiver.step, meaning, Phase.update, Receiver.store]

end

section

variable {updateCrc : UInt16 → UInt8 → UInt16} {marks : Bool}

@[simp] theorem Receiver.run_nil (r : Receiver) : r.run updateCrc marks [] = r := rfl

theorem Receiver.run_cons (r : Receiver) (c : UInt8) (rest : Bytes) :
    r.run updateCrc marks (c :: rest) = (r.step updateCrc marks c).run updateCrc marks rest := rfl

theorem Receiver.run_append (r : Receiver) (first rest : Bytes) :
    r.run updateCrc marks (first ++ rest) =
      (r.run updateCrc marks first).run updateCrc marks rest := List.foldl_append

theorem Receiver.step_idle (saw : Bool) (seen : Option (List Event)) (c : UInt8) :
    Receiver.step updateCrc marks ⟨.idle, saw, seen⟩ c =
      if c = escapeStart then ⟨.idle, true, seen⟩
      else if c = packetStart ∧ saw then begun updateCrc marks seen
      else ⟨.idle, false, seen⟩ := rfl

theorem Receiver.step_idle_escape (saw : Bool) (seen : Option (List Event)) :
    Receiver.step updateCrc marks ⟨.idle, saw, seen⟩ escapeStart = ⟨.idle, true, seen⟩ := rfl

theorem Receiver.step_idle_start (seen : Option (List Event)) :
    Receiver.step updateCrc marks ⟨.idle, true, seen⟩ packetStart = begun updateCrc marks seen := rfl

variable {r : Receiver}

theorem Receiver.step_seen_none (open_ : r.seen = none) (c : UInt8) :
    (r.step updateCrc false c).seen = none := by
  obtain ⟨phase, saw, seen⟩ := r
  subst open_
  cases phase with
  | idle =>
    simp only [step]
    split
    · rfl
    · split <;> rfl
  | length crc got =>
    rw [length_step]
    cases decode saw c with
    | data d => dsimp only; split <;> rfl
    | _ => rfl
  | payload crc remaining =>
    rw [payload_step]
    cases decode saw c <;> rfl
  | checksum crc got =>
    rw [checksum_step]
    cases decode saw c with
    | data d => dsimp only; split <;> rfl
    | _ => rfl

theorem Receiver.run_seen_none (open_ : r.seen = none) (data : Bytes) :
    (r.run updateCrc false data).seen = none := by
  induction data generalizing r with
  | nil => exact open_
  | cons c rest ih => exact ih (step_seen_none open_ c)

end

structure Field (updateCrc : UInt16 → UInt8 → UInt16) (marks : Bool) where
  size : Nat
  update : Bool
  part : UInt16 → Bytes → Bool → Receiver
  full : UInt16 → Bytes → Receiver
  step_part : ∀ crc got saw c, got.length < size →
    (part crc got saw).step updateCrc marks c =
      match decode saw c with
      | .skip saw => part (if update then updateCrc crc c else crc) got saw
      | .data d =>
          if got.length + 1 = size then full (if update then updateCrc crc c else crc) (got ++ [d])
          else part (if update then updateCrc crc c else crc) (got ++ [d]) false
      | .start => begun updateCrc marks none
      | .invalid => lost false

section

variable (updateCrc : UInt16 → UInt8 → UInt16) (marks : Bool)

def lengthField (seen : Option (List Event)) : Field updateCrc marks where
  size := 4
  update := true
  part crc got saw := ⟨.length crc got, saw, seen⟩
  full crc got := ⟨awaitPayload crc (fromLe got), false, seen⟩
  step_part crc got saw c _ := length_step updateCrc marks crc got saw seen c

def checksumField (seen : Option (List Event)) : Field updateCrc marks where
  size := 2
  update := false
  part crc got saw := ⟨.checksum crc got, saw, seen⟩
  full crc got := ⟨.idle, false, seen.map (· ++ [Event.done (crc.toNat == fromLe got)])⟩
  step_part crc got saw c _ := checksum_step updateCrc marks crc got saw seen c

def payloadPart (remaining : Nat) (seen : Option (List Event)) (crc : UInt16) (got : Bytes)
    (saw : Bool) : Receiver :=
  ⟨.payload crc (remaining - got.length), saw, seen.map (· ++ got.map .byte)⟩

def payloadFull (remaining : Nat) (seen : Option (List Event)) (crc : UInt16) (got : Bytes) :
    Receiver :=
  ⟨awaitPayload crc (remaining - got.length), false, seen.map (· ++ got.map .byte)⟩

variable {remaining : Nat}

theorem payloadFull_of_short {got : Bytes} (short : got.length < remaining) (seen : Option (List Event))
    (crc : UInt16) : payloadFull remaining seen crc got = payloadPart remaining seen crc got false := by
  rw [payloadFull, awaitPayload, if_neg (by omega)]
  rfl

theorem payloadPart_step {size : Nat} (fits : size ≤ remaining) (seen : Option (List Event))
    (crc : UInt16) (got : Bytes) (saw : Bool) (c : UInt8) (short : got.length < size) :
    (payloadPart remaining seen crc got saw).step updateCrc marks c =
      match decode saw c with
      | .skip saw => payloadPart remaining seen (updateCrc crc c) got saw
      | .data d =>
        if got.length + 1 = size then payloadFull remaining seen (updateCrc crc c) (got ++ [d])
        else payloadPart remaining seen (updateCrc crc c) (got ++ [d]) false
      | .start => begun updateCrc marks none
      | .invalid => lost false := by
  rw [payloadPart, payload_step]
  cases meaning : decode saw c with
  | data d =>
    have one : (⟨awaitPayload (updateCrc crc c) (remaining - got.length - 1), false,
        (seen.map (· ++ got.map Event.byte)).map (· ++ [.byte d])⟩ : Receiver) =
        payloadFull remaining seen (updateCrc crc c) (got ++ [d]) := by
      simp [payloadFull, Function.comp_def, Nat.sub_sub]
    simp only [one]
    split
    · rfl
    · rw [payloadFull_of_short]
      simp only [List.length_append, List.length_singleton]
      omega
  | _ => rfl

def payloadField (remaining size : Nat) (fits : size ≤ remaining) (seen : Option (List Event)) :
    Field updateCrc marks where
  size := size
  update := true
  part := payloadPart remaining seen
  full := payloadFull remaining seen
  step_part := payloadPart_step updateCrc marks fits seen

end

def escaped (data : Bytes) : Bytes :=
  data.flatMap fun c => if c = escapeStart then [escapeStart, escapeStart] else [c]

theorem escaped_cons (c : UInt8) (rest : Bytes) :
    escaped (c :: rest) =
      (if c = escapeStart then [escapeStart, escapeStart] else [c]) ++ escaped rest := rfl

theorem escaped_append (first rest : Bytes) : escaped (first ++ rest) = escaped first ++ escaped rest :=
  List.flatMap_append

namespace Field

variable {updateCrc : UInt16 → UInt8 → UInt16} {marks : Bool} (field : Field updateCrc marks)

def crcAfter (crc : UInt16) (data : Bytes) : UInt16 :=
  if field.update then crc16Compute updateCrc data crc else crc

theorem crcAfter_append (crc : UInt16) (first rest : Bytes) :
    field.crcAfter (field.crcAfter crc first) rest = field.crcAfter crc (first ++ rest) := by
  unfold crcAfter
  split
  · exact List.foldl_append.symm
  · rfl

variable {got : Bytes} {saw : Bool} {c : UInt8}

theorem step_skip (short : got.length < field.size) {after : Bool} (skip : decode saw c = .skip after)
    (crc : UInt16) :
    (field.part crc got saw).step updateCrc marks c = field.part (field.crcAfter crc [c]) got after := by
  rw [field.step_part _ _ _ _ short, skip]
  rfl

theorem step_data (short : got.length < field.size) {d : UInt8} (data : decode saw c = .data d) (crc : UInt16) :
    (field.part crc got saw).step updateCrc marks c =
      if got.length + 1 = field.size then field.full (field.crcAfter crc [c]) (got ++ [d])
      else field.part (field.crcAfter crc [c]) (got ++ [d]) false := by
  rw [field.step_part _ _ _ _ short, data]
  rfl

theorem run_byte (short : got.length < field.size) (crc : UInt16) (d : UInt8) :
    (field.part crc got false).run updateCrc marks (escaped [d]) =
      if got.length + 1 = field.size then field.full (field.crcAfter crc (escaped [d])) (got ++ [d])
      else field.part (field.crcAfter crc (escaped [d])) (got ++ [d]) false := by
  by_cases escape : d = escapeStart
  · subst escape
    have first : decode false escapeStart = .skip true := rfl
    have second : decode true escapeStart = .data escapeStart := rfl
    have twice : escaped [escapeStart] = [escapeStart] ++ [escapeStart] := rfl
    rw [twice, List.singleton_append, Receiver.run_cons, field.step_skip short first,
      Receiver.run_cons, field.step_data short second, Receiver.run_nil, crcAfter_append]
    rfl
  · have plain : escaped [d] = [d] := by simp [escaped, escape]
    have data : decode false d = .data d := by simp [decode, escape]
    rw [plain, Receiver.run_cons, Receiver.run_nil, field.step_data short data]

theorem run_escaped {data : Bytes} (filled : data ≠ []) (size : got.length + data.length = field.size)
    (crc : UInt16) :
    (field.part crc got false).run updateCrc marks (escaped data) =
      field.full (field.crcAfter crc (escaped data)) (got ++ data) := by
  induction data generalizing got crc with
  | nil => exact absurd rfl filled
  | cons d rest ih =>
    rw [List.length_cons] at size
    have front : escaped (d :: rest) = escaped [d] ++ escaped rest := escaped_append [d] rest
    rw [front, Receiver.run_append, field.run_byte (by omega)]
    cases rest with
    | nil =>
      rw [if_pos (show got.length + 1 = field.size from size)]
      simp [escaped]
    | cons next rest =>
      rw [List.length_cons] at size
      rw [if_neg (by omega), ih (List.cons_ne_nil _ _), crcAfter_append, List.append_assoc]
      · rfl
      · simp only [List.length_append, List.length_cons, List.length_nil]
        omega

end Field

theorem fromLe_le32 {n : Nat} (small : n < 2 ^ 32) : fromLe (le32 n) = n := by
  simp only [le32, fromLe, UInt8.toNat_ofNat']
  omega

theorem fromLe_le16 (n : UInt16) : fromLe (le16 n) = n.toNat := by
  have small : n.toNat < 2 ^ 16 := n.toNat_lt
  simp only [le16, fromLe, UInt8.toNat_ofNat']
  omega

section

variable (updateCrc : UInt16 → UInt8 → UInt16)

def packetCrc (payload : Bytes) : UInt16 :=
  crc16Compute updateCrc (escaped (le32 payload.length) ++ escaped payload) (startCrc updateCrc)

def packetBody (payload : Bytes) : Bytes :=
  escaped (le32 payload.length) ++ escaped payload ++ escaped (le16 (packetCrc updateCrc payload))

def packet (payload : Bytes) : Bytes :=
  [escapeStart, packetStart] ++ packetBody updateCrc payload

def delivered (payload : Bytes) : List Event :=
  payload.map .byte ++ [.done true]

variable {updateCrc} {marks : Bool}

theorem run_payload (payload : Bytes) (crc : UInt16) (seen : Option (List Event)) :
    Receiver.run updateCrc marks ⟨awaitPayload crc payload.length, false, seen⟩ (escaped payload) =
      ⟨.checksum (crc16Compute updateCrc (escaped payload) crc) [], false,
        seen.map (· ++ payload.map .byte)⟩ := by
  cases payload with
  | nil => simp [escaped, awaitPayload, crc16Compute]
  | cons d rest =>
    have waiting : (⟨awaitPayload crc (d :: rest).length, false, seen⟩ : Receiver) =
        (payloadField updateCrc marks (d :: rest).length (d :: rest).length (Nat.le_refl _) seen).part
          crc [] false := by
      simp [payloadField, payloadPart, awaitPayload]
    rw [waiting, Field.run_escaped _ (List.cons_ne_nil _ _) (Nat.zero_add _)]
    simp [payloadField, payloadFull, awaitPayload, Field.crcAfter]

variable {payload : Bytes}

theorem run_packetBody (small : payload.length < 2 ^ 32) (seen : Option (List Event)) :
    Receiver.run updateCrc marks ⟨.length (startCrc updateCrc) [], false, seen⟩
        (packetBody updateCrc payload) = ⟨.idle, false, seen.map (· ++ delivered payload)⟩ := by
  have length := @Field.run_escaped _ _ (lengthField updateCrc marks seen) [] (le32 payload.length)
    (List.cons_ne_nil _ _) rfl (startCrc updateCrc)
  have checksum := @Field.run_escaped _ _ (checksumField updateCrc marks (seen.map (· ++ payload.map .byte))) []
    (le16 (packetCrc updateCrc payload)) (List.cons_ne_nil _ _) rfl (packetCrc updateCrc payload)
  simp only [lengthField, checksumField, Field.crcAfter, if_true, List.nil_append, fromLe_le32 small,
    fromLe_le16] at length checksum
  have covered : crc16Compute updateCrc (escaped payload)
      (crc16Compute updateCrc (escaped (le32 payload.length)) (startCrc updateCrc)) =
      packetCrc updateCrc payload := List.foldl_append.symm
  rw [packetBody, Receiver.run_append, Receiver.run_append, length, run_payload, covered, checksum]
  simp [delivered, Function.comp_def]

theorem run_packet (small : payload.length < 2 ^ 32) (saw : Bool) (seen : Option (List Event)) :
    Receiver.run updateCrc marks ⟨.idle, saw, seen⟩ (packet updateCrc payload) =
      ⟨.idle, false, (begun updateCrc marks seen).seen.map (· ++ delivered payload)⟩ := by
  rw [packet, Receiver.run_append, Receiver.run_cons, Receiver.step_idle_escape, Receiver.run_cons,
    Receiver.step_idle_start, Receiver.run_nil]
  exact run_packetBody small _

end

end Tlm.MicroRpc
