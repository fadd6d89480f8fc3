import Tlm.Support.RingBuffer

set_option autoImplicit false

namespace Tlm.Support

open Cpp Circle

namespace RingBuffer

structure Contains (rb : RingBuffer) (items : Bytes) : Prop where
  holds : Holds rb.ring rb.headPtr items
  count : items.length = rb.bytesAvailable

variable {rb : RingBuffer} {items : Bytes} {limit : Nat}

theorem length_init : init.ring.length = kInitCapacity :=
  List.length_replicate

theorem contains_init : init.Contains [] :=
  ⟨.nil (length_init ▸ (by decide : 0 < kInitCapacity)), rfl⟩

variable {ring : Bytes} {start size : Nat}

theorem load_ok (inside : start + size ≤ ring.length) :
    load ring start size = .ok ((ring.drop start).take size) := by
  simp [load, inside]

variable {data : Bytes}

theorem store_ok (inside : start + data.length ≤ ring.length) :
    store ring start data = .ok (stored ring start data) := by
  simp [store, inside]

variable {head : Nat}

theorem loadAround_ok (inside : head < ring.length) (fits : size ≤ ring.length) :
    loadAround ring head size = .ok ((ring.drop head).take (min size (ring.length - head)) ++
      ring.take (size - min size (ring.length - head))) := by
  have first : load ring head (min size (ring.length - head)) = _ := load_ok (by omega)
  by_cases around : min size (ring.length - head) < size
  · have second : load ring 0 (size - min size (ring.length - head)) = _ := load_ok (by omega)
    simp [loadAround, around, first, second]
  · have none : size - min size (ring.length - head) = 0 := by omega
    simp [loadAround, around, first, none]

theorem Contains.read (contains : rb.Contains items) (enough : size ≤ items.length) :
    ∃ after, rb.read size = .ok (items.take size, after) ∧ after.Contains (items.drop size) ∧
      after.ring = rb.ring := by
  have fits := contains.holds.fits
  have count := contains.count
  refine ⟨⟨(rb.headPtr + size) % rb.ring.length, rb.bytesAvailable - size, rb.ring⟩, ?_,
    ⟨contains.holds.drop enough, by simp [count]⟩, rfl⟩
  have available : ¬ rb.bytesAvailable < size := by omega
  have loaded := loadAround_ok contains.holds.inside (Nat.le_trans enough fits)
  rw [contains.holds.read enough] at loaded
  simp [RingBuffer.read, available, loaded]

def RoomToGrow (rb : RingBuffer) (n : Nat) : Prop :=
  rb.ring.length < n → rb.headPtr + rb.bytesAvailable ≤ 6 * n / 5

theorem resize_of_le (grows : ring.length ≤ size) :
    resize ring size = ring ++ List.replicate (size - ring.length) 0 := by
  rw [resize, List.take_of_length_le grows]

theorem length_resize (ring : Bytes) (size : Nat) : (resize ring size).length = size := by
  simp [resize]
  omega

variable {n : Nat}

theorem Contains.grow (contains : rb.Contains items) (more : rb.ring.length < n)
    (room : rb.headPtr + rb.bytesAvailable ≤ 6 * n / 5) (accepted : 6 * n / 5 ≤ limit) :
    ∃ after, rb.grow limit n = .ok after ∧ after.Contains items ∧ n ≤ after.ring.length := by
  obtain ⟨holds, count⟩ := contains
  have inside := holds.inside
  have fits := holds.fits
  have cells : (resize rb.ring (6 * n / 5)).length = 6 * n / 5 := length_resize _ _
  have notMore : ¬ limit < 6 * n / 5 := by omega
  generalize size : rb.headPtr + rb.bytesAvailable - rb.ring.length = ncopy at *
  have short : (rb.ring.take ncopy).length = ncopy := by
    rw [List.length_take]
    omega
  have fit : rb.ring.length + (rb.ring.take ncopy).length ≤
      (resize rb.ring (6 * n / 5)).length := by omega
  have grown : Holds (stored (resize rb.ring (6 * n / 5)) rb.ring.length (rb.ring.take ncopy))
      rb.headPtr items := by
    have grown := holds.grow (List.replicate (6 * n / 5 - rb.ring.length) 0)
      (by rw [List.length_replicate]; omega)
    rwa [← resize_of_le (by omega), count, size] at grown
  have called : rb.grow limit n = .ok { rb with
      ring := stored (resize rb.ring (6 * n / 5)) rb.ring.length (rb.ring.take ncopy) } := by
    by_cases around : rb.ring.length < rb.headPtr + rb.bytesAvailable
    · have copied : (resize rb.ring (6 * n / 5)).take ncopy = rb.ring.take ncopy := by
        rw [resize_of_le (by omega), List.take_append_of_le_length (by omega)]
      have loaded : load (resize rb.ring (6 * n / 5)) 0 ncopy = _ := load_ok (by omega)
      simp [RingBuffer.grow, notMore, around, size, loaded, copied, store_ok fit]
    · have none : ncopy = 0 := by omega
      simp [RingBuffer.grow, notMore, around, none]
  exact ⟨_, called, ⟨grown, count⟩, by rw [length_stored fit, cells]; omega⟩

theorem Contains.unroll (contains : rb.Contains items) (accepted : items.length ≤ limit) :
    ∃ after rest, rb.unroll limit = .ok after ∧ after.ring = items ++ rest ∧
      after.ring.length = rb.ring.length ∧ after.bytesAvailable = rb.bytesAvailable := by
  have fits := contains.holds.fits
  have count := contains.count
  by_cases empty : rb.bytesAvailable = 0
  · have none : items = [] := List.length_eq_zero_iff.1 (count.trans empty)
    exact ⟨rb, rb.ring, by simp [RingBuffer.unroll, empty], by simp [none], rfl, rfl⟩
  · obtain ⟨moved, done, -, same⟩ := contains.read (Nat.le_refl _)
    have whole : ¬ limit < rb.bytesAvailable := by omega
    rw [List.take_length, count] at done
    have fit : 0 + items.length ≤ moved.ring.length := by
      rw [same]
      omega
    refine ⟨⟨moved.headPtr, rb.bytesAvailable, stored moved.ring 0 items⟩,
      moved.ring.drop items.length, ?_, ?_, ?_, rfl⟩
    · simp [RingBuffer.unroll, empty, whole, done, store_ok fit]
    · simp [stored]
    · rw [length_stored fit, same]

theorem holds_resize {rest : Bytes} (unrolled : ring = items ++ rest) (enough : items.length ≤ size)
    (some : 0 < size) : Holds (resize ring size) 0 items := by
  have cut : resize ring size =
      items ++ (rest.take (size - items.length) ++ List.replicate (size - ring.length) 0) := by
    rw [resize, unrolled, List.take_append, List.take_of_length_le enough, List.append_assoc]
  have length := length_resize ring size
  rw [cut] at length ⊢
  exact holds_zero (by omega)

theorem Contains.shrink (contains : rb.Contains items) (accepted : items.length ≤ limit) :
    ∃ after, rb.shrink limit n = .ok after ∧ after.Contains items ∧ n ≤ after.ring.length := by
  have count := contains.count
  have positive : 0 < kInitCapacity := by decide
  obtain ⟨unrolled, rest, done, ring, length, available⟩ := contains.unroll accepted
  refine ⟨⟨0, unrolled.bytesAvailable,
    resize unrolled.ring (max (max kInitCapacity n) unrolled.bytesAvailable)⟩, ?_, ⟨?_, ?_⟩, ?_⟩
  · simp [RingBuffer.shrink, done]
  · exact holds_resize ring (by omega) (by omega)
  · exact count.trans available.symm
  · rw [length_resize]
    omega

theorem Contains.reserve (contains : rb.Contains items) (limit : Nat) (room : rb.RoomToGrow n) :
    rb.reserve limit n = .error .badAlloc ∨
      ∃ after, rb.reserve limit n = .ok after ∧ after.Contains items ∧ n ≤ after.ring.length := by
  unfold RingBuffer.reserve
  split
  next more =>
    by_cases accepted : 6 * n / 5 ≤ limit
    · exact .inr (contains.grow more (room more) accepted)
    · exact .inl (by simp [RingBuffer.grow]; omega)
  next enough =>
    split
    · by_cases accepted : items.length ≤ limit
      · exact .inr (contains.shrink accepted)
      · have count := contains.count
        have some : rb.bytesAvailable ≠ 0 := by omega
        have refused : limit < rb.bytesAvailable := by omega
        exact .inl (by simp [RingBuffer.shrink, RingBuffer.unroll, some, refused])
    · exact .inr ⟨rb, rfl, contains, by omega⟩

theorem reserve_outside (small : rb.ring.length < n)
    (missing : 6 * n / 5 < rb.headPtr + rb.bytesAvailable) (accepted : 6 * n / 5 ≤ limit) :
    rb.reserve limit n = .error .outside := by
  have around : rb.ring.length < rb.headPtr + rb.bytesAvailable := by omega
  have size := length_resize rb.ring (6 * n / 5)
  have allowed : ¬ limit < 6 * n / 5 := by omega
  simp only [RingBuffer.reserve, small, RingBuffer.grow, allowed, around]
  generalize bound : rb.headPtr + rb.bytesAvailable - rb.ring.length = ncopy at *
  by_cases inside : 0 + ncopy ≤ (resize rb.ring (6 * n / 5)).length
  · have behind : ¬ rb.ring.length +
        (((resize rb.ring (6 * n / 5)).drop 0).take ncopy).length ≤ 6 * n / 5 := by
      simp
      omega
    simp only [load_ok inside, ok_bind, store, size, behind]
    rfl
  · simp only [load, inside]
    rfl

theorem reserve_outside_iff (contains : rb.Contains items) (limit n : Nat) :
    rb.reserve limit n = .error .outside ↔
      rb.ring.length < n ∧ 6 * n / 5 ≤ limit ∧ 6 * n / 5 < rb.headPtr + rb.bytesAvailable := by
  constructor
  · intro outside
    by_cases room : rb.RoomToGrow n
    · rcases contains.reserve limit room with refused | ⟨after, done, -⟩
      · cases refused.symm.trans outside
      · cases done.symm.trans outside
    · rw [RoomToGrow, Classical.not_imp, Nat.not_le] at room
      refine ⟨room.1, ?_, room.2⟩
      by_contra refused
      simp [RingBuffer.reserve, room.1, RingBuffer.grow, Nat.not_le.1 refused] at outside
  · rintro ⟨small, accepted, missing⟩
    exact reserve_outside small missing accepted

theorem reserve_outside_iff_wrapped :
    let rb : RingBuffer := ⟨4, 5, [2, 3, 4, 5, 1]⟩
    rb.reserve 100 6 = .error .outside ∧ rb.reserve 100 8 ≠ .error .outside := by
  have contains : Contains ⟨4, 5, [2, 3, 4, 5, 1]⟩ [1, 2, 3, 4, 5] := ⟨⟨by decide, by decide, by decide⟩, rfl⟩
  exact ⟨(reserve_outside_iff contains 100 6).2 (by decide), fun outside =>
    absurd ((reserve_outside_iff contains 100 8).1 outside) (by decide)⟩

theorem extended_straight {tail : Nat} (straight : tail < ring.length)
    (short : data.length ≤ ring.length - tail) : extended ring tail data = stored ring tail data := by
  rw [extended, if_neg (Nat.not_le.2 straight), List.take_of_length_le short,
    List.drop_of_length_le short, stored_nil]

theorem extended_around {more : Bytes} {tail : Nat} (straight : tail < ring.length)
    (full : data.length = ring.length - tail) :
    extended ring tail (data ++ more) = stored (stored ring tail data) 0 more := by
  rw [extended, if_neg (Nat.not_le.2 straight), ← full, List.take_left, List.drop_left]

theorem storeAround_ok (holds : Holds ring head items) (room : items.length + data.length ≤ ring.length) :
    storeAround ring (head + items.length) data = .ok (extended ring (head + items.length) data) := by
  have inside := holds.inside
  generalize position : head + items.length = tail at *
  by_cases straight : tail < ring.length
  · by_cases around : ring.length - tail < data.length
    · have full : (data.take (ring.length - tail)).length = ring.length - tail := by simp; omega
      have first := store_ok (show tail + (data.take (ring.length - tail)).length ≤ ring.length
        by omega)
      have second := store_ok (show 0 + (data.drop (ring.length - tail)).length ≤
        (stored ring tail (data.take (ring.length - tail))).length by
          rw [length_stored (by omega), List.length_drop]; omega)
      rw [← extended_around straight full, List.take_append_drop] at second
      simp [storeAround, Nat.not_le.2 straight, Nat.min_eq_left (Nat.le_of_lt around), around, first, second]
    · have whole : min (ring.length - tail) data.length = data.length := by omega
      have first := store_ok (show tail + data.length ≤ ring.length by omega)
      rw [extended_straight straight (by omega)]
      simp [storeAround, Nat.not_le.2 straight, whole, first]
  · rw [storeAround, extended, if_pos (by omega), if_pos (by omega)]
    exact store_ok (by omega)

theorem receive_ok (frecv : FRecv) (again : Bool) (inside : start + size ≤ ring.length) :
    ∃ data, data.length ≤ size ∧ receive frecv again ring start size = .ok (data, stored ring start data) :=
  ⟨(frecv again size).take size, List.length_take_le _ _, by simp [receive, inside]⟩

theorem receiveAround_ok (frecv : FRecv) {nbytes : Nat} (holds : Holds ring head items)
    (room : items.length + nbytes ≤ ring.length) :
    ∃ data, data.length ≤ nbytes ∧ receiveAround frecv ring (head + items.length) nbytes =
      .ok (data, extended ring (head + items.length) data) := by
  have inside := holds.inside
  generalize position : head + items.length = tail at *
  by_cases straight : tail < ring.length
  · obtain ⟨data, bound, first⟩ := receive_ok frecv false
      (show tail + min (ring.length - tail) nbytes ≤ ring.length by omega)
    by_cases filled : data.length = min (ring.length - tail) nbytes ∧
        min (ring.length - tail) nbytes < nbytes
    · obtain ⟨more, rest, second⟩ := receive_ok frecv true
        (show 0 + (nbytes - min (ring.length - tail) nbytes) ≤ (stored ring tail data).length by
          rw [length_stored (by omega)]; omega)
      refine ⟨data ++ more, by rw [List.length_append]; omega, ?_⟩
      rw [extended_around straight (by omega)]
      simp only [receiveAround, Nat.not_le.2 straight, first, ok_bind, if_pos filled, second]
      rfl
    · refine ⟨data, by omega, ?_⟩
      rw [extended_straight straight (by omega)]
      simp only [receiveAround, Nat.not_le.2 straight, first, ok_bind, filled]
      rfl
  · obtain ⟨data, bound, first⟩ := receive_ok frecv false
      (show tail - ring.length + nbytes ≤ ring.length by omega)
    exact ⟨data, bound, by simpa [receiveAround, extended, Nat.not_lt.1 straight] using first⟩

def Moves (items into out : Bytes) (after : RingBuffer) : Prop :=
  ∃ rest, items ++ into = out ++ rest ∧ after.Contains rest

theorem Contains.put (contains : rb.Contains items) (room : items.length + data.length ≤ rb.ring.length) :
    Moves items data []
      ⟨rb.headPtr, rb.bytesAvailable + data.length,
        extended rb.ring (rb.headPtr + rb.bytesAvailable) data⟩ := by
  have extended := contains.holds.extend room
  rw [contains.count] at extended
  exact ⟨items ++ data, rfl, extended, by simp [contains.count]⟩

theorem Contains.write (contains : rb.Contains items) (limit : Nat)
    (fits : rb.bytesAvailable + data.length < 2 ^ 64) (room : rb.RoomToGrow (rb.bytesAvailable + data.length)) :
    rb.write limit data = .error .badAlloc ∨
      ∃ after, rb.write limit data = .ok after ∧ Moves items data [] after := by
  rw [RingBuffer.write, Nat.mod_eq_of_lt fits]
  rcases contains.reserve limit room with refused | ⟨next, done, held, large⟩
  · exact .inl (by simp only [refused, error_bind])
  · have count := contains.count
    have stored := storeAround_ok held.holds (show items.length + data.length ≤ _ by omega)
    rw [held.count] at stored
    exact .inr ⟨_, by simp [done, stored], held.put (by omega)⟩

theorem Contains.writeWithCallback (contains : rb.Contains items) (limit : Nat) (frecv : FRecv)
    {maxNbytes : Nat} (fits : rb.bytesAvailable + maxNbytes < 2 ^ 64)
    (room : rb.RoomToGrow (rb.bytesAvailable + maxNbytes)) :
    rb.writeWithCallback limit frecv maxNbytes = .error .badAlloc ∨
      ∃ data after, rb.writeWithCallback limit frecv maxNbytes = .ok (data, after) ∧
        Moves items data [] after := by
  rw [RingBuffer.writeWithCallback, Nat.mod_eq_of_lt fits]
  rcases contains.reserve limit room with refused | ⟨next, done, held, large⟩
  · exact .inl (by simp only [refused, error_bind])
  · have count := contains.count
    obtain ⟨data, bound, received⟩ := receiveAround_ok frecv held.holds
      (show items.length + maxNbytes ≤ _ by omega)
    rw [held.count] at received
    exact .inr ⟨data, _, by simp [done, received], held.put (by omega)⟩

theorem sendAround_ok (fsend : FSend) (holds : Holds ring head items) (enough : size ≤ items.length) :
    ∃ sent, sendAround fsend ring head size = .ok sent ∧ sent <+: items := by
  have inside := holds.inside
  have fits := holds.fits
  have all := holds.read enough
  generalize bound : min size (ring.length - head) = ncopy at *
  have first : load ring head ncopy = _ := load_ok (by omega)
  have second : load ring 0 (size - ncopy) = _ := load_ok (by omega)
  rw [List.drop_zero] at second
  have full : ((ring.drop head).take ncopy).length = ncopy := by simp; omega
  generalize (ring.drop head).take ncopy = start at *
  generalize ring.take (size - ncopy) = rest at *
  have front : start ++ rest <+: items := all ▸ List.take_prefix size items
  by_cases whole : ncopy = (start.take (fsend false start)).length ∧ ncopy < size
  · have sent : start.take (fsend false start) = start :=
      (List.take_prefix _ _).eq_of_length (whole.1.symm.trans full.symm)
    refine ⟨start ++ rest.take (fsend true rest), ?_,
      ((List.prefix_append_right_inj start).2 (List.take_prefix _ rest)).trans front⟩
    simp only [sendAround, send, bound, first, ok_bind, if_pos whole, second]
    rw [sent]
    rfl
  · refine ⟨start.take (fsend false start), ?_,
      ((List.take_prefix _ start).trans (List.prefix_append start rest)).trans front⟩
    simp only [sendAround, send, bound, first, ok_bind, if_neg whole]
    rfl

-- The bytes up to the end of the ring, which the callback is offered first.
def offered (rb : RingBuffer) (size : Nat) : Bytes :=
  (rb.ring.drop rb.headPtr).take (min size (rb.ring.length - rb.headPtr))

def TakesAll (rb : RingBuffer) (fsend : FSend) (size : Nat) : Prop :=
  let ncopy := min size (rb.ring.length - rb.headPtr)
  ncopy ≤ fsend false (rb.offered size) ∧
    (ncopy < size → size - ncopy ≤ fsend true (rb.ring.take (size - ncopy)))

def Safe (rb : RingBuffer) : Operation → Prop
  | .write data =>
    rb.bytesAvailable + data.length < 2 ^ 64 ∧ rb.RoomToGrow (rb.bytesAvailable + data.length)
  | .read _ => True
  | .reserve n => rb.RoomToGrow n
  | .writeWithCallback _ maxNbytes =>
    rb.bytesAvailable + maxNbytes < 2 ^ 64 ∧ rb.RoomToGrow (rb.bytesAvailable + maxNbytes)
  | .readWithCallback fsend maxNbytes =>
    0 < min maxNbytes rb.bytesAvailable →
      fsend false (rb.offered (min maxNbytes rb.bytesAvailable)) = 0 ∨
        rb.bytesAvailable ≤ maxNbytes ∧ rb.TakesAll fsend rb.bytesAvailable

theorem sendAround_nothing {fsend : FSend} {sent : Bytes} (holds : Holds rb.ring rb.headPtr items)
    (positive : 0 < size) (refused : fsend false (rb.offered size) = 0)
    (done : sendAround fsend rb.ring rb.headPtr size = .ok sent) : sent = [] := by
  have inside := holds.inside
  have first : load rb.ring rb.headPtr (min size (rb.ring.length - rb.headPtr)) = _ := load_ok (by omega)
  rw [offered] at refused
  have stops : min size (rb.ring.length - rb.headPtr) ≠ 0 := by omega
  simp only [sendAround, send, first, ok_bind, refused, List.take_zero, List.length_nil, stops, false_and,
    if_false] at done
  cases done
  rfl

theorem sendAround_all {fsend : FSend} {sent : Bytes} (holds : Holds rb.ring rb.headPtr items)
    (enough : size ≤ items.length) (all : rb.TakesAll fsend size)
    (done : sendAround fsend rb.ring rb.headPtr size = .ok sent) : sent.length = size := by
  have inside := holds.inside
  have fits := holds.fits
  obtain ⟨firstAll, secondAll⟩ := all
  rw [offered] at firstAll
  have first : load rb.ring rb.headPtr (min size (rb.ring.length - rb.headPtr)) = _ := load_ok (by omega)
  have second : load rb.ring 0 (size - min size (rb.ring.length - rb.headPtr)) = _ := load_ok (by omega)
  rw [List.drop_zero] at second
  have full : ((rb.ring.drop rb.headPtr).take (min size (rb.ring.length - rb.headPtr))).length =
      min size (rb.ring.length - rb.headPtr) := by simp
  have whole := List.take_of_length_le (Nat.le_trans (Nat.le_of_eq full) firstAll)
  by_cases around : min size (rb.ring.length - rb.headPtr) < size
  · have rest := List.take_of_length_le (Nat.le_trans (List.length_take_le _ rb.ring) (secondAll around))
    simp only [sendAround, send, first, ok_bind, whole, full, around, and_self, if_true, second, rest] at done
    cases done
    rw [List.length_append, full, List.length_take]
    omega
  · simp only [sendAround, send, first, ok_bind, whole, around, and_false, if_false] at done
    cases done
    rw [full]
    omega

theorem Contains.readWithCallback (contains : rb.Contains items) {fsend : FSend} {maxNbytes : Nat}
    (safe : rb.Safe (.readWithCallback fsend maxNbytes)) :
    rb.readWithCallback fsend maxNbytes = .error .check ∨
      ∃ sent after, rb.readWithCallback fsend maxNbytes = .ok (sent, after) ∧ Moves items [] sent after := by
  have count := contains.count
  by_cases none : min maxNbytes rb.bytesAvailable = 0
  · exact .inl (by simp only [RingBuffer.readWithCallback, none, if_true])
  · obtain ⟨sent, done, rest, split⟩ := sendAround_ok fsend contains.holds
      (show min maxNbytes rb.bytesAvailable ≤ items.length by omega)
    have called : rb.readWithCallback fsend maxNbytes =
        .ok (sent, { rb with bytesAvailable := rb.bytesAvailable - sent.length }) := by
      simp only [RingBuffer.readWithCallback, none, done]
      rfl
    refine .inr ⟨sent, _, called, rest, by simp [split], ?_⟩
    rcases safe (Nat.pos_of_ne_zero none) with refused | ⟨enough, all⟩
    · have nothing := sendAround_nothing contains.holds (Nat.pos_of_ne_zero none) refused done
      rw [nothing] at split ⊢
      rw [← split] at contains
      exact contains
    · rw [Nat.min_eq_right enough] at done
      have taken := sendAround_all contains.holds (Nat.le_of_eq count.symm) all done
      have length := congrArg List.length split
      rw [List.length_append] at length
      have empty : rest = [] := List.length_eq_zero_iff.1 (by omega)
      rw [empty]
      exact ⟨.nil contains.holds.inside, by simp [taken]⟩

theorem Contains.call (contains : rb.Contains items) (limit : Nat) {operation : Operation}
    (safe : rb.Safe operation) :
    (∃ e, e ≠ .outside ∧ rb.call limit operation = .error e) ∨
      ∃ into out after, rb.call limit operation = .ok (into, out, after) ∧ Moves items into out after := by
  cases operation with
  | write data =>
    rcases contains.write limit safe.1 safe.2 with refused | ⟨after, done, moves⟩
    · exact .inl ⟨.badAlloc, nofun, by simp only [RingBuffer.call, refused, error_bind]⟩
    · exact .inr ⟨data, [], after, by simp [RingBuffer.call, done], moves⟩
  | read size =>
    by_cases enough : size ≤ items.length
    · obtain ⟨after, done, held, -⟩ := contains.read enough
      exact .inr ⟨[], items.take size, after, by simp [RingBuffer.call, done],
        items.drop size, by simp, held⟩
    · have missing : rb.bytesAvailable < size := by have := contains.count; omega
      exact .inl ⟨.check, nofun, by simp only [RingBuffer.call, RingBuffer.read, missing, if_true, error_bind]⟩
  | reserve n =>
    rcases contains.reserve limit safe with refused | ⟨after, done, held, -⟩
    · exact .inl ⟨.badAlloc, nofun, by simp only [RingBuffer.call, refused, error_bind]⟩
    · exact .inr ⟨[], [], after, by simp [RingBuffer.call, done], items, by simp, held⟩
  | writeWithCallback frecv maxNbytes =>
    rcases contains.writeWithCallback limit frecv safe.1 safe.2 with refused | ⟨data, after, done, moves⟩
    · exact .inl ⟨.badAlloc, nofun, by simp only [RingBuffer.call, refused, error_bind]⟩
    · exact .inr ⟨data, [], after, by simp [RingBuffer.call, done], moves⟩
  | readWithCallback fsend maxNbytes =>
    rcases contains.readWithCallback safe with refused | ⟨sent, after, done, moves⟩
    · exact .inl ⟨.check, nofun, by simp only [RingBuffer.call, refused, error_bind]⟩
    · exact .inr ⟨[], sent, after, by simp [RingBuffer.call, done], moves⟩

namespace History

structure Fifo (history : History) : Prop where
  order : history.taken <+: history.put
  rest : history.put.length = history.taken.length + history.buffer.bytesAvailable

structure Tracks (history : History) (items : Bytes) : Prop where
  bytes : history.put = history.taken ++ items
  contains : history.buffer.Contains items

variable {history : History}

theorem Tracks.fifo (tracks : history.Tracks items) : history.Fifo where
  order := ⟨items, tracks.bytes.symm⟩
  rest := by simp [tracks.bytes, tracks.contains.count]

theorem Tracks.step (tracks : history.Tracks items) (limit : Nat) {operation : Operation}
    (safe : history.buffer.Safe operation) :
    ∃ after rest, history.step limit operation = .ok after ∧ after.Tracks rest := by
  rcases tracks.contains.call limit safe with ⟨e, inside, refused⟩ | ⟨into, out, after, done, rest, same, held⟩
  · refine ⟨history, items, ?_, tracks⟩
    cases e <;> simp_all [History.step]
  · refine ⟨_, rest, by rw [History.step, done], ?_, held⟩
    simp [tracks.bytes, same]

theorem Tracks.run (tracks : history.Tracks items) {operations : List Operation}
    (safe : Along (fun history operation => history.buffer.Safe operation) (History.step limit)
      operations history) :
    ∃ after, operations.foldlM (History.step limit) history = .ok after ∧ after.Fifo := by
  induction operations generalizing history items with
  | nil => exact ⟨history, rfl, tracks.fifo⟩
  | cons operation rest ih =>
    obtain ⟨next, held, done, tracked⟩ := tracks.step limit safe.1
    obtain ⟨after, finished, fifo⟩ := ih tracked (safe.2 next done)
    exact ⟨after, by simp [done, finished], fifo⟩

theorem run_fifo (limit : Nat) (operations : List Operation)
    (safe : Along (fun history operation => history.buffer.Safe operation) (History.step limit)
      operations ⟨[], [], init⟩) :
    ∃ history, run limit operations = .ok history ∧ history.Fifo :=
  Tracks.run ⟨rfl, contains_init⟩ safe

-- The second write goes around the end of the ring, and so does the read of half of the bytes.
theorem run_fifo_wrapped :
    ∃ history, run 4096 [.write (List.replicate 4000 1), .read 3000, .write (List.replicate 3000 2),
        .read 2000, .readWithCallback (fun _ data => data.length) 2000] = .ok history ∧
      history.Fifo := by
  refine run_fifo 4096 _ ⟨⟨?_, ?_⟩, fun s₁ first => ⟨trivial, fun s₂ second => ⟨?_,
    fun s₃ third => ⟨trivial, fun s₄ fourth => ⟨?_, fun _ _ => trivial⟩⟩⟩⟩⟩
  · rw [List.length_replicate]
    decide
  · intro small
    rw [List.length_replicate, length_init] at small
    exact absurd small (by decide)
  · have known : ((run 4096 [.write (List.replicate 4000 1), .read 3000]).toOption.map fun history =>
        (history.buffer.bytesAvailable, history.buffer.ring.length)) = some (1000, 4096) := by
      decide +kernel
    simp only [run, List.foldlM_cons, first, second, ok_bind, List.foldlM_nil] at known
    obtain ⟨available, size⟩ := Prod.mk.inj (Option.some.inj known)
    refine ⟨?_, fun small => ?_⟩ <;> rw [List.length_replicate, available] at *
    · decide
    · omega
  · have known : ((run 4096 [.write (List.replicate 4000 1), .read 3000, .write (List.replicate 3000 2),
        .read 2000]).toOption.map fun history =>
          (history.buffer.bytesAvailable, history.buffer.ring.length)) = some (2000, 4096) := by
      decide +kernel
    simp only [run, List.foldlM_cons, first, second, third, fourth, ok_bind, List.foldlM_nil] at known
    obtain ⟨available, size⟩ := Prod.mk.inj (Option.some.inj known)
    intro _
    refine .inr ⟨Nat.le_of_eq available, ?_, fun _ => ?_⟩
    · simp only [offered, List.length_take, List.length_drop]
      omega
    · simp only [List.length_take]
      omega

-- A send function that takes the first of two bytes gets it again.
theorem taken_twice :
    let operations : List Operation := [.write [1, 2], .readWithCallback (fun _ _ => 1) 2, .read 1]
    ((run 4096 operations).toOption.map fun history => (history.put, history.taken)) =
        some ([1, 2], [1, 1]) ∧
      ¬ ([1, 1] : Bytes) <+: [1, 2] := by
  decide +kernel

end History

end RingBuffer

end Tlm.Support
