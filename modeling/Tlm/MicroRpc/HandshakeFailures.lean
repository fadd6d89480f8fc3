import Tlm.MicroRpc.Handshake

set_option autoImplicit false

namespace Tlm.MicroRpc.Handshake

open Duplex

variable {ν : Type} {rules : Rules ν}

def requests (rules : Rules ν) (nonce : ν) : Nat → List (Message ν)
  | 0 => []
  | count + 1 => .init nonce :: requests rules (rules.next nonce) count

theorem requests_succ (nonce : ν) (count : Nat) :
    requests rules nonce (count + 1) = requests rules nonce count ++ [.init (rules.next^[count] nonce)] := by
  induction count generalizing nonce with
  | zero => rfl
  | succ count ih =>
    rw [requests, ih (rules.next nonce)]
    rfl

-- What the other end has sent and this one has not read are the nonces that this one is about to
-- take, until its buffer is full.
def Tied (rules : Rules ν) (p q : Peer ν) (read : Nat) : Prop :=
  p.phase = .waiting ∧ (p.capacity ≤ p.held ∨ ∃ old first count,
    q.sent = old ++ (first ++ requests rules p.nonce count) ∧ old.length = read ∧
      (first = [] ∨ first = [.terminate]) ∧ rules.next^[count] p.nonce = rules.next q.nonce)

structure Tie (rules : Rules ν) (link : Link (Peer ν)) : Prop where
  a : Tied rules link.a link.b link.readA
  b : Tied rules link.b link.a link.readB
  opened : link.openedA = true ∧ link.openedB = true

theorem Tie.symm {link : Link (Peer ν)} (tie : Tie rules link) : Tie rules link.swap :=
  ⟨tie.b, tie.a, tie.opened.symm⟩

theorem Tied.after_start {p q : Peer ν} {read : Nat} (tied : Tied rules q p read) :
    Tied rules q (p.start rules) read := by
  refine ⟨tied.1, tied.2.imp_right ?_⟩
  rintro ⟨old, first, count, sent, length, kind, reaches⟩
  refine ⟨old, first, count + 1, ?_, length, kind, ?_⟩
  · rw [requests_succ, reaches, ← List.append_assoc first, ← List.append_assoc old, ← sent]
    rfl
  · rw [Function.iterate_succ_apply', reaches]; rfl

theorem Message.size_pos (message : Message ν) : 0 < message.size := by
  cases message <;> exact Nat.zero_lt_succ _

variable [LT ν] [DecidableLT ν] [DecidableEq ν]

theorem Tie.deliver [Std.Asymm fun x y : ν => x < y] {link after : Link (Peer ν)}
    (step : Deliver (Peer.endpoint rules) link after) (tie : Tie rules link) : Tie rules after := by
  obtain ⟨message, p, head, receives⟩ := step
  obtain ⟨⟨waiting, progress⟩, other, opened⟩ := tie
  have size := message.size_pos
  by_cases room : link.a.held + message.size ≤ link.a.capacity
  · obtain ⟨old, first, count, sent, length, kind, reaches⟩ := progress.resolve_left (by omega)
    rw [show (Peer.endpoint rules).sent link.b = _ from sent, ← length,
      List.getElem?_append_right (Nat.le_refl _), Nat.sub_self] at head
    rcases kind with rfl | rfl
    · cases count with
      | zero => cases head
      | succ count =>
        obtain rfl := Option.some.inj head
        rw [(receives.trans (Peer.receive_room room)).trans (Peer.handle_init_same waiting rfl)]
        refine ⟨⟨rfl, Or.inr ⟨old ++ [.init link.a.nonce], [], count, ?_, ?_, Or.inl rfl, reaches⟩⟩,
          other.after_start, opened⟩
        · rw [sent, List.append_assoc]; rfl
        · rw [List.length_append, length]; rfl
    · obtain rfl := Option.some.inj head
      rw [(receives.trans (Peer.receive_room room)).trans
        (Peer.handle_terminate fun _ _ joined => by cases waiting.symm.trans joined)]
      refine ⟨⟨waiting, Or.inr ⟨old ++ [.terminate], [], count, ?_, ?_, Or.inl rfl, reaches⟩⟩, other, opened⟩
      · rw [sent, List.append_assoc]; rfl
      · rw [List.length_append, length]; rfl
  · -- Nothing but the fill of the buffer changes.
    rw [receives.trans (Peer.receive_full (Nat.lt_of_not_le room))]
    exact ⟨⟨waiting, Or.inl (Nat.le_refl _)⟩, other, opened⟩

theorem crossed (rules : Rules ν) (capacityA capacityB : Nat) (nonceA nonceB : ν) :
    Run (Peer.endpoint rules) (.initial (.initial capacityA nonceA) (.initial capacityB nonceB))
      ⟨.asking capacityA (rules.next nonceA) 0, .asking capacityB (rules.next nonceB) 0, 0, 0, true, true⟩ := by
  have openedA := run_openA (e := Peer.endpoint rules)
    (.refl (a := .initial (.initial capacityA nonceA) (.initial capacityB nonceB))) rfl ⟨nofun, rfl⟩
  exact run_openB openedA rfl ⟨nofun, rfl⟩

theorem differ_of_settles [Std.Asymm fun x y : ν => x < y] {capacityA capacityB : Nat} {nonceA nonceB : ν}
    (settles : Settles (Peer.endpoint rules) Peer.Agree
      (.initial (.initial capacityA nonceA) (.initial capacityB nonceB))) :
    rules.next nonceA ≠ rules.next nonceB := by
  intro same
  obtain ⟨⟨bound, bounded⟩, agrees⟩ := settles
  have run := crossed rules capacityA capacityB nonceA nonceB
  have tie : Tie rules ⟨.asking capacityA (rules.next nonceA) 0,
      .asking capacityB (rules.next nonceB) 0, 0, 0, true, true⟩ :=
    ⟨⟨rfl, Or.inr ⟨[], [.terminate], 1, by rw [same]; rfl, rfl, Or.inr rfl, by rw [same]; rfl⟩⟩,
      ⟨rfl, Or.inr ⟨[], [.terminate], 1, by rw [same]; rfl, rfl, Or.inr rfl, by rw [same]; rfl⟩⟩,
      rfl, rfl⟩
  obtain ⟨last, reached, tied, quiet⟩ :=
    exists_quiescent (Tie rules) (fun p message => ⟨_, rfl⟩) Tie.symm Tie.deliver bounded run tie
  obtain ⟨initiator, responder, joined, _⟩ := agrees last reached (Or.inl tied.opened.1) quiet
  cases tied.a.1.symm.trans joined

section

variable {capacityA capacityB : Nat} {nonceA nonceB : ν}

theorem stuck {start link : Link (Peer ν)} (settles : Settles (Peer.endpoint rules) Peer.Agree start)
    (run : Run (Peer.endpoint rules) start link) (opened : link.openedA = true ∨ link.openedB = true)
    (quiet : Quiescent (Peer.endpoint rules) link)
    (apart : ∀ initiator responder, link.a.phase ≠ .joined initiator responder) : False := by
  obtain ⟨initiator, responder, joined, _⟩ := settles.agrees link run opened quiet
  exact apart initiator responder joined

section

variable (settles : Settles (Peer.endpoint rules) Peer.Agree (.initial (.initial capacityA nonceA) (.initial capacityB nonceB)))

include settles

theorem least_of_settles : 7 ≤ capacityA := by
  by_contra short
  have openedB := run_openB (e := Peer.endpoint rules)
    (.refl (a := .initial (.initial capacityA nonceA) (.initial capacityB nonceB))) rfl ⟨nofun, rfl⟩
  have firstA := run_deliverA openedB rfl (Peer.receive_terminate nofun).symm
  have lost := run_deliverA firstA rfl
    (Peer.receive_full (show capacityA < min (0 + 3) capacityA + 4 by omega)).symm
  have firstB := run_deliverB lost rfl (Peer.receive_terminate nofun).symm
  exact stuck settles firstB (Or.inr rfl) ⟨Nat.le_refl _, Nat.le_refl _⟩ nofun

theorem winner_of_settles [Std.Asymm fun x y : ν => x < y]
    (leastA : 7 ≤ capacityA) (leastB : 7 ≤ capacityB)
    (wins : rules.next nonceA < rules.next nonceB) : 11 ≤ capacityA := by
  by_contra short
  have firstB := run_deliverB (crossed rules capacityA capacityB nonceA nonceB) rfl
    (Peer.receive_room (show 0 + 3 ≤ capacityB by omega)).symm
  have answered := run_deliverB firstB rfl ((Peer.receive_room (show 3 + 4 ≤ capacityB by omega)).trans
      (Peer.handle_init_lower rfl wins)).symm
  have firstA := run_deliverA answered rfl (Peer.receive_room (show 0 + 3 ≤ capacityA by omega)).symm
  have ignored := run_deliverA firstA rfl ((Peer.receive_room (show 3 + 4 ≤ capacityA by omega)).trans
      (Peer.handle_init_higher rfl wins)).symm
  have lost := run_deliverA ignored rfl (Peer.receive_full (show capacityA < 7 + 4 by omega)).symm
  exact stuck settles lost (Or.inl rfl) ⟨Nat.le_refl _, Nat.le_refl _⟩ nofun

theorem unclearing_of_settles
    (leastA : 7 ≤ capacityA) (leastB : 7 ≤ capacityB) (keeps : rules.clearsJoined = false) :
    11 ≤ capacityA := by
  by_contra short
  have kept : Peer.kept rules.clearsJoined 7 = 7 := by rw [keeps]; rfl
  have openedB := run_openB (e := Peer.endpoint rules)
    (.refl (a := .initial (.initial capacityA nonceA) (.initial capacityB nonceB))) rfl ⟨nofun, rfl⟩
  have firstA := run_deliverA openedB rfl (Peer.receive_room (show 0 + 3 ≤ capacityA by omega)).symm
  have answered := run_deliverA firstA rfl (Peer.receive_room (show 3 + 4 ≤ capacityA by omega)).symm
  have firstB := run_deliverB answered rfl (Peer.receive_room (show 0 + 3 ≤ capacityB by omega)).symm
  have joined := run_deliverB firstB rfl ((Peer.receive_room (show 3 + 4 ≤ capacityB by omega)).trans
      (Peer.handle_reply_own rfl rfl)).symm
  have openedA := run_openA joined rfl ⟨nofun, rfl⟩
  by_cases room : 11 ≤ capacityB
  · have answeredBack := run_deliverB openedA rfl
      (Peer.receive_room (show Peer.kept rules.clearsJoined 7 + 4 ≤ capacityB by omega)).symm
    have lost := run_deliverA answeredBack rfl
      (Peer.receive_full (show capacityA < Peer.kept rules.clearsJoined 7 + 4 by omega)).symm
    exact stuck settles lost (Or.inl rfl) ⟨Nat.le_refl _, Nat.le_refl _⟩ nofun
  · have lost := run_deliverB openedA rfl
      (Peer.receive_full (show capacityB < Peer.kept rules.clearsJoined 7 + 4 by omega)).symm
    exact stuck settles lost (Or.inl rfl) ⟨Nat.le_refl _, Nat.le_refl _⟩ nofun

theorem needed_of_settles [Std.Asymm fun x y : ν => x < y] :
    needed rules (rules.next nonceA < rules.next nonceB) ≤ capacityA := by
  have leastA := least_of_settles settles
  have leastB := least_of_settles (settles.swap Peer.Agree.symm)
  rw [needed]
  split
  · exact leastA
  next small =>
    by_cases wins : rules.next nonceA < rules.next nonceB
    · exact winner_of_settles settles leastA leastB wins
    · refine unclearing_of_settles settles leastA leastB ?_
      exact Bool.eq_false_iff.mpr fun clears => small ⟨clears, wins⟩

end

theorem settles_iff_enough [Std.Asymm fun x y : ν => x < y] [Std.Trichotomous fun x y : ν => x < y] :
    Settles (Peer.endpoint rules) Peer.Agree
        (.initial (.initial capacityA nonceA) (.initial capacityB nonceB)) ↔
      Enough rules capacityA capacityB nonceA nonceB := by
  refine ⟨fun settles => ?_, settles_of_enough⟩
  exact ⟨differ_of_settles settles, needed_of_settles settles, needed_of_settles (settles.swap Peer.Agree.symm)⟩

end

end Tlm.MicroRpc.Handshake
