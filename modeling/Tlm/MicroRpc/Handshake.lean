import Mathlib.Logic.Function.Iterate
import Tlm.Shared.Duplex

set_option autoImplicit false

namespace Tlm.MicroRpc.Handshake

open Duplex

variable {ν : Type}

inductive PeerPhase (ν : Type) where
  | reset
  | idle
  | waiting
  | joined (initiator responder : ν)

inductive Message (ν : Type) where
  | terminate
  | init (nonce : ν)
  | reply (initiator responder : ν)

def Message.size : Message ν → Nat
  | .terminate => 3
  | .init _ => 4
  | .reply _ _ => 4

structure Peer (ν : Type) where
  capacity : Nat
  nonce : ν
  phase : PeerPhase ν
  held : Nat
  sent : List (Message ν)

-- How a nonce follows another, and whether the callback clears the receive buffer when a session has
-- been established or terminated.
structure Rules (ν : Type) where
  next : ν → ν
  clearsJoined : Bool
  clearsEnded : Bool

namespace Peer

def initial (capacity : Nat) (nonce : ν) : Peer ν :=
  ⟨capacity, nonce, .idle, 0, [.terminate]⟩

section

variable [LT ν] [DecidableLT ν] [DecidableEq ν] (rules : Rules ν)

def kept (clears : Bool) (held : Nat) : Nat :=
  if clears then 0 else held

def start (p : Peer ν) : Peer ν :=
  { p with
    nonce := rules.next p.nonce
    phase := .waiting
    sent := p.sent ++ [.init (rules.next p.nonce)] }

def answer (p : Peer ν) (initiator : ν) : Peer ν :=
  { p with
    nonce := rules.next p.nonce
    phase := .joined initiator (rules.next p.nonce)
    held := kept rules.clearsJoined p.held
    sent := p.sent ++ [.reply initiator (rules.next p.nonce)] }

def handle (p : Peer ν) : Message ν → Peer ν
  | .terminate =>
    match p.phase with
    | .joined _ _ => { p with phase := .idle, held := kept rules.clearsEnded p.held }
    | _ => p
  | .init nonce =>
    match p.phase with
    | .waiting =>
      if nonce < p.nonce then p.answer rules nonce
      else if nonce = p.nonce then p.start rules
      else p
    | _ => p.answer rules nonce
  | .reply initiator responder =>
    match p.phase with
    | .waiting =>
      if initiator = p.nonce then
        { p with
          phase := .joined initiator responder
          held := kept rules.clearsJoined p.held }
      else p
    | .joined _ _ => { p with phase := .reset }
    | _ => p

def receive (p : Peer ν) (message : Message ν) : Peer ν :=
  if p.held + message.size ≤ p.capacity then
    { p with held := p.held + message.size }.handle rules message
  else { p with held := p.capacity }

def endpoint : Endpoint (Peer ν) (Message ν) where
  sent := sent
  opens p after := p.phase ≠ .reset ∧ after = p.start rules
  receives p message after := after = p.receive rules message

end

section

variable [LT ν] [DecidableLT ν] [DecidableEq ν] {rules : Rules ν} {p : Peer ν} {nonce : ν}

theorem receive_room {message : Message ν} (room : p.held + message.size ≤ p.capacity) :
    p.receive rules message = { p with held := p.held + message.size }.handle rules message :=
  if_pos room

theorem receive_full {message : Message ν} (full : p.capacity < p.held + message.size) :
    p.receive rules message = { p with held := p.capacity } :=
  if_neg (Nat.not_le.mpr full)

theorem handle_terminate (apart : ∀ initiator responder, p.phase ≠ .joined initiator responder) :
    p.handle rules .terminate = p := by
  rw [handle]
  split
  next initiator responder joined => exact absurd joined (apart initiator responder)
  · rfl

theorem receive_terminate (apart : ∀ initiator responder, p.phase ≠ .joined initiator responder) :
    p.receive rules .terminate = { p with held := min (p.held + 3) p.capacity } := by
  by_cases room : p.held + 3 ≤ p.capacity
  · rw [Nat.min_eq_left room, receive_room room]
    exact handle_terminate apart
  · rw [Nat.min_eq_right (Nat.le_of_not_le room), receive_full (Nat.lt_of_not_le room)]

section

variable (waiting : p.phase = .waiting)

include waiting

theorem handle_reply_own {responder : ν} (own : nonce = p.nonce) :
    p.handle rules (.reply nonce responder) =
      { p with
        phase := .joined nonce responder
        held := kept rules.clearsJoined p.held } := by
  simp only [handle, waiting, if_pos own]

theorem handle_init_lower (lower : nonce < p.nonce) :
    p.handle rules (.init nonce) = p.answer rules nonce := by
  simp only [handle, waiting, if_pos lower]

variable [Std.Asymm fun x y : ν => x < y]

theorem handle_init_higher (higher : p.nonce < nonce) :
    p.handle rules (.init nonce) = p := by
  have notLower : ¬nonce < p.nonce := Std.Asymm.asymm _ _ higher
  have notSame : nonce ≠ p.nonce := fun same => notLower (same ▸ higher)
  simp only [handle, waiting, if_neg notLower, if_neg notSame]

theorem handle_init_same (same : nonce = p.nonce) :
    p.handle rules (.init nonce) = p.start rules := by
  subst same
  have notLower : ¬p.nonce < p.nonce := fun lower => Std.Asymm.asymm _ _ lower lower
  simp only [handle, waiting, if_neg notLower, if_true]

end

end

def Agree (p q : Peer ν) : Prop :=
  ∃ initiator responder, p.phase = .joined initiator responder ∧
    q.phase = .joined initiator responder

theorem Agree.symm {p q : Peer ν} (agree : Agree p q) : Agree q p := by
  obtain ⟨initiator, responder, first, second⟩ := agree
  exact ⟨initiator, responder, second, first⟩

end Peer

section

variable [LT ν] [DecidableLT ν] [DecidableEq ν] (rules : Rules ν)

-- The bytes that come in before a session is established for good. The winner of two requests that cross
-- holds all of them at once.
def needed (wins : Prop) [Decidable wins] : Nat :=
  if rules.clearsJoined = true ∧ ¬wins then 7 else 11

structure Enough (capacityA capacityB : Nat) (nonceA nonceB : ν) : Prop where
  differ : rules.next nonceA ≠ rules.next nonceB
  roomA : needed rules (rules.next nonceA < rules.next nonceB) ≤ capacityA
  roomB : needed rules (rules.next nonceB < rules.next nonceA) ≤ capacityB

namespace Peer

-- The states of an end, by the messages that it has sent and the bytes that it holds.

def asking (capacity : Nat) (a : ν) (held : Nat) : Peer ν :=
  ⟨capacity, a, .waiting, held, [.terminate, .init a]⟩

def asked (capacity : Nat) (a : ν) (held : Nat) (responder : ν) : Peer ν :=
  ⟨capacity, a, .joined a responder, kept rules.clearsJoined held, [.terminate, .init a]⟩

def askedThenAnswered (capacity : Nat) (a : ν) (held : Nat) (initiator : ν) : Peer ν :=
  ⟨capacity, rules.next a, .joined initiator (rules.next a), kept rules.clearsJoined held,
    [.terminate, .init a, .reply initiator (rules.next a)]⟩

def answered (capacity : Nat) (b : ν) (initiator : ν) : Peer ν :=
  ⟨capacity, b, .joined initiator b, kept rules.clearsJoined 7, [.terminate, .reply initiator b]⟩

def answeredThenAsking (capacity : Nat) (b : ν) (initiator : ν) : Peer ν :=
  ⟨capacity, rules.next b, .waiting, kept rules.clearsJoined 7,
    [.terminate, .reply initiator b, .init (rules.next b)]⟩

def answeredThenAsked (capacity : Nat) (b : ν) (initiator responder : ν) : Peer ν :=
  ⟨capacity, rules.next b, .joined (rules.next b) responder,
    kept rules.clearsJoined (kept rules.clearsJoined 7 + 4),
    [.terminate, .reply initiator b, .init (rules.next b)]⟩

end Peer

section

variable (capacityA capacityB : Nat) (nonceA nonceB a b : ν)

-- The states of a connection whose first end has opened first, or has won after both requests were
-- sent. The reads may or may not include the terminate messages, which do nothing.
inductive Exchange : Link (Peer ν) → Prop where
  | fresh {readA readB : Nat} (seenA : readA ≤ 1) (seenB : readB ≤ 1) :
      Exchange ⟨⟨capacityA, nonceA, .idle, 4 * readA - 1, [.terminate]⟩,
        ⟨capacityB, nonceB, .idle, 4 * readB - 1, [.terminate]⟩, readA, readB, false, false⟩
  | opened {readA readB : Nat} (seenA : readA ≤ 1) (seenB : readB ≤ 1) :
      Exchange ⟨.asking capacityA a (4 * readA - 1),
        ⟨capacityB, nonceB, .idle, 4 * readB - 1, [.terminate]⟩, readA, readB, true, false⟩
  | answered {readA : Nat} (seenA : readA ≤ 1) :
      Exchange ⟨.asking capacityA a (4 * readA - 1), .answered rules capacityB b a,
        readA, 2, true, false⟩
  | joined :
      Exchange ⟨.asked rules capacityA a 7 b, .answered rules capacityB b a, 2, 2, true, false⟩
  | reopened {readA : Nat} (seenA : readA ≤ 1) :
      Exchange ⟨.asking capacityA a (4 * readA - 1), .answeredThenAsking rules capacityB b a,
        readA, 2, true, true⟩
  | joinedReopened :
      Exchange ⟨.asked rules capacityA a 7 b, .answeredThenAsking rules capacityB b a,
        2, 2, true, true⟩
  | answeredBack :
      Exchange ⟨.askedThenAnswered rules capacityA a (Peer.kept rules.clearsJoined 7 + 4)
          (rules.next b), .answeredThenAsking rules capacityB b a, 3, 2, true, true⟩
  | rejoined :
      Exchange ⟨.askedThenAnswered rules capacityA a (Peer.kept rules.clearsJoined 7 + 4)
          (rules.next b), .answeredThenAsked rules capacityB b a (rules.next a), 3, 3, true, true⟩
  | crossed {readA readB : Nat} (seenA : readA ≤ 2) (seenB : readB ≤ 1) (wins : a < b) :
      Exchange ⟨.asking capacityA a (4 * readA - 1), .asking capacityB b (4 * readB - 1),
        readA, readB, true, true⟩
  | yielded {readA : Nat} (seenA : readA ≤ 2) (wins : a < b) :
      Exchange ⟨.asking capacityA a (4 * readA - 1), .askedThenAnswered rules capacityB b 7 a,
        readA, 2, true, true⟩
  | settled (wins : a < b) :
      Exchange ⟨.asked rules capacityA a 11 (rules.next b),
        .askedThenAnswered rules capacityB b 7 a, 3, 2, true, true⟩

end

section

variable {rules} {capacityA capacityB : Nat} {nonceA nonceB : ν}

omit [DecidableEq ν] in
section

variable (enough : Enough rules capacityA capacityB nonceA nonceB)

include enough

theorem Enough.symm :
    Enough rules capacityB capacityA nonceB nonceA :=
  ⟨enough.differ.symm, enough.roomB, enough.roomA⟩

omit [DecidableEq ν] in
theorem Enough.least : 7 ≤ capacityA := by
  have room := enough.roomA
  rw [needed] at room
  split at room <;> omega

omit [DecidableEq ν] in
theorem Enough.again :
    Peer.kept rules.clearsJoined 7 + 4 ≤ capacityA := by
  have room := enough.roomA
  rw [needed] at room
  cases clears : rules.clearsJoined with
  | true => have := enough.least; simp only [Peer.kept, if_true]; omega
  | false =>
    rw [if_neg (by rw [clears]; exact fun both => Bool.noConfusion both.1)] at room
    exact room

omit [DecidableEq ν] in
theorem Enough.winner
    (wins : rules.next nonceA < rules.next nonceB) : 11 ≤ capacityA := by
  have room := enough.roomA
  rwa [needed, if_neg (fun both => both.2 wins)] at room

end

def Connected (rules : Rules ν) (capacityA capacityB : Nat) (nonceA nonceB : ν) :
    Link (Peer ν) → Prop :=
  Exchange rules capacityA capacityB nonceA nonceB (rules.next nonceA) (rules.next nonceB)

variable {link after : Link (Peer ν)}

omit [DecidableLT ν] [DecidableEq ν] in
theorem Connected.first_messages (connected : Connected rules capacityA capacityB nonceA nonceB link) :
    link.a.sent[0]? = some .terminate ∧ link.b.sent[0]? = some .terminate := by
  cases connected <;> exact ⟨rfl, rfl⟩

theorem Connected.terminate_first
    (connected : Connected rules capacityA capacityB nonceA nonceB link) (unread : link.readA = 0)
    (room : 3 ≤ capacityA) :
    Connected rules capacityA capacityB nonceA nonceB
      { link with a := link.a.receive rules .terminate, readA := link.readA + 1 } := by
  have received {p : Peer ν} (empty : p.held = 0) (capacity : p.capacity = capacityA) :
      p.receive rules .terminate = { p with held := 3 }.handle rules .terminate := by
    rw [Peer.receive_room (by rw [empty, capacity]; exact room), empty]
    rfl
  cases connected with
  | fresh _ seenB =>
    cases unread
    rw [received rfl rfl]
    exact .fresh (Nat.le_refl 1) seenB
  | opened _ seenB =>
    cases unread
    rw [received rfl rfl]
    exact .opened (Nat.le_refl 1) seenB
  | answered =>
    cases unread
    rw [received rfl rfl]
    exact .answered (Nat.le_refl 1)
  | reopened =>
    cases unread
    rw [received rfl rfl]
    exact .reopened (Nat.le_refl 1)
  | crossed _ seenB wins =>
    cases unread
    rw [received rfl rfl]
    exact .crossed (Nat.le_succ 1) seenB wins
  | yielded _ wins =>
    cases unread
    rw [received rfl rfl]
    exact .yielded (Nat.le_succ 1) wins
  | _ => cases unread

theorem Connected.terminate_second
    (connected : Connected rules capacityA capacityB nonceA nonceB link) (unread : link.readB = 0)
    (room : 3 ≤ capacityB) :
    Connected rules capacityA capacityB nonceA nonceB
      { link with b := link.b.receive rules .terminate, readB := link.readB + 1 } := by
  have received {p : Peer ν} (empty : p.held = 0) (capacity : p.capacity = capacityB) :
      p.receive rules .terminate = { p with held := 3 }.handle rules .terminate := by
    rw [Peer.receive_room (by rw [empty, capacity]; exact room), empty]
    rfl
  cases connected with
  | fresh seenA =>
    cases unread
    rw [received rfl rfl]
    exact .fresh seenA (Nat.le_refl 1)
  | opened seenA =>
    cases unread
    rw [received rfl rfl]
    exact .opened seenA (Nat.le_refl 1)
  | crossed seenA _ wins =>
    cases unread
    rw [received rfl rfl]
    exact .crossed seenA (Nat.le_refl 1) wins
  | _ => cases unread

section

variable (enough : Enough rules capacityA capacityB nonceA nonceB) (connected : Connected rules capacityA capacityB nonceA nonceB link)

include enough connected

theorem Connected.deliver_first [Std.Asymm fun x y : ν => x < y]
    (step : Deliver (Peer.endpoint rules) link after) :
    Connected rules capacityA capacityB nonceA nonceB after := by
  obtain ⟨message, p, head, receives⟩ := step
  have least := enough.least
  rcases Nat.eq_zero_or_pos link.readA with unread | read
  · rw [unread] at head
    obtain rfl := Option.some.inj (connected.first_messages.2.symm.trans head)
    rw [show p = link.a.receive rules .terminate from receives]
    exact connected.terminate_first unread (by omega)
  have received (room : link.a.held + message.size ≤ link.a.capacity) :
      p = { link.a with held := link.a.held + message.size }.handle rules message :=
    receives.trans (Peer.receive_room room)
  cases connected with
  | fresh seenA =>
    obtain rfl := Nat.le_antisymm seenA read
    cases head
  | opened seenA =>
    obtain rfl := Nat.le_antisymm seenA read
    cases head
  | answered seenA =>
    obtain rfl := Nat.le_antisymm seenA read
    obtain rfl := Option.some.inj head
    rw [(received (show 3 + 4 ≤ capacityA by omega)).trans (Peer.handle_reply_own rfl rfl)]
    exact .joined
  | joined => cases head
  | reopened seenA =>
    obtain rfl := Nat.le_antisymm seenA read
    obtain rfl := Option.some.inj head
    rw [(received (show 3 + 4 ≤ capacityA by omega)).trans (Peer.handle_reply_own rfl rfl)]
    exact .joinedReopened
  | joinedReopened =>
    obtain rfl := Option.some.inj head
    rw [received enough.again]
    exact .answeredBack
  | answeredBack => cases head
  | rejoined => cases head
  | @crossed readA _ seenA seenB wins =>
    have read : 0 < readA := read
    obtain rfl | rfl : readA = 1 ∨ readA = 2 := by omega
    · obtain rfl := Option.some.inj head
      rw [(received (show 3 + 4 ≤ capacityA by omega)).trans (Peer.handle_init_higher rfl wins)]
      exact .crossed (Nat.le_refl 2) seenB wins
    · cases head
  | @yielded readA seenA wins =>
    have read : 0 < readA := read
    obtain rfl | rfl : readA = 1 ∨ readA = 2 := by omega
    · obtain rfl := Option.some.inj head
      rw [(received (show 3 + 4 ≤ capacityA by omega)).trans (Peer.handle_init_higher rfl wins)]
      exact .yielded (Nat.le_refl 2) wins
    · obtain rfl := Option.some.inj head
      rw [(received (show 7 + 4 ≤ capacityA from enough.winner wins)).trans (Peer.handle_reply_own rfl rfl)]
      exact .settled wins
  | settled wins => cases head

theorem Connected.deliver_second
    (step : Deliver (Peer.endpoint rules) link.swap after) :
    Connected rules capacityA capacityB nonceA nonceB after.swap := by
  obtain ⟨message, p, head, receives⟩ := step
  have least := enough.symm.least
  rcases Nat.eq_zero_or_pos link.readB with unread | read
  · rw [show link.swap.readA = 0 from unread] at head
    obtain rfl := Option.some.inj (connected.first_messages.1.symm.trans head)
    rw [show p = link.b.receive rules .terminate from receives]
    exact connected.terminate_second unread (by omega)
  have received (room : link.b.held + message.size ≤ link.b.capacity) :
      p = { link.b with held := link.b.held + message.size }.handle rules message :=
    receives.trans (Peer.receive_room room)
  cases connected with
  | fresh _ seenB =>
    obtain rfl := Nat.le_antisymm seenB read
    cases head
  | opened seenA seenB =>
    obtain rfl := Nat.le_antisymm seenB read
    obtain rfl := Option.some.inj head
    rw [received (show 3 + 4 ≤ capacityB by omega)]
    exact .answered seenA
  | answeredBack =>
    obtain rfl := Option.some.inj head
    rw [(received enough.symm.again).trans (Peer.handle_reply_own rfl rfl)]
    exact .rejoined
  | crossed seenA seenB wins =>
    obtain rfl := Nat.le_antisymm seenB read
    obtain rfl := Option.some.inj head
    rw [(received (show 3 + 4 ≤ capacityB by omega)).trans (Peer.handle_init_lower rfl wins)]
    exact .yielded seenA wins
  | _ => cases head

end

def Reached (rules : Rules ν) (capacityA capacityB : Nat) (nonceA nonceB : ν)
    (link : Link (Peer ν)) : Prop :=
  Connected rules capacityA capacityB nonceA nonceB link ∨
    Connected rules capacityB capacityA nonceB nonceA link.swap

theorem Connected.open_first (connected : Connected rules capacityA capacityB nonceA nonceB link)
    (step : Open (Peer.endpoint rules) link after) :
    Connected rules capacityA capacityB nonceA nonceB after := by
  obtain ⟨p, fresh, _, rfl⟩ := step
  cases connected with
  | fresh seenA seenB => exact .opened seenA seenB
  | _ => cases fresh

theorem Connected.open_second [Std.Trichotomous fun x y : ν => x < y]
    (enough : Enough rules capacityA capacityB nonceA nonceB)
    (connected : Connected rules capacityA capacityB nonceA nonceB link)
    (step : Open (Peer.endpoint rules) link.swap after) :
    Reached rules capacityA capacityB nonceA nonceB after.swap := by
  obtain ⟨p, fresh, _, rfl⟩ := step
  cases connected with
  | fresh seenA seenB => exact Or.inr (.opened seenB seenA)
  | opened seenA seenB =>
    rcases Std.lt_trichotomy (rules.next nonceA) (rules.next nonceB) with wins | same | wins
    · exact Or.inl (.crossed (Nat.le_succ_of_le seenA) seenB wins)
    · exact absurd same enough.differ
    · exact Or.inr (.crossed (Nat.le_succ_of_le seenB) seenA wins)
  | answered seenA => exact Or.inl (.reopened seenA)
  | joined => exact Or.inl .joinedReopened
  | _ => cases fresh

omit [DecidableLT ν] [DecidableEq ν] in
theorem Reached.symm (reached : Reached rules capacityA capacityB nonceA nonceB link) :
    Reached rules capacityB capacityA nonceB nonceA link.swap :=
  Or.symm reached

theorem Reached.step [Std.Asymm fun x y : ν => x < y] [Std.Trichotomous fun x y : ν => x < y]
    (enough : Enough rules capacityA capacityB nonceA nonceB) (step : Step (Peer.endpoint rules) link after)
    (reached : Reached rules capacityA capacityB nonceA nonceB link) :
    Reached rules capacityA capacityB nonceA nonceB after := by
  cases step with
  | openA step =>
    rcases reached with connected | connected
    · exact Or.inl (connected.open_first step)
    · exact (connected.open_second enough.symm step).symm
  | openB step =>
    rcases reached with connected | connected
    · exact connected.open_second enough step
    · exact Or.inr (connected.open_first step)
  | deliverA step =>
    rcases reached with connected | connected
    · exact Or.inl (connected.deliver_first enough step)
    · exact Or.inr (connected.deliver_second enough.symm step)
  | deliverB step =>
    rcases reached with connected | connected
    · exact Or.inl (connected.deliver_second enough step)
    · exact Or.inr (connected.deliver_first enough.symm step)

omit [DecidableLT ν] [DecidableEq ν] in
theorem Connected.sent_le (connected : Connected rules capacityA capacityB nonceA nonceB link) :
    link.a.sent.length + link.b.sent.length ≤ 6 := by
  cases connected <;> exact Nat.le_of_ble_eq_true rfl

theorem Connected.agree (connected : Connected rules capacityA capacityB nonceA nonceB link)
    (opened : link.openedA = true ∨ link.openedB = true)
    (quiet : Quiescent (Peer.endpoint rules) link) : Peer.Agree link.a link.b := by
  obtain ⟨emptyA, emptyB⟩ := quiet
  cases connected with
  | fresh => simp at opened
  | opened _ seenB => exact absurd (Nat.le_trans emptyB seenB) (Nat.not_succ_le_self _)
  | answered seenA => exact absurd (Nat.le_trans emptyA seenA) (Nat.not_succ_le_self _)
  | joined => exact ⟨_, _, rfl, rfl⟩
  | reopened seenA =>
    exact absurd (Nat.le_trans emptyA (Nat.le_succ_of_le seenA)) (Nat.not_succ_le_self _)
  | joinedReopened => exact absurd emptyA (Nat.not_succ_le_self _)
  | answeredBack => exact absurd emptyB (Nat.not_succ_le_self _)
  | rejoined => exact ⟨_, _, rfl, rfl⟩
  | crossed _ seenB => exact absurd (Nat.le_trans emptyB seenB) (Nat.not_succ_le_self _)
  | yielded seenA => exact absurd (Nat.le_trans emptyA seenA) (Nat.not_succ_le_self _)
  | settled => exact ⟨_, _, rfl, rfl⟩

variable [Std.Asymm fun x y : ν => x < y] [Std.Trichotomous fun x y : ν => x < y]

theorem settles_of_enough (enough : Enough rules capacityA capacityB nonceA nonceB) :
    Settles (Peer.endpoint rules) Peer.Agree
      (.initial (.initial capacityA nonceA) (.initial capacityB nonceB)) := by
  have start : Reached rules capacityA capacityB nonceA nonceB
      (.initial (.initial capacityA nonceA) (.initial capacityB nonceB)) :=
    Or.inl (.fresh (Nat.zero_le 1) (Nat.zero_le 1))
  constructor
  · refine ⟨6, ?_⟩
    intro link run
    rcases invariant_of_run (Reached.step enough) run start with connected | connected
    · exact connected.sent_le
    · rw [Nat.add_comm]
      exact connected.sent_le
  · intro link run opened quiet
    rcases invariant_of_run (Reached.step enough) run start with connected | connected
    · exact connected.agree opened quiet
    · exact (connected.agree opened.symm quiet.symm).symm

end

end

end Tlm.MicroRpc.Handshake
