import Mathlib.Data.List.Forall2
import Mathlib.Logic.Relation

set_option autoImplicit false

namespace Duplex

variable {σ τ μ ν : Type}

structure Endpoint (σ μ : Type) where
  sent : σ → List μ
  opens : σ → σ → Prop
  receives : σ → μ → σ → Prop

structure Link (σ : Type) where
  a : σ
  b : σ
  readA : Nat
  readB : Nat
  openedA : Bool
  openedB : Bool

namespace Link

def initial (a b : σ) : Link σ :=
  ⟨a, b, 0, 0, false, false⟩

def swap (link : Link σ) : Link σ :=
  ⟨link.b, link.a, link.readB, link.readA, link.openedB, link.openedA⟩

end Link

section

variable (e : Endpoint σ μ)

inductive Open : Link σ → Link σ → Prop where
  | mk (link : Link σ) (a : σ) (fresh : link.openedA = false) (opens : e.opens link.a a) :
      Open link { link with a := a, openedA := true }

inductive Deliver : Link σ → Link σ → Prop where
  | mk (link : Link σ) (message : μ) (a : σ) (head : (e.sent link.b)[link.readA]? = some message)
      (receives : e.receives link.a message a) :
      Deliver link { link with a := a, readA := link.readA + 1 }

inductive Step : Link σ → Link σ → Prop where
  | openA {link after : Link σ} (opens : Open e link after) : Step link after
  | openB {link after : Link σ} (opens : Open e link.swap after) : Step link after.swap
  | deliverA {link after : Link σ} (delivers : Deliver e link after) : Step link after
  | deliverB {link after : Link σ} (delivers : Deliver e link.swap after) : Step link after.swap

abbrev Run : Link σ → Link σ → Prop :=
  Relation.ReflTransGen (Step e)

def Quiescent (link : Link σ) : Prop :=
  (e.sent link.b).length ≤ link.readA ∧ (e.sent link.a).length ≤ link.readB

-- The ends exchange a bounded number of messages, and have agreed when the channels are empty after one
-- of them has opened.
structure Settles (agree : σ → σ → Prop) (start : Link σ) : Prop where
  bounded : ∃ bound, ∀ link, Run e start link →
    (e.sent link.a).length + (e.sent link.b).length ≤ bound
  agrees : ∀ link, Run e start link → (link.openedA = true ∨ link.openedB = true) →
    Quiescent e link → agree link.a link.b

end

section

variable {e : Endpoint σ μ} {inv : Link σ → Prop}

theorem invariant_of_run (step : ∀ {link after}, Step e link after → inv link → inv after)
    {start link : Link σ} (run : Run e start link) (holds : inv start) : inv link := by
  induction run with
  | refl => exact holds
  | tail _ last ih => exact step last ih

theorem exists_of_measure {α : Type} {r : α → α → Prop} (inv goal : α → Prop) (measure : α → Nat)
    (progress : ∀ x, inv x → goal x ∨ ∃ y, r x y ∧ inv y ∧ measure y < measure x) {x : α}
    (holds : inv x) : ∃ y, Relation.ReflTransGen r x y ∧ inv y ∧ goal y := by
  induction size : measure x using Nat.strongRecOn generalizing x with
  | ind size ih =>
    rcases progress x holds with done | ⟨y, step, holds', less⟩
    · exact ⟨x, .refl, holds, done⟩
    · obtain ⟨z, run, result⟩ := ih _ (size ▸ less) holds' rfl
      exact ⟨z, .head step run, result⟩

variable (inv) in
theorem exists_quiescent (total : ∀ s message, ∃ after, e.receives s message after)
    (symm : ∀ {link}, inv link → inv link.swap)
    (delivers : ∀ {link after}, Deliver e link after → inv link → inv after) {start : Link σ} {bound : Nat}
    (bounded : ∀ link, Run e start link → (e.sent link.a).length + (e.sent link.b).length ≤ bound)
    {link : Link σ} (run : Run e start link) (holds : inv link) :
    ∃ last, Run e start last ∧ inv last ∧ Quiescent e last := by
  have progress (link : Link σ) (kept : Run e start link ∧ inv link) :
      Quiescent e link ∨ ∃ after, Step e link after ∧ (Run e start after ∧ inv after) ∧
        bound - after.readA + (bound - after.readB) < bound - link.readA + (bound - link.readB) := by
    obtain ⟨run, holds⟩ := kept
    have sum := bounded link run
    by_cases pendingA : link.readA < (e.sent link.b).length
    · obtain ⟨a, receives⟩ := total link.a ((e.sent link.b).get ⟨link.readA, pendingA⟩)
      have delivered := Deliver.mk link _ a (List.getElem?_eq_getElem pendingA) receives
      refine Or.inr ⟨_, .deliverA delivered, ⟨run.tail (.deliverA delivered), delivers delivered holds⟩, ?_⟩
      dsimp only
      omega
    · by_cases pendingB : link.readB < (e.sent link.a).length
      · obtain ⟨b, receives⟩ := total link.b ((e.sent link.a).get ⟨link.readB, pendingB⟩)
        have delivered := Deliver.mk link.swap _ b (List.getElem?_eq_getElem pendingB) receives
        refine Or.inr ⟨_, .deliverB delivered,
          ⟨run.tail (.deliverB delivered), symm (delivers delivered (symm holds))⟩, ?_⟩
        dsimp only [Link.swap]
        omega
      · exact Or.inl ⟨Nat.le_of_not_lt pendingA, Nat.le_of_not_lt pendingB⟩
  obtain ⟨last, _, ⟨reached, holds⟩, quiet⟩ := exists_of_measure _ _ _ progress ⟨run, holds⟩
  exact ⟨last, reached, holds, quiet⟩

end

section

variable {e : Endpoint σ μ} {start link : Link σ} {p : σ}

theorem run_openA (run : Run e start link) (fresh : link.openedA = false)
    (opens : e.opens link.a p) : Run e start { link with a := p, openedA := true } :=
  run.tail (.openA (.mk link p fresh opens))

theorem run_openB (run : Run e start link) (fresh : link.openedB = false)
    (opens : e.opens link.b p) : Run e start { link with b := p, openedB := true } :=
  run.tail (.openB (.mk link.swap p fresh opens))

variable {message : μ}

theorem run_deliverA (run : Run e start link) (head : (e.sent link.b)[link.readA]? = some message)
    (receives : e.receives link.a message p) : Run e start { link with a := p, readA := link.readA + 1 } :=
  run.tail (.deliverA (.mk link message p head receives))

theorem run_deliverB (run : Run e start link) (head : (e.sent link.a)[link.readB]? = some message)
    (receives : e.receives link.b message p) : Run e start { link with b := p, readB := link.readB + 1 } :=
  run.tail (.deliverB (.mk link.swap message p head receives))

end

section

variable {e : Endpoint σ μ}

theorem Step.swap {link after : Link σ} (step : Step e link after) : Step e link.swap after.swap := by
  cases step with
  | openA step => exact .openB step
  | openB step => exact .openA step
  | deliverA step => exact .deliverB step
  | deliverB step => exact .deliverA step

theorem run_swap {start link : Link σ} (run : Run e start link) : Run e start.swap link.swap :=
  run.lift Link.swap fun _ _ step => step.swap

theorem Settles.swap {agree : σ → σ → Prop} (symm : ∀ {a b}, agree a b → agree b a)
    {start : Link σ} (settles : Settles e agree start) : Settles e agree start.swap := by
  obtain ⟨⟨bound, bounded⟩, agrees⟩ := settles
  constructor
  · refine ⟨bound, ?_⟩
    intro link run
    have := bounded link.swap (run_swap run)
    rwa [Nat.add_comm]
  · intro link run opened quiet
    exact symm (agrees link.swap (run_swap run) opened.symm quiet.symm)

end

structure Simulates (e : Endpoint σ μ) (d : Endpoint τ ν) (rep : σ → τ → Prop)
    (enc : μ → ν → Prop) : Prop where
  sent : ∀ {s p}, rep s p → List.Forall₂ enc (e.sent s) (d.sent p)
  opens : ∀ {s p s'}, rep s p → e.opens s s' → ∃ p', d.opens p p' ∧ rep s' p'
  receives : ∀ {s p s' m n}, rep s p → enc m n → e.receives s m s' →
    ∃ p', d.receives p n p' ∧ rep s' p'

structure Link.Matches (rep : σ → τ → Prop) (link : Link σ) (other : Link τ) : Prop where
  a : rep link.a other.a
  b : rep link.b other.b
  readA : link.readA = other.readA
  readB : link.readB = other.readB
  openedA : link.openedA = other.openedA
  openedB : link.openedB = other.openedB

namespace Simulates

variable {e : Endpoint σ μ} {d : Endpoint τ ν} {rep : σ → τ → Prop} {enc : μ → ν → Prop} {other : Link τ}

theorem swap_matches {link : Link σ} (same : link.Matches rep other) : link.swap.Matches rep other.swap :=
  ⟨same.b, same.a, same.readB, same.readA, same.openedB, same.openedA⟩

variable {after : Link σ}

section

variable (sim : Simulates e d rep enc)

include sim

theorem open_matches {link : Link σ} (same : link.Matches rep other)
    (step : Open e link after) : ∃ afterOther, Open d other afterOther ∧ after.Matches rep afterOther := by
  obtain ⟨a, fresh, opens⟩ := step
  obtain ⟨a', opens', rep'⟩ := sim.opens same.a opens
  exact ⟨_, .mk other a' (same.openedA ▸ fresh) opens', rep', same.b, same.readA, same.readB, rfl, same.openedB⟩

theorem deliver_matches {link : Link σ} (same : link.Matches rep other)
    (step : Deliver e link after) :
    ∃ afterOther, Deliver d other afterOther ∧ after.Matches rep afterOther := by
  obtain ⟨message, a, head, receives⟩ := step
  have sent := sim.sent same.b
  obtain ⟨inside, got⟩ := List.getElem?_eq_some_iff.mp head
  have inside' : link.readA < (d.sent other.b).length := sent.length_eq ▸ inside
  have coded := sent.get inside inside'
  rw [List.get_eq_getElem, got] at coded
  obtain ⟨a', receives', rep'⟩ := sim.receives same.a coded receives
  refine ⟨_, .mk other _ a' ?_ receives', rep', same.b, ?_, same.readB, same.openedA, same.openedB⟩
  · rw [← same.readA]; exact List.getElem?_eq_getElem inside'
  · exact congrArg (· + 1) same.readA

theorem step_matches {link : Link σ} (same : link.Matches rep other)
    (step : Step e link after) : ∃ afterOther, Step d other afterOther ∧ after.Matches rep afterOther := by
  cases step with
  | openA step =>
    obtain ⟨_, step', same'⟩ := sim.open_matches same step
    exact ⟨_, .openA step', same'⟩
  | openB step =>
    obtain ⟨_, step', same'⟩ := sim.open_matches (swap_matches same) step
    exact ⟨_, .openB step', swap_matches same'⟩
  | deliverA step =>
    obtain ⟨_, step', same'⟩ := sim.deliver_matches same step
    exact ⟨_, .deliverA step', same'⟩
  | deliverB step =>
    obtain ⟨_, step', same'⟩ := sim.deliver_matches (swap_matches same) step
    exact ⟨_, .deliverB step', swap_matches same'⟩

theorem run_matches {start link : Link σ} (same : start.Matches rep other)
    (run : Run e start link) : ∃ last, Run d other last ∧ link.Matches rep last := by
  induction run with
  | refl => exact ⟨other, .refl, same⟩
  | tail _ step ih =>
    obtain ⟨middle, run', same'⟩ := ih
    obtain ⟨last, step', same''⟩ := sim.step_matches same' step
    exact ⟨last, run'.tail step', same''⟩

theorem settles {agree : σ → σ → Prop} {agree' : τ → τ → Prop}
    (agrees : ∀ {a b p q}, rep a p → rep b q → agree' p q → agree a b) {start : Link σ}
    (same : start.Matches rep other) (settled : Settles d agree' other) : Settles e agree start := by
  obtain ⟨⟨bound, bounded⟩, agreed⟩ := settled
  constructor
  · refine ⟨bound, ?_⟩
    intro link run
    obtain ⟨last, run', same'⟩ := sim.run_matches same run
    rw [(sim.sent same'.a).length_eq, (sim.sent same'.b).length_eq]
    exact bounded last run'
  · intro link run opened quiet
    obtain ⟨last, run', same'⟩ := sim.run_matches same run
    refine agrees same'.a same'.b (agreed last run' ?_ ?_)
    · rwa [← same'.openedA, ← same'.openedB]
    · rw [Quiescent, ← same'.readA, ← same'.readB, ← (sim.sent same'.a).length_eq,
        ← (sim.sent same'.b).length_eq]
      exact quiet

end

end Simulates

end Duplex
