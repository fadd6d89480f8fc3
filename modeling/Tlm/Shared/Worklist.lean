import Mathlib.Logic.Basic

set_option autoImplicit false

namespace Worklist

variable {σ κ : Type} (take : σ → Option (κ × σ)) (visit : κ → σ → σ)

def drain : Nat → σ → σ
  | 0, state => state
  | fuel + 1, state =>
    match take state with
    | some (key, rest) => drain fuel (visit key rest)
    | none => state

variable {take visit} (Inv : σ → Prop)
  (step : ∀ state key rest, Inv state → take state = some (key, rest) → Inv (visit key rest))

include step

theorem drain_invariant (fuel : Nat) {state : σ} (holds : Inv state) : Inv (drain take visit fuel state) := by
  induction fuel generalizing state with
  | zero => exact holds
  | succ fuel ih =>
    cases taken : take state with
    | none => simpa [drain, taken] using holds
    | some next => simpa [drain, taken] using ih (step state next.1 next.2 holds taken)

theorem drain_empty (measure : σ → Nat)
    (decreases : ∀ state key rest, Inv state → take state = some (key, rest) →
      measure (visit key rest) < measure state)
    {fuel : Nat} {state : σ} (holds : Inv state) (enough : measure state ≤ fuel) :
    take (drain take visit fuel state) = none := by
  induction fuel generalizing state with
  | zero =>
    cases taken : take state with
    | none => exact taken
    | some next =>
      have less := decreases state next.1 next.2 holds taken
      omega
  | succ fuel ih =>
    cases taken : take state with
    | none => simp [drain, taken]
    | some next =>
      have less := decreases state next.1 next.2 holds taken
      simpa [drain, taken] using ih (step state next.1 next.2 holds taken) (by omega)

end Worklist
