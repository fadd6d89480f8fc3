import Mathlib.Logic.Basic

set_option autoImplicit false

namespace Ranked

section

variable {ν α : Type} (step : (ν → α) → ν → α) (start : α)

def upTo : Nat → ν → α
  | 0, _ => start
  | bound + 1, n => step (upTo bound) n

def value (rank : ν → Nat) (n : ν) : α :=
  upTo step start (rank n + 1) n

variable {step start} {parts : ν → List ν} {rank : ν → Nat}
  (congr : ∀ {f f' : ν → α} {n : ν}, (∀ m ∈ parts n, f m = f' m) → step f n = step f' n)
  (acyclic : ∀ n, ∀ m ∈ parts n, rank m < rank n)

include congr acyclic

theorem upTo_eq {bound bound' : Nat} {n : ν} (enough : rank n < bound) (enough' : rank n < bound') :
    upTo step start bound n = upTo step start bound' n := by
  induction bound generalizing n bound' with
  | zero => cases enough
  | succ bound ih =>
    cases bound' with
    | zero => cases enough'
    | succ bound' =>
      refine congr fun m part => ?_
      have smaller := acyclic n m part
      exact ih (by omega) (by omega)

theorem value_eq (n : ν) : value step start rank n = step (value step start rank) n :=
  congr fun m part => upTo_eq congr acyclic (acyclic n m part) (Nat.lt_succ_self _)

end

end Ranked
