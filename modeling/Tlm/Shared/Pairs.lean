import Mathlib.Tactic.Common

set_option autoImplicit false

namespace Pairs

section

variable {α : Type} (f : α → α → α × α)

def pairRow (a : α) : List α → α × List α
  | [] => (a, [])
  | b :: rest =>
    let (a, b) := f a b
    let (a, rest) := pairRow a rest
    (a, b :: rest)

-- The loop over the first `n` rows.
def pairRows : Nat → List α → List α
  | n + 1, a :: rest =>
    let (a, rest) := pairRow f a rest
    a :: pairRows n rest
  | _, list => list

def pairwise (list : List α) : List α :=
  pairRows f list.length list

-- Every pair is as required at the time at which the loop reaches it.
def RowAlong (P : α → α → Prop) (a : α) : List α → Prop
  | [] => True
  | b :: rest => P a b ∧ RowAlong P (f a b).1 rest

def RowsAlong (P : α → α → Prop) : Nat → List α → Prop
  | n + 1, a :: rest => RowAlong f P a rest ∧ RowsAlong P n (pairRow f a rest).2
  | _, _ => True

def PairsAlong (P : α → α → Prop) (list : List α) : Prop :=
  RowsAlong f P list.length list

variable {f} {P : α → α → Prop}

instance RowAlong.decidable [DecidableRel P] (a : α) : (list : List α) → Decidable (RowAlong f P a list)
  | [] => inferInstanceAs (Decidable True)
  | b :: rest =>
    let _ : Decidable (RowAlong f P (f a b).1 rest) := RowAlong.decidable _ rest
    inferInstanceAs (Decidable (P a b ∧ _))

instance RowsAlong.decidable [DecidableRel P] : (n : Nat) → (list : List α) → Decidable (RowsAlong f P n list)
  | n + 1, a :: rest =>
    let _ : Decidable (RowsAlong f P n (pairRow f a rest).2) := RowsAlong.decidable n _
    inferInstanceAs (Decidable (RowAlong f P a rest ∧ _))
  | 0, _ => inferInstanceAs (Decidable True)
  | _ + 1, [] => inferInstanceAs (Decidable True)

instance [DecidableRel P] (list : List α) : Decidable (PairsAlong f P list) :=
  RowsAlong.decidable list.length list

theorem rowAlong_of_forall (always : ∀ a b, P a b) (a : α) (list : List α) : RowAlong f P a list := by
  induction list generalizing a with
  | nil => trivial
  | cons b rest ih => exact ⟨always a b, ih _⟩

theorem pairsAlong_of_forall (always : ∀ a b, P a b) (list : List α) : PairsAlong f P list := by
  suffices rows : ∀ n list, RowsAlong f P n list from rows list.length list
  intro n
  induction n with
  | zero => exact fun _ => trivial
  | succ n ih =>
    intro list
    cases list with
    | nil => trivial
    | cons a rest => exact ⟨rowAlong_of_forall always a rest, ih _⟩

section

variable {p : α → Prop} (step : ∀ a b, P a b → (p (f a b).1 ∨ p (f a b).2 ↔ p a ∨ p b))

include step

theorem pairRow_exists {a : α} {list : List α} (along : RowAlong f P a list) :
    (p (pairRow f a list).1 ∨ ∃ x ∈ (pairRow f a list).2, p x) ↔ p a ∨ ∃ x ∈ list, p x := by
  induction list generalizing a with
  | nil => rfl
  | cons b rest ih =>
    have pair := step a b along.1
    have row := ih along.2
    simp only [pairRow, List.mem_cons, exists_eq_or_imp]
    rw [or_left_comm, row, or_left_comm, ← or_assoc, pair, or_assoc]

theorem pairRows_exists {n : Nat} {list : List α} (along : RowsAlong f P n list) :
    (∃ x ∈ pairRows f n list, p x) ↔ ∃ x ∈ list, p x := by
  induction n generalizing list with
  | zero => rfl
  | succ n ih =>
    cases list with
    | nil => rfl
    | cons a rest =>
      have row := pairRow_exists step along.1
      simp only [pairRows, List.mem_cons, exists_eq_or_imp]
      rw [ih along.2, row]

theorem pairwise_exists {list : List α} (along : PairsAlong f P list) :
    (∃ x ∈ pairwise f list, p x) ↔ ∃ x ∈ list, p x :=
  pairRows_exists step along

end

theorem pairwise_forall {p : α → Prop} (step : ∀ a b, P a b → (p (f a b).1 ∧ p (f a b).2 ↔ p a ∧ p b))
    {list : List α} (along : PairsAlong f P list) : (∀ x ∈ pairwise f list, p x) ↔ ∀ x ∈ list, p x := by
  have dual := pairwise_exists (p := fun x => ¬p x)
    (fun a b holds => by simpa only [not_and_or] using not_congr (step a b holds)) along
  simpa using not_congr dual

end

end Pairs
