import Mathlib.Data.List.Basic
import Mathlib.Order.Lattice

set_option autoImplicit false

namespace Cpp

theorem getD_front {α : Type} {front : List α} (back : List α) {i : Nat} (inside : i < front.length)
    (default : α) : (front ++ back).getD i default ∈ front := by
  simp [List.getElem?_append_left inside, List.getElem?_eq_getElem inside]

theorem getD_back {α : Type} {front back : List α} {i : Nat} (after : front.length ≤ i)
    (inside : i < front.length + back.length) (default : α) : (front ++ back).getD i default ∈ back := by
  have within : i - front.length < back.length := by omega
  simp [List.getElem?_append_right after, List.getElem?_eq_getElem within]

variable {α : Type} [LinearOrder α]

-- At most `fuel` halvings of the range that starts at `first`.
def upperBoundFrom (items : List α) (value : α) : (fuel first len : Nat) → Nat
  | 0, first, _ => first
  | fuel + 1, first, len =>
    if len = 0 then first
    else
      let half := len / 2
      if value < items.getD (first + half) value then upperBoundFrom items value fuel first half
      else upperBoundFrom items value fuel (first + half + 1) (len - half - 1)

def upperBound (items : List α) (value : α) : Nat :=
  upperBoundFrom items value items.length 0 items.length

section

variable {front back : List α} {value : α}
  (low : ∀ item ∈ front, item ≤ value) (high : ∀ item ∈ back, value < item)

include low high

theorem upperBoundFrom_eq (fuel : Nat) : ∀ {first len : Nat}, len ≤ fuel → first ≤ front.length →
    front.length ≤ first + len → first + len ≤ front.length + back.length →
    upperBoundFrom (front ++ back) value fuel first len = front.length := by
  induction fuel with
  | zero =>
    intro first len short before after _
    simp only [upperBoundFrom]
    omega
  | succ fuel ih =>
    intro first len short before after inside
    simp only [upperBoundFrom]
    by_cases empty : len = 0
    · simp only [empty, if_true]
      omega
    · simp only [empty]
      by_cases middle : first + len / 2 < front.length
      · have small := low _ (getD_front back middle value)
        rw [if_neg (not_lt.2 small)]
        exact ih (by omega) (by omega) (by omega) (by omega)
      · have last : first + len / 2 < front.length + back.length := by omega
        have large := high _ (getD_back (Nat.not_lt.1 middle) last value)
        rw [if_pos large]
        exact ih (by omega) (by omega) (by omega) (by omega)

theorem upperBound_eq : upperBound (front ++ back) value = front.length :=
  upperBoundFrom_eq low high _ (Nat.le_refl _) (Nat.zero_le _) (by simp) (by simp)

end

theorem sorted_partition (value : α) {items : List α} (sorted : items.Pairwise (· ≤ ·)) :
    ∃ front back, items = front ++ back ∧ (∀ item ∈ front, item ≤ value) ∧ (∀ item ∈ back, value < item) := by
  induction items with
  | nil => exact ⟨[], [], rfl, by simp, by simp⟩
  | cons item rest ih =>
    rw [List.pairwise_cons] at sorted
    by_cases small : item ≤ value
    · obtain ⟨front, back, rfl, low, high⟩ := ih sorted.2
      exact ⟨item :: front, back, rfl, by simpa [small] using low, high⟩
    · refine ⟨[], item :: rest, rfl, by simp, ?_⟩
      intro later member
      rcases List.mem_cons.1 member with rfl | member
      · exact not_le.1 small
      · exact (not_le.1 small).trans_le (sorted.1 later member)

end Cpp
