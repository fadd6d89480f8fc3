import Mathlib.Data.List.Sort

set_option autoImplicit false

namespace Cpp

structure StrictWeak {α : Type} (less : α → α → Bool) : Prop where
  asymm : ∀ a b, less a b = true → less b a = false
  trans : ∀ a b c, less b a = false → less c b = false → less c a = false

structure Sorting where
  sort : {α : Type} → (α → α → Bool) → List α → List α
  perm : ∀ {α : Type} (less : α → α → Bool) (items : List α), (sort less items).Perm items
  sorted : ∀ {α : Type} {less : α → α → Bool} (items : List α), StrictWeak less →
    (sort less items).Pairwise fun a b => less b a = false

theorem strictWeak_key {α : Type} (key : α → Int) : StrictWeak fun a b => decide (key a < key b) where
  asymm := by
    simp only [decide_eq_true_eq, decide_eq_false_iff_not]
    omega
  trans := by
    simp only [decide_eq_false_iff_not]
    omega

theorem Sorting.mem_sort (sorting : Sorting) {α : Type} {less : α → α → Bool} {items : List α}
    {a : α} : a ∈ sorting.sort less items ↔ a ∈ items :=
  (sorting.perm less items).mem_iff

def Sorting.byInsertion : Sorting where
  sort less := List.insertionSort fun a b => less b a = false
  perm _ := List.perm_insertionSort _
  sorted {α} {less} items weak := by
    have total : Std.Total fun a b : α => less b a = false := by
      constructor
      intro a b
      cases first : less b a with
      | false => exact Or.inl rfl
      | true => exact Or.inr (weak.asymm _ _ first)
    have transitive : IsTrans α fun a b => less b a = false := ⟨weak.trans⟩
    exact List.pairwise_insertionSort _ _

end Cpp
